import UsbVault.Storage.Uploads

/-!
# Multipart service

`MultipartService` of `internal/storage/multipart.go` with its cache, and the
table of `multipart_store.go` behind it. A lookup goes to the cache first and
then, when a store is wired, to the store; what it finds there is put into
the cache. An upload of another user or vault is answered like one that does
not exist.

The failures of the database and of S3 are outcomes, with their texts. An
upload is stored with its parts, in the order of their numbers; times are
numbers. Sizes and numbers of parts are those the handlers admit, positive
sizes and the numbers 1 to 10000; the conversion of the numbers to 32 bits is
left out.
-/

namespace UsbVault.Storage.Multipart

open Members

inductive Status where
  | inProgress
  | completed
  | aborted
  deriving DecidableEq

def Status.text : Status → String
  | .inProgress => "in_progress"
  | .completed => "completed"
  | .aborted => "aborted"

structure Upload where
  userID : UserID
  vaultID : VaultID
  fileID : BlobID
  totalSize : Int
  partSize : Int
  totalParts : Int
  completeParts : List CompletedPart
  status : Status
  createdAt : Int
  updatedAt : Int
  expiresAt : Int
  deriving DecidableEq

/-- In progress beyond `expires_at`. -/
def Upload.expired (upload : Upload) (now : Int) : Bool :=
  upload.status = .inProgress && upload.expiresAt < now

def Upload.key (upload : Upload) : ObjectKey := .file upload.vaultID upload.fileID

def Upload.OwnedBy (upload : Upload) (userID : UserID) (vaultID : VaultID) : Prop :=
  upload.userID = userID ∧ upload.vaultID = vaultID

instance (upload : Upload) (userID : UserID) (vaultID : VaultID) :
    Decidable (upload.OwnedBy userID vaultID) :=
  inferInstanceAs (Decidable (_ ∧ _))

def errUploadNotFound : String := "upload not found"

def errFileSizeExceedsTier : String := "file size exceeds subscription tier limit"

/-- 24 hours, in nanoseconds. -/
def uploadExpiryTTL : Int := 24 * 60 * 60 * 1000000000

/-! ## Parts -/

/-- The upsert of `CompletePart` into the cached list. -/
def upsertCached (part : CompletedPart) : List CompletedPart → List CompletedPart
  | [] => [part]
  | p :: parts =>
    if p.partNumber = part.partNumber then part :: parts else p :: upsertCached part parts

/-- The upsert on `(upload_id, part_number)`, in the order of the numbers. -/
def upsertStored (part : CompletedPart) : List CompletedPart → List CompletedPart
  | [] => [part]
  | p :: parts =>
    if p.partNumber = part.partNumber then part :: parts
    else if part.partNumber < p.partNumber then part :: p :: parts
    else p :: upsertStored part parts

def sortPartsAscending (parts : List CompletedPart) : List CompletedPart :=
  parts.insertionSort fun a b => a.partNumber ≤ b.partNumber

/-! ## The store -/

/-- `multipart_uploads` with `multipart_upload_parts`. -/
abbrev Store := UploadID → Option Upload

/-- What goes wrong when the parts of an upload are read. -/
inductive PartsFault where
  | query (text : String)
  | scan (text : String)
  | iterate (text : String)
  deriving DecidableEq

def PartsFault.error : PartsFault → String
  | .query text => s!"multipart store: get parts: {text}"
  | .scan text => s!"multipart store: scan part: {text}"
  | .iterate text => s!"multipart store: iterate parts: {text}"

/-- The queries for an upload and for its parts. -/
structure GetOutcome where
  upload : Option String
  parts : Option PartsFault
  deriving DecidableEq

/-- `Get`: the parts are read only when the upload is there. -/
def Store.get (store : Store) (uploadID : UploadID) (o : GetOutcome) :
    Except String (Option Upload) :=
  match o.upload with
  | some text => .error s!"multipart store: get upload: {text}"
  | none =>
    match store uploadID with
    | none => .ok none
    | some upload =>
      match o.parts with
      | some fault => .error fault.error
      | none => .ok (some upload)

/-- The two statements of `UpsertPart`; a part without an upload violates a
foreign key. -/
structure UpsertOutcome where
  part : Option String
  foreignKey : String
  touch : Option String
  deriving DecidableEq

/-- The INSERT of an upload; its identifier is the primary key. -/
def Store.insert (store : Store) (uploadID : UploadID) (upload : Upload) (o : Option String)
    (duplicateKey : String) : Store × Except String Unit :=
  match o with
  | some text => (store, .error s!"multipart store: insert upload: {text}")
  | none =>
    match store uploadID with
    | some _ => (store, .error s!"multipart store: insert upload: {duplicateKey}")
    | none => (Function.update store uploadID (some upload), .ok ())

def Store.upsertPart (store : Store) (uploadID : UploadID) (part : CompletedPart) (now : Int)
    (o : UpsertOutcome) : Store × Except String Unit :=
  match o.part with
  | some text => (store, .error s!"multipart store: upsert part: {text}")
  | none =>
    match store uploadID with
    | none =>
      let text := o.foreignKey
      (store, .error s!"multipart store: upsert part: {text}")
    | some upload =>
      let recorded := { upload with
        completeParts := upsertStored part upload.completeParts }
      match o.touch with
      | some text =>
        (Function.update store uploadID (some recorded),
          .error s!"multipart store: touch upload: {text}")
      | none =>
        (Function.update store uploadID (some { recorded with updatedAt := now }),
          .ok ())

/-! ## The service -/

inductive S3Request where
  | create (key : ObjectKey)
  | presignPart (key : ObjectKey) (uploadID : UploadID) (partNumber : Int)
  | complete (key : ObjectKey) (uploadID : UploadID) (parts : List (Int × String))
  | head (key : ObjectKey)
  | delete (key : ObjectKey)
  | abort (key : ObjectKey) (uploadID : UploadID)

/-- How the calls of an operation to the store, to S3, to the billing service
and to the listing of the bucket end, and the time of the clock. -/
structure Outcome where
  get : GetOutcome
  upsert : UpsertOutcome
  presign : Option String
  complete : Option String
  head : Except String Int
  billing : Billing
  usage : Option (Option Int)
  abort : Option String
  untrack : Bool
  now : Int

/-- The tier, `CreateMultipartUpload` with the identifier it gives, the INSERT
of the tracking row, and the time of the clock. -/
structure InitiateOutcome where
  billing : Billing
  create : Except String UploadID
  insert : Option String
  duplicateKey : String
  now : Int

/-- A sweep of the expired uploads: the time, whether they could be listed,
and which of their rows are deleted. -/
structure SweepOutcome where
  now : Int
  listed : Bool
  deleted : UploadID → Bool

abbrev ReplicaID := Nat

/-- What an operation answers. -/
inductive Response where
  | done
  | progress (upload : Upload)

/-- `MultipartService`: the cache, and the store where one is wired. -/
structure MultipartService where
  uploads : UploadID → Option Upload
  store : Option Store

/-- What an operation leaves, what it has sent to S3, and what it returns. -/
structure Answer (α : Type) where
  service : MultipartService
  sent : List S3Request
  result : Except String α

namespace MultipartService

variable (ms : MultipartService)

def cache (uploadID : UploadID) (upload : Upload) : MultipartService :=
  { ms with uploads := Function.update ms.uploads uploadID (some upload) }

/-- The tracking state of an upload that starts. -/
def newUpload (userID : UserID) (vaultID : VaultID) (fileID : BlobID) (totalSize now : Int) :
    Upload where
  userID := userID
  vaultID := vaultID
  fileID := fileID
  totalSize := totalSize
  partSize := (Service.partPlan totalSize).1
  totalParts := (Service.partPlan totalSize).2
  completeParts := []
  status := .inProgress
  createdAt := now
  updatedAt := now
  expiresAt := now + uploadExpiryTTL

def initiateUpload (userID : UserID) (vaultID : VaultID) (fileID : BlobID) (totalSize : Int)
    (o : InitiateOutcome) : Answer (UploadID × Upload) :=
  if totalSize > o.billing.maxFileSize then ⟨ms, [], .error errFileSizeExceedsTier⟩
  else
    let upload := newUpload userID vaultID fileID totalSize o.now
    match o.create with
    | .error text =>
      ⟨ms, [.create upload.key], .error s!"failed to initiate S3 multipart upload: {text}"⟩
    | .ok uploadID =>
      match ms.store with
      | none => ⟨ms.cache uploadID upload, [.create upload.key], .ok (uploadID, upload)⟩
      | some store =>
        match store.insert uploadID upload o.insert o.duplicateKey with
        | (store, .error text) =>
          -- an upload that cannot be tracked is aborted
          ⟨{ ms with store := some store },
            [.create upload.key, .abort upload.key uploadID],
            .error s!"failed to persist multipart upload state: {text}"⟩
        | (store, .ok ()) =>
          ⟨{ ms with store := some store }.cache uploadID upload, [.create upload.key],
            .ok (uploadID, upload)⟩

def authorizedUpload (uploadID : UploadID) (userID : UserID) (vaultID : VaultID) :
    Option Upload :=
  (ms.uploads uploadID).filter fun upload => upload.OwnedBy userID vaultID

def loadUpload (uploadID : UploadID) (userID : UserID) (vaultID : VaultID) (o : GetOutcome) :
    MultipartService × Except String Upload :=
  match ms.authorizedUpload uploadID userID vaultID with
  | some upload => (ms, .ok upload)
  | none =>
    match ms.store with
    | none => (ms, .error errUploadNotFound)
    | some store =>
      match store.get uploadID o with
      | .error text => (ms, .error text)
      | .ok none => (ms, .error errUploadNotFound)
      | .ok (some stored) =>
        if ¬stored.OwnedBy userID vaultID then (ms, .error errUploadNotFound)
        else
          -- what is cached is preferred, without a check of its owner
          match ms.uploads uploadID with
          | some existing => (ms, .ok existing)
          | none => (ms.cache uploadID stored, .ok stored)

/-- Drop the tracking of an upload; a failure to delete its row is logged only. -/
def untrack (uploadID : UploadID) (o : Outcome) : MultipartService where
  uploads := Function.update ms.uploads uploadID none
  store := if o.untrack then ms.store.map fun store => Function.update store uploadID none
    else ms.store

/-- The lookup that every operation on an upload starts with. -/
def withUpload {α : Type} (userID : UserID) (vaultID : VaultID) (uploadID : UploadID)
    (o : GetOutcome) (next : MultipartService → Upload → Answer α) : Answer α :=
  match ms.loadUpload uploadID userID vaultID o with
  | (ms, .error text) => ⟨ms, [], .error text⟩
  | (ms, .ok upload) => next ms upload

/-- What `CompletePart` does to the upload that it has loaded. -/
def recordPart (uploadID : UploadID) (upload : Upload) (part : CompletedPart) (o : Outcome) :
    Answer Unit :=
  let ms := ms.cache uploadID { upload with
    completeParts := upsertCached part upload.completeParts
    updatedAt := o.now }
  match ms.store with
  | none => ⟨ms, [], .ok ()⟩
  | some store =>
    match store.upsertPart uploadID part o.now o.upsert with
    | (store, .error text) =>
      ⟨{ ms with store := some store }, [],
        .error s!"failed to persist completed part: {text}"⟩
    | (store, .ok ()) => ⟨{ ms with store := some store }, [], .ok ()⟩

variable (userID : UserID) (vaultID : VaultID) (uploadID : UploadID)

def generatePresignedPartURL (partNumber : Int) (o : Outcome) : Answer Unit :=
  ms.withUpload userID vaultID uploadID o.get fun ms upload =>
    if upload.status ≠ .inProgress then
      let status := upload.status.text
      ⟨ms, [], .error s!"upload is not in progress: {status}"⟩
    else
      let presign := .presignPart upload.key uploadID partNumber
      match o.presign with
      | some text => ⟨ms, [presign], .error s!"failed to generate presigned URL: {text}"⟩
      | none => ⟨ms, [presign], .ok ()⟩

def completePart (part : CompletedPart) (o : Outcome) : Answer Unit :=
  ms.withUpload userID vaultID uploadID o.get fun ms upload => ms.recordPart uploadID upload part o

/-- The bytes in use exceed the tier's, or could not be determined. -/
def overQuota (o : Outcome) : Bool :=
  match o.usage with
  | none => false
  | some none => true
  | some (some current) => current > maxStorageMB o.billing.tierName * 1024 * 1024

/-- The numbers and ETags of the parts, as they are sent to S3. -/
def sentParts (parts : List CompletedPart) : List (Int × String) :=
  (sortPartsAscending parts).map fun p => (p.partNumber, p.etag)

/-- What `FinalizeUpload` asks S3 about the object it has assembled, and what
it returns: an object that is rejected, or of unknown size, is deleted. -/
def checkAssembled (key : ObjectKey) (o : Outcome) : List S3Request × Except String Unit :=
  match o.head with
  | .error text =>
    ([.head key, .delete key], .error s!"failed to verify assembled object size: {text}")
  | .ok realSize =>
    if realSize > o.billing.maxFileSize ∨ overQuota o then
      ([.head key, .delete key], .error errFileSizeExceedsTier)
    else ([.head key], .ok ())

def finalizeUpload (o : Outcome) : Answer Unit :=
  ms.withUpload userID vaultID uploadID o.get fun ms upload =>
    let complete := .complete upload.key uploadID (sentParts upload.completeParts)
    match o.complete with
    | some text => ⟨ms, [complete], .error s!"failed to complete multipart upload: {text}"⟩
    | none =>
      let checked := checkAssembled upload.key o
      ⟨ms.untrack uploadID o, complete :: checked.1, checked.2⟩

def abortUpload (o : Outcome) : Answer Unit :=
  ms.withUpload userID vaultID uploadID o.get fun ms upload =>
    let abort := .abort upload.key uploadID
    match o.abort with
    | some text => ⟨ms, [abort], .error s!"failed to abort multipart upload: {text}"⟩
    | none => ⟨ms.untrack uploadID o, [abort], .ok ()⟩

def getUploadProgress (o : Outcome) : Answer Upload :=
  ms.withUpload userID vaultID uploadID o.get fun ms upload => ⟨ms, [], .ok upload⟩

/-- One sweep: driven by the store where there is one, by the cache otherwise. -/
def cleanupExpiredOnce (o : SweepOutcome) : MultipartService :=
  match ms.store with
  | none => { ms with uploads := fun id => (ms.uploads id).filter fun u => !u.expired o.now }
  | some store =>
    if o.listed then
      { uploads := fun id =>
          if (store id).any fun u => u.expired o.now then none else ms.uploads id
        store := some fun id =>
          (store id).filter fun u => !(u.expired o.now && o.deleted id) }
    else ms

end MultipartService

end UsbVault.Storage.Multipart
