import UsbVault.Lib.Calls
import UsbVault.Storage.Multipart

/-!
# Multipart uploads on several replicas

The operations of `MultipartService` statement by statement, as calls that
run side by side on the replicas of the server, over one store. What a
replica caches is a pointer to an upload in memory (`Object`), which the calls
that have loaded it share: `CompletePart` changes the upload through it and
`FinalizeUpload` reads its parts, each under the lock of the replica.

A query for an upload and the query for its parts are two statements. An
INSERT that fails has no effect.
-/

namespace UsbVault.Storage.Multipart.Replicas

open Members

/-- A tracked upload in the memory of a replica. -/
structure Object where
  uploadID : UploadID
  upload : Upload

/-- The tables, the memory of the replicas and what each has cached, the
identifiers of the uploads tracked so far, and the requests to S3. -/
structure Fleet where
  store : Store
  objects : List Object
  cached : ReplicaID → UploadID → Option Nat
  issued : UploadID → Bool
  sent : List S3Request

inductive Request where
  | completePart (part : CompletedPart)
  | finalizeUpload
  | getUploadProgress

/-- The next statement of a call. -/
inductive Phase where
  | authorize
  | getUpload
  | getParts (row : Upload)
  | cache (stored : Upload)
  | loaded (object : Nat)
  | insertPart (part : CompletedPart)
  | touch
  | check (key : ObjectKey)
  | uncache (result : Except String Response)
  | delete (result : Except String Response)
  | done (result : Except String Response)

structure Call where
  replica : ReplicaID
  userID : UserID
  vaultID : VaultID
  uploadID : UploadID
  request : Request
  phase : Phase

def Call.next (call : Call) (phase : Phase) : Call := { call with phase }

def Call.fail (call : Call) (text : String) : Call := call.next (.done (.error text))

inductive Event where
  | initiate (replica : ReplicaID) (userID : UserID) (vaultID : VaultID) (fileID : BlobID)
      (totalSize : Int) (o : InitiateOutcome)
  | request (replica : ReplicaID) (userID : UserID) (vaultID : VaultID) (uploadID : UploadID)
      (request : Request)

namespace Fleet

variable (f : Fleet)

/-- The rows of `multipart_upload_parts` of an upload, by their numbers. -/
def parts (uploadID : UploadID) : List CompletedPart :=
  match f.store uploadID with
  | some row => row.completeParts
  | none => []

/-- `authorizedUpload`. -/
def authorized (call : Call) : Option Nat :=
  (f.cached call.replica call.uploadID).filter fun i =>
    f.objects[i]?.any fun object => object.upload.OwnedBy call.userID call.vaultID

def setCached (replica : ReplicaID) (uploadID : UploadID) (i : Option Nat) : Fleet :=
  let table := Function.update (f.cached replica) uploadID i
  { f with cached := Function.update f.cached replica table }

/-- A new object, which the replica caches. -/
def place (replica : ReplicaID) (uploadID : UploadID) (upload : Upload) : Fleet :=
  let grown : Fleet := { f with objects := f.objects ++ [⟨uploadID, upload⟩] }
  grown.setCached replica uploadID (some f.objects.length)

def setRow (uploadID : UploadID) (row : Option Upload) : Fleet :=
  { f with store := Function.update f.store uploadID row }

/-- Through the pointer. -/
def setObject (i : Nat) (object : Object) : Fleet :=
  { f with objects := f.objects.set i object }

def send (requests : List S3Request) : Fleet := { f with sent := f.sent ++ requests }

def issue (uploadID : UploadID) : Fleet :=
  { f with issued := Function.update f.issued uploadID true }

def initiate (replica : ReplicaID) (userID : UserID) (vaultID : VaultID) (fileID : BlobID)
    (totalSize : Int) (o : InitiateOutcome) : Fleet :=
  let ms : MultipartService := ⟨fun _ => none, some f.store⟩
  let answer := ms.initiateUpload userID vaultID fileID totalSize o
  let stored : Fleet := { f with store := answer.service.store.getD f.store }
  match answer.result with
  | .error _ => stored.send answer.sent
  | .ok (uploadID, upload) =>
    ((stored.send answer.sent).issue uploadID).place replica uploadID upload

/-- S3 gives no identifier twice. -/
def isFresh (o : InitiateOutcome) : Bool :=
  match o.create with
  | .error _ => true
  | .ok uploadID => !f.issued uploadID

end Fleet

/-- An initiation, at once, or a request that arrives. -/
def world (f : Fleet) : Event → Fleet × Option Call
  | .initiate replica userID vaultID fileID totalSize o =>
    (if f.isFresh o then f.initiate replica userID vaultID fileID totalSize o else f, none)
  | .request replica userID vaultID uploadID request =>
    (f, some ⟨replica, userID, vaultID, uploadID, request, .authorize⟩)

/-- What a call does with the upload it has loaded. -/
def onObject (f : Fleet) (call : Call) (i : Nat) (object : Object) (o : Outcome) : Fleet × Call :=
  let upload := object.upload
  match call.request with
  | .completePart part =>
    let updated := { upload with
      completeParts := upsertCached part upload.completeParts
      updatedAt := o.now }
    (f.setObject i { object with upload := updated }, call.next (.insertPart part))
  | .finalizeUpload =>
    let complete := .complete upload.key call.uploadID
      (MultipartService.sentParts upload.completeParts)
    match o.complete with
    | some text =>
      (f.send [complete], call.fail s!"failed to complete multipart upload: {text}")
    | none => (f.send [complete], call.next (.check upload.key))
  | .getUploadProgress => (f, call.next (.done (.ok (.progress upload))))

def exec (_ : Nat) (f : Fleet) (call : Call) (o : Outcome) : Fleet × Call :=
  match call.phase with
  | .authorize =>
    match f.authorized call with
    | some i => (f, call.next (.loaded i))
    | none => (f, call.next .getUpload)
  | .getUpload =>
    match o.get.upload with
    | some text => (f, call.fail s!"multipart store: get upload: {text}")
    | none =>
      match f.store call.uploadID with
      | none => (f, call.fail errUploadNotFound)
      | some row => (f, call.next (.getParts row))
  | .getParts row =>
    match o.get.parts with
    | some fault => (f, call.fail fault.error)
    | none =>
      if row.OwnedBy call.userID call.vaultID then
        (f, call.next (.cache { row with completeParts := f.parts call.uploadID }))
      else (f, call.fail errUploadNotFound)
  | .cache stored =>
    match f.cached call.replica call.uploadID with
    | some existing => (f, call.next (.loaded existing))
    | none => (f.place call.replica call.uploadID stored, call.next (.loaded f.objects.length))
  | .loaded i =>
    match f.objects[i]? with
    | some object => onObject f call i object o
    | none => (f, call)
  | .insertPart part =>
    match o.upsert.part with
    | some text =>
      (f, call.fail s!"failed to persist completed part: multipart store: upsert part: {text}")
    | none =>
      match f.store call.uploadID with
      | none =>
        let text := o.upsert.foreignKey
        (f, call.fail
          s!"failed to persist completed part: multipart store: upsert part: {text}")
      | some row =>
        (f.setRow call.uploadID (some { row with
          completeParts := upsertStored part row.completeParts }), call.next .touch)
  | .touch =>
    match o.upsert.touch with
    | some text =>
      (f, call.fail s!"failed to persist completed part: multipart store: touch upload: {text}")
    | none =>
      (f.setRow call.uploadID ((f.store call.uploadID).map fun row =>
        { row with updatedAt := o.now }), call.next (.done (.ok .done)))
  | .check key =>
    let checked := MultipartService.checkAssembled key o
    (f.send checked.1, call.next (.uncache (checked.2.map fun _ => .done)))
  | .uncache result =>
    (f.setCached call.replica call.uploadID none, call.next (.delete result))
  | .delete result =>
    (if o.untrack then f.setRow call.uploadID none else f, call.next (.done result))
  | .done _ => (f, call)

abbrev State := Calls.State Fleet Call

abbrev Action := Calls.Action Event Outcome

def service : Calls.Service Fleet Call Event Outcome where
  world := world
  exec := exec

/-- No upload yet. -/
def start : State where
  store := ⟨fun _ => none, [], fun _ _ => none, fun _ => false, []⟩
  calls := []

end UsbVault.Storage.Multipart.Replicas
