import UsbVault.Lib.Table
import UsbVault.Members.Permissions
import UsbVault.Storage.Objects

/-!
# Uploads

The storage requests on a vault: single-shot uploads through a presigned URL
with their confirmation and the deletion of a blob (`internal/storage/s3.go`),
and multipart uploads (`internal/storage/multipart.go`,
`multipart_handlers.go`), each behind the permission that the router asks
for. An upload too large for the caller's tier is removed again, by the
confirmation and by the completion of a multipart upload.

An object is its size and the user who stored it. What S3 holds of the parts
of an upload is known by the outcome of its completion, and the bytes in use
(`CurrentStorageBytes`, a listing of the bucket) by the outcome of the
listing. Requests that only read (download URL, part URL, list, progress)
are left out.
-/

namespace UsbVault.Storage

open Members Tables

/-- Multipart uploads by the identifiers S3 gives them. -/
abbrev UploadID := Nat

structure StoredObject where
  size : Nat
  storedBy : UserID
  deriving DecidableEq, Repr

/-- A presigned URL for a PUT. -/
structure UploadUrl where
  vaultID : VaultID
  blobID : BlobID
  expires : Nat
  deriving DecidableEq, Repr

structure CompletedPart where
  partNumber : Int
  etag : String
  size : Int
  deriving DecidableEq, Repr

structure MultipartUpload where
  userID : UserID
  vaultID : VaultID
  fileID : BlobID
  totalSize : Int
  partSize : Int
  totalParts : Int
  completeParts : List CompletedPart
  deriving DecidableEq, Repr

def MultipartUpload.key (upload : MultipartUpload) : ObjectKey := .file upload.vaultID upload.fileID

/-- The clock in milliseconds, the tables `vaults` and `vault_members`, the
bucket, the URLs signed so far, and the uploads that are tracked. -/
structure Service where
  now : Nat
  vaults : VaultID → Option VaultRow
  members : VaultID → UserID → Option Role
  objects : Bucket StoredObject
  urls : List UploadUrl
  uploads : UploadID → Option MultipartUpload

/-! ## Limits -/

def maxFileSizeBytes : Nat := 5 * 1024 * 1024 * 1024
def maxFileSizeFree : Nat := 100 * 1024 * 1024
def maxFileSizeIndividual : Nat := 1 * 1024 * 1024 * 1024
def maxFileSizeTeam : Nat := 5 * 1024 * 1024 * 1024
def maxFileSizeEnterprise : Nat := 5 * 1024 * 1024 * 1024

/-- 15 minutes. -/
def presignedURLExpiry : Nat := 15 * 60 * 1000

def getMaxFileSizeForTier : String → Nat
  | "free" => maxFileSizeFree
  | "individual" => maxFileSizeIndividual
  | "team" => maxFileSizeTeam
  | "enterprise" => maxFileSizeEnterprise
  | _ => maxFileSizeFree

/-- `TierLimitsMap[tier].MaxStorageMB`, the free tier's for another name. -/
def maxStorageMB : String → Int
  | "free" => 100
  | "individual" => 10240
  | "team" => 102400
  | "enterprise" => 1048576
  | _ => 100

/-- The answer of `CheckAccess`, where a checker is set. -/
inductive Billing where
  | unset
  | failed
  | tier (name : String)
  deriving DecidableEq, Repr

def Billing.maxFileSize : Billing → Nat
  | .unset => maxFileSizeBytes
  | .failed => maxFileSizeFree
  | .tier name => getMaxFileSizeForTier name

def Billing.tierName : Billing → String
  | .tier name => name
  | _ => "free"

def blockedContentTypes : List String :=
  ["application/x-executable", "application/x-sharedlib", "application/x-mach-binary",
    "application/x-dosexec"]

namespace Service

variable (s : Service)

/-! ## Single-shot uploads -/

/-- How the queries of a request for an upload URL end: the role, the vault,
the tier, the bytes in use, and the signing. -/
structure UrlOutcome where
  role : Bool
  vault : Bool
  billing : Billing
  usage : Option Int
  presign : Bool
  deriving DecidableEq, Repr

/-- `v.deleted_at IS NULL AND (v.owner_id = $2 OR EXISTS …)`. -/
def vaultAccess (vaultID : VaultID) (userID : UserID) : Bool :=
  (s.vaults vaultID).any fun row =>
    !row.deleted && (row.ownerID == userID || (s.members vaultID userID).isSome)

/-- The checks of `HandleGenerateUploadURL`, in its order. -/
def checkUpload (userID : UserID) (vaultID : VaultID) (fileSize : Int) (contentType : String)
    (o : UrlOutcome) : Except Refusal Unit :=
  if fileSize ≤ 0 then .error (400, "file size must be positive")
  else if !(o.vault && s.vaultAccess vaultID userID) then
    .error (403, "vault not found or access denied")
  else if fileSize > o.billing.maxFileSize then
    let tier := o.billing.tierName
    let limit := o.billing.maxFileSize
    .error (402, s!"file size exceeds {tier} tier limit of {limit} bytes (requested: {fileSize})")
  else
    match o.billing with
    | .tier tier =>
      match o.usage with
      | none => .error (500, "failed to verify storage quota")
      | some current =>
        let limit := maxStorageMB tier * 1024 * 1024
        if current + fileSize > limit then
          .error (402, s!"storage quota exceeded for {tier} tier: {current} of {limit} bytes used, upload of {fileSize} bytes rejected; upgrade required")
        else checkContent
    | _ => checkContent
where
  checkContent : Except Refusal Unit :=
    if contentType ∈ blockedContentTypes then .error (400, "content type not allowed")
    else if fileSize < 48 then .error (400, "file size too small for encrypted payload")
    else if o.presign then .ok ()
    else .error (500, "failed to generate upload URL")

def generateUploadURL (userID : UserID) (vaultID : VaultID) (blobID : BlobID) (fileSize : Int)
    (contentType : String) (o : UrlOutcome) : Service × Except Refusal Unit :=
  match requireVaultPermission o.role (s.members vaultID userID) .update with
  | .error refusal => (s, .error refusal)
  | .ok () =>
    match s.checkUpload userID vaultID fileSize contentType o with
    | .error refusal => (s, .error refusal)
    | .ok () =>
      ({ s with urls := ⟨vaultID, blobID, s.now + presignedURLExpiry⟩ :: s.urls }, .ok ())

/-- There is a URL for the blob that has not expired. -/
def signed (vaultID : VaultID) (blobID : BlobID) : Bool :=
  s.urls.any fun url => url.vaultID == vaultID && url.blobID == blobID && s.now ≤ url.expires

/-- A PUT with a signed URL; S3 takes whatever is sent, of any size. -/
def putBlob (userID : UserID) (vaultID : VaultID) (blobID : BlobID) (size : Nat) : Service :=
  if s.signed vaultID blobID then
    { s with objects := s.objects.putObject (.blob vaultID blobID) ⟨size, userID⟩ }
  else s

/-- The role, `HeadObject`, the tier, and `DeleteObject`. -/
structure ConfirmOutcome where
  role : Bool
  head : Bool
  billing : Billing
  delete : Execution
  deriving DecidableEq, Repr

def confirmUpload (userID : UserID) (vaultID : VaultID) (blobID : BlobID) (o : ConfirmOutcome) :
    Service × Except Refusal Nat :=
  match requireVaultPermission o.role (s.members vaultID userID) .update with
  | .error refusal => (s, .error refusal)
  | .ok () =>
    match if o.head then s.objects (.blob vaultID blobID) else none with
    | none => (s, .error (500, "failed to confirm upload"))
    | some object =>
      if object.size > o.billing.maxFileSize then
        -- a failure to delete is logged only
        let next := if o.delete.Took then
            { s with objects := s.objects.deleteObject (.blob vaultID blobID) }
          else s
        (next, .error (413, "uploaded file exceeds your tier's per-file size limit; it has been removed"))
      else (s, .ok object.size)

/-- The role, the transaction on the row, and `DeleteObject`. -/
structure DeleteOutcome where
  role : Bool
  row : Execution
  delete : Execution
  deriving DecidableEq, Repr

def deleteBlob (userID : UserID) (vaultID : VaultID) (blobID : BlobID) (o : DeleteOutcome) :
    Service × Except Refusal Unit :=
  match requireVaultPermission o.role (s.members vaultID userID) .delete with
  | .error refusal => (s, .error refusal)
  | .ok () =>
    if o.row ≠ .done then (s, .error (500, "failed to delete blob"))
    else
      let next := if o.delete.Took then
          { s with objects := s.objects.deleteObject (.blob vaultID blobID) }
        else s
      (next, .ok ())

/-! ## Multipart uploads -/

def maxParts : Int := 10000
def defaultPartSize : Int := 64 * 1024 * 1024

/-- The size and the number of the parts. -/
def partPlan (totalSize : Int) : Int × Int :=
  let totalParts := totalSize.tdiv defaultPartSize
    + if totalSize.tmod defaultPartSize ≠ 0 then 1 else 0
  if totalParts > maxParts then
    (totalSize.tdiv maxParts + if totalSize.tmod maxParts ≠ 0 then 1 else 0, maxParts)
  else (defaultPartSize, totalParts)

/-- The role, the tier, `CreateMultipartUpload` with the identifier it gives,
and the INSERT of the tracking row. -/
structure InitiateOutcome where
  role : Bool
  billing : Billing
  uploadID : Option UploadID
  insert : Bool
  deriving DecidableEq, Repr

def initiateUpload (userID : UserID) (vaultID : VaultID) (fileID : BlobID) (totalSize : Int)
    (o : InitiateOutcome) : Service × Except Refusal UploadID :=
  match requireVaultPermission o.role (s.members vaultID userID) .update with
  | .error refusal => (s, .error refusal)
  | .ok () =>
    if totalSize ≤ 0 then (s, .error (400, "total_size must be positive"))
    else if totalSize > o.billing.maxFileSize then
      (s, .error (402, "file size exceeds your subscription tier limit; upgrade required"))
    else
      match o.uploadID with
      | none => (s, .error (500, "failed to initiate upload"))
      | some uploadID =>
        if o.insert ∧ (s.uploads uploadID).isNone then
          let plan := partPlan totalSize
          let upload : MultipartUpload :=
            ⟨userID, vaultID, fileID, totalSize, plan.1, plan.2, []⟩
          ({ s with uploads := Function.update s.uploads uploadID (some upload) }, .ok uploadID)
        else (s, .error (500, "failed to initiate upload"))

/-- `loadUpload`: an upload of the caller's, in the vault of the request. -/
def loadUpload (userID : UserID) (vaultID : VaultID) (uploadID : UploadID) (found : Bool) :
    Option MultipartUpload :=
  if found then
    (s.uploads uploadID).filter fun upload => upload.userID = userID ∧ upload.vaultID = vaultID
  else none

def upsertPart (part : CompletedPart) (parts : List CompletedPart) : List CompletedPart :=
  if parts.any (·.partNumber = part.partNumber) then
    parts.map fun p => if p.partNumber = part.partNumber then part else p
  else parts ++ [part]

/-- The role, the lookup of the upload, and the upsert of the part. -/
structure PartOutcome where
  role : Bool
  found : Bool
  upsert : Bool
  deriving DecidableEq, Repr

def completePart (userID : UserID) (vaultID : VaultID) (uploadID : UploadID) (part : CompletedPart)
    (o : PartOutcome) : Service × Except Refusal Unit :=
  match requireVaultPermission o.role (s.members vaultID userID) .update with
  | .error refusal => (s, .error refusal)
  | .ok () =>
    if part.partNumber < 1 ∨ part.partNumber > maxParts then
      (s, .error (400, "invalid part number"))
    else if part.etag = "" then (s, .error (400, "etag is required"))
    else if part.size ≤ 0 then (s, .error (400, "size must be positive"))
    else
      match s.loadUpload userID vaultID uploadID o.found with
      | none => (s, .error (404, "upload not found or part invalid"))
      | some upload =>
        -- the cache has the part before the table, and keeps it when the upsert fails
        let upload := { upload with completeParts := upsertPart part upload.completeParts }
        let next := { s with uploads := Function.update s.uploads uploadID (some upload) }
        if o.upsert then (next, .ok ())
        else (next, .error (404, "upload not found or part invalid"))

/-- The role, the lookup, `CompleteMultipartUpload` with the size of what it
assembles, `HeadObject`, the tier, the bytes in use (where a checker is set),
`DeleteObject`, and the deletion of the tracking row. -/
structure FinalizeOutcome where
  role : Bool
  found : Bool
  complete : Execution
  assembled : Nat
  head : Bool
  billing : Billing
  usage : Option (Option Int)
  delete : Execution
  untrack : Bool
  deriving DecidableEq, Repr

def untracked (uploadID : UploadID) (o : FinalizeOutcome) : Service :=
  if o.untrack then { s with uploads := Function.update s.uploads uploadID none } else s

/-- `deleteFinalObject` -/
def deleteFinalObject (key : ObjectKey) (uploadID : UploadID) (o : FinalizeOutcome) : Service :=
  let next := if o.delete.Took then { s with objects := s.objects.deleteObject key } else s
  next.untracked uploadID o

/-- The bytes in use exceed the tier's, or could not be determined. -/
def overQuota (o : FinalizeOutcome) : Bool :=
  match o.usage with
  | none => false
  | some none => true
  | some (some current) => current > maxStorageMB o.billing.tierName * 1024 * 1024

def finalizeUpload (userID : UserID) (vaultID : VaultID) (uploadID : UploadID)
    (o : FinalizeOutcome) : Service × Except Refusal Unit :=
  match requireVaultPermission o.role (s.members vaultID userID) .update with
  | .error refusal => (s, .error refusal)
  | .ok () =>
    match s.loadUpload userID vaultID uploadID o.found with
    | none => (s, .error (500, "failed to finalize upload"))
    | some upload =>
      let assembled := if o.complete.Took then
          { s with objects := s.objects.putObject upload.key ⟨o.assembled, userID⟩ }
        else s
      if o.complete ≠ .done then (assembled, .error (500, "failed to finalize upload"))
      else if !o.head then
        (assembled.deleteFinalObject upload.key uploadID o,
          .error (500, "failed to finalize upload"))
      else if o.assembled > o.billing.maxFileSize ∨ overQuota o then
        (assembled.deleteFinalObject upload.key uploadID o,
          .error (402, "uploaded size exceeds your subscription tier limit; upgrade required"))
      else (assembled.untracked uploadID o, .ok ())

/-- The role, the lookup, `AbortMultipartUpload`, and the deletion of the
tracking row. -/
structure AbortOutcome where
  role : Bool
  found : Bool
  abort : Bool
  untrack : Bool
  deriving DecidableEq, Repr

def abortUpload (userID : UserID) (vaultID : VaultID) (uploadID : UploadID) (o : AbortOutcome) :
    Service × Except Refusal Unit :=
  match requireVaultPermission o.role (s.members vaultID userID) .update with
  | .error refusal => (s, .error refusal)
  | .ok () =>
    match s.loadUpload userID vaultID uploadID o.found with
    | none => (s, .error (404, "upload not found"))
    | some _ =>
      if o.abort then
        (if o.untrack then { s with uploads := Function.update s.uploads uploadID none } else s,
          .ok ())
      else (s, .error (404, "upload not found"))

end Service

/-! ## Requests -/

/-- A storage request of a user, or some time that passes. -/
inductive Request where
  | wait (milliseconds : Nat)
  | uploadURL (vaultID : VaultID) (blobID : BlobID) (fileSize : Int) (contentType : String)
      (o : Service.UrlOutcome)
  | put (vaultID : VaultID) (blobID : BlobID) (size : Nat)
  | confirm (vaultID : VaultID) (blobID : BlobID) (o : Service.ConfirmOutcome)
  | delete (vaultID : VaultID) (blobID : BlobID) (o : Service.DeleteOutcome)
  | initiate (vaultID : VaultID) (fileID : BlobID) (totalSize : Int) (o : Service.InitiateOutcome)
  | part (vaultID : VaultID) (uploadID : UploadID) (part : CompletedPart) (o : Service.PartOutcome)
  | finalize (vaultID : VaultID) (uploadID : UploadID) (o : Service.FinalizeOutcome)
  | abort (vaultID : VaultID) (uploadID : UploadID) (o : Service.AbortOutcome)
  deriving DecidableEq, Repr

/-- The request of the user `userID`. -/
def Service.handle (userID : UserID) (s : Service) : Request → Service
  | .wait d => { s with now := s.now + d }
  | .uploadURL v b fileSize contentType o =>
    (s.generateUploadURL userID v b fileSize contentType o).1
  | .put v b size => s.putBlob userID v b size
  | .confirm v b o => (s.confirmUpload userID v b o).1
  | .delete v b o => (s.deleteBlob userID v b o).1
  | .initiate v f totalSize o => (s.initiateUpload userID v f totalSize o).1
  | .part v uploadID part o => (s.completePart userID v uploadID part o).1
  | .finalize v uploadID o => (s.finalizeUpload userID v uploadID o).1
  | .abort v uploadID o => (s.abortUpload userID v uploadID o).1

end UsbVault.Storage
