import UsbVault.Storage.RotationJobs
import UsbVault.Storage.Uploads

/-!
# Vault routes

Every route under `/vaults/{vaultID}` (`cmd/api/router.go`) behind the
permission that the router asks for, over the rows of a vault in all tables
and the bucket, and the deletion of an account (`internal/auth/account.go`).
`deleted_at` is a column that the permission does not look at: each handler
has to.

A time that a statement sets is counted, since each is later than the one
before. The members and the objects of a vault are functions, and so are
lists of them. Request bodies are decoded; malformed ones and malformed
identifiers are left out, and so is the audit log.
-/

namespace UsbVault.Storage.Routes

open Members Tables
open Rotation (JobID JobRow)

/-- The columns of `vaults` besides the owner, `deleted_at` and
`rotation_status`. -/
structure VaultColumns where
  encryptedMetadata : List UInt8
  wrappedMek : Option (List UInt8)
  kekSalt : Option (List UInt8)
  keyVersion : Option Int
  updatedAt : Nat
  deriving DecidableEq, Repr

/-- A row of `blobs`; no `deleted_at` is 0. -/
structure BlobRow where
  id : BlobID
  vaultID : VaultID
  deletedAt : Nat
  deriving DecidableEq, Repr

/-- The tables `vaults` and `key_rotation_jobs` (in `rotation`),
`vault_members`, `blobs` and `multipart_uploads`, the bucket, and the URLs
signed so far. -/
structure Server where
  now : Nat
  rotation : Rotation.Store
  columns : VaultID → VaultColumns
  members : VaultID → UserID → Option Role
  grantedAt : VaultID → UserID → Nat
  blobs : List BlobRow
  objects : Bucket StoredObject
  urls : List UploadUrl
  uploads : UploadID → Option MultipartUpload

/-- The rows that the statement matches are marked as deleted. -/
def softDelete (store : Rotation.Store) (p : VaultID → Rotation.VaultRow → Bool) :
    Rotation.Store where
  vaults := fun v =>
    (store.vaults v).map fun row => if p v row then { row with deleted := true } else row
  jobs := store.jobs
  key := store.key
  vault := by
    intro job hjob
    rw [Option.isSome_map]
    exact store.vault job hjob

def insertVault (store : Rotation.Store) (vaultID : VaultID) (row : Rotation.VaultRow) :
    Rotation.Store where
  vaults := Function.update store.vaults vaultID (some row)
  jobs := store.jobs
  key := store.key
  vault := by
    intro job hjob
    by_cases h : job.vaultID = vaultID
    · rw [h, Function.update_self]
      rfl
    · rw [Function.update_of_ne h]
      exact store.vault job hjob

namespace Server

variable (s : Server) (userID : UserID) (vaultID : VaultID)

/-- What the storage requests work on. -/
def service : Service where
  now := s.now
  vaults := fun v => (s.rotation.vaults v).map fun row => ⟨row.ownerID, row.deleted⟩
  members := s.members
  objects := s.objects
  urls := s.urls
  uploads := s.uploads

@[simp] theorem service_members : s.service.members = s.members := rfl

@[simp] theorem service_objects : s.service.objects = s.objects := rfl

@[simp] theorem service_uploads : s.service.uploads = s.uploads := rfl

/-- And what they change of it. -/
def withService (next : Service) : Server :=
  { s with now := next.now, objects := next.objects, urls := next.urls, uploads := next.uploads }

/-- An UPDATE of the vault's row; a trigger sets `updated_at`. -/
def updateColumns (f : VaultColumns → VaultColumns) : Server :=
  let columns := s.columns vaultID
  { s with
    columns := Function.update s.columns vaultID
      { f columns with updatedAt := columns.updatedAt + 1 } }

def owns : Bool := (s.rotation.vaults vaultID).any (·.ownerID == userID)

/-- `owner_id = $2 AND deleted_at IS NULL`. -/
def ownsLive : Bool :=
  (s.rotation.vaults vaultID).any fun row => row.ownerID == userID && !row.deleted

/-! ## The vault -/

def getVault (row : Bool) : Except Refusal VaultColumns :=
  if row && s.service.vaultAccess vaultID userID then .ok (s.columns vaultID)
  else .error (404, "vault not found")

def maxMetadataSize : Nat := 64 * 1024

/-- The new metadata, unless its base64 is invalid. -/
def updateVault (metadata : Option (List UInt8)) (update : Execution) :
    Server × Except Refusal Unit :=
  match metadata with
  | none => (s, .error (400, "invalid base64 encrypted metadata"))
  | some metadata =>
    if metadata.length > maxMetadataSize then
      (s, .error (400, "encrypted metadata too large (max 64KB)"))
    else if update.Took ∧ s.owns userID vaultID then
      let next := s.updateColumns vaultID ({ · with encryptedMetadata := metadata })
      (next, if update = .done then .ok () else .error (500, "failed to update vault"))
    else (s, .error (500, "failed to update vault"))

/-- `UPDATE vaults SET deleted_at = NOW() WHERE …`, with the trigger's
`updated_at`. -/
def deleteVaults (p : VaultID → Rotation.VaultRow → Bool) : Server :=
  { s with
    rotation := softDelete s.rotation p
    columns := fun v =>
      let columns := s.columns v
      if (s.rotation.vaults v).any (p v) then
        { columns with updatedAt := columns.updatedAt + 1 }
      else columns }

def deleteVault (update : Execution) : Server × Except Refusal Unit :=
  if update.Took ∧ s.ownsLive userID vaultID then
    let next := s.deleteVaults fun v row => v = vaultID && row.ownerID == userID && !row.deleted
    (next, if update = .done then .ok () else .error (500, "failed to delete vault"))
  else (s, .error (500, "failed to delete vault"))

/-! ## The key hierarchy -/

/-- The bytes, unless their encoding is invalid. -/
structure StoreKeyHierarchyRequest where
  wrappedMek : Option (List UInt8)
  kekSalt : Option (List UInt8)
  keyVersion : Int
  deriving DecidableEq, Repr

/-- The queries for the owner and the version, and the UPDATE. -/
structure StoreOutcome where
  owner : Bool
  version : Bool
  update : Execution
  deriving DecidableEq, Repr

/-- The request's fields, checked in the order of the handler. -/
def StoreKeyHierarchyRequest.check (req : StoreKeyHierarchyRequest) :
    Except Refusal (List UInt8 × List UInt8) :=
  match req.wrappedMek with
  | none => .error (400, "invalid wrappedMekB64: must be valid base64")
  | some wrappedMek =>
    if wrappedMek.length < 80 ∨ wrappedMek.length > 200 then
      .error (400, "invalid wrappedMek size")
    else
      match req.kekSalt.filter (·.length = 32) with
      | none => .error (400, "invalid kekSaltHex: must be 64-char hex (32 bytes)")
      | some kekSalt =>
        if req.keyVersion < 1 then .error (400, "keyVersion must be >= 1")
        else .ok (wrappedMek, kekSalt)

/-- The owner of the vault, `WHERE id = $1 AND deleted_at IS NULL`. -/
def liveOwner : Option UserID :=
  ((s.rotation.vaults vaultID).filter fun row => !row.deleted).map (·.ownerID)

def storeKeyHierarchy (req : StoreKeyHierarchyRequest) (o : StoreOutcome) :
    Server × Except Refusal Unit :=
  match req.check with
  | .error refusal => (s, .error refusal)
  | .ok (wrappedMek, kekSalt) =>
    match if o.owner then s.liveOwner vaultID else none with
    | none => (s, .error (404, "vault not found"))
    | some ownerID =>
      if ownerID ≠ userID then (s, .error (403, "forbidden"))
      else if o.version ∧ req.keyVersion ≤ (s.columns vaultID).keyVersion.getD 0 then
        (s, .error (409, "keyVersion must be greater than current version (rollback protection)"))
      else if o.update.Took ∧ req.keyVersion ≤ 2147483647 then
        let next := s.updateColumns vaultID ({ · with
          wrappedMek := some wrappedMek
          kekSalt := some kekSalt
          keyVersion := some req.keyVersion })
        (next,
          if o.update = .done then .ok () else .error (500, "failed to store key hierarchy"))
      else (s, .error (500, "failed to store key hierarchy"))

/-- `wrappedMek`, `kekSalt` and `keyVersion`, unless there is no hierarchy. -/
def getKeyHierarchy (row : Bool) : Except Refusal (Option (List UInt8 × List UInt8 × Int)) :=
  match if row then s.liveOwner vaultID else none with
  | none => .error (404, "vault not found")
  | some ownerID =>
    if ownerID ≠ userID then .error (403, "forbidden")
    else
      let columns := s.columns vaultID
      match columns.wrappedMek, columns.kekSalt with
      | some wrappedMek, some kekSalt =>
        .ok (some (wrappedMek, kekSalt, columns.keyVersion.getD 0))
      | _, _ => .ok none

/-! ## Blobs -/

/-- The query for the vault, `HeadObject`, and the signing. -/
structure DownloadOutcome where
  vault : Bool
  head : Bool
  presign : Bool
  deriving DecidableEq, Repr

def generateDownloadURL (blobID : BlobID) (o : DownloadOutcome) : Except Refusal ObjectKey :=
  if !(o.vault && s.service.vaultAccess vaultID userID) then
    .error (403, "vault not found or access denied")
  else if !o.head ∨ s.objects (.blob vaultID blobID) = none then .error (404, "blob not found")
  else if o.presign then .ok (.blob vaultID blobID)
  else .error (500, "failed to generate download URL")

/-- The objects under the vault's prefix, with their sizes. -/
def listBlobs (listed : Bool) : Except Refusal (ObjectKey → Option Nat) :=
  if listed then
    .ok fun key => if key.vaultID = vaultID then (s.objects key).map (·.size) else none
  else .error (500, "failed to list blobs")

/-- `UPDATE blobs SET deleted_at = NOW() WHERE id = $1 AND vault_id = $2`. -/
def softDeleteBlob (blobID : BlobID) : List BlobRow :=
  s.blobs.map fun row =>
    if row.id = blobID ∧ row.vaultID = vaultID then { row with deletedAt := row.deletedAt + 1 }
    else row

/-- The object as in `Service.deleteBlob`, with the row. -/
def deleteBlob (blobID : BlobID) (o : Service.DeleteOutcome) : Server × Except Refusal Unit :=
  let result := s.service.deleteBlob userID vaultID blobID o
  let next := s.withService result.1
  ({ next with blobs := if o.row.Took then s.softDeleteBlob vaultID blobID else s.blobs }, result.2)

/-- The signed URL of a part is for its key, upload and number. -/
def generatePresignedPartURL (uploadID : UploadID) (partNumber : Int) (found presign : Bool) :
    Except Refusal (ObjectKey × UploadID × Int) :=
  if partNumber < 1 ∨ partNumber > Service.maxParts then .error (400, "invalid part number")
  else
    match s.service.loadUpload userID vaultID uploadID found with
    | none => .error (404, "upload not found")
    | some upload =>
      if presign then .ok (upload.key, uploadID, partNumber) else .error (404, "upload not found")

def getUploadProgress (uploadID : UploadID) (found : Bool) : Except Refusal MultipartUpload :=
  match s.service.loadUpload userID vaultID uploadID found with
  | none => .error (404, "upload not found")
  | some upload => .ok upload

/-! ## Members -/

def listMembers (listed : Bool) : Except Refusal (UserID → Option Role) :=
  if listed then .ok (s.members vaultID) else .error (500, "failed to list members")

def putMember (member : UserID) (role : Role) : Server :=
  { s with
    members := Function.update s.members vaultID
      (Function.update (s.members vaultID) member (some role))
    grantedAt := Function.update s.grantedAt vaultID
      (Function.update (s.grantedAt vaultID) member (s.grantedAt vaultID member + 1)) }

def removeMember (member : UserID) : Server :=
  { s with
    members := Function.update s.members vaultID
      (Function.update (s.members vaultID) member none) }

/-- The query for an owner, with the row it delivers, the upsert, and
`ListMembers`. -/
structure AssignOutcome where
  existing : Bool
  existingOwner : UserID
  upsert : Execution
  list : Bool
  deriving DecidableEq, Repr

/-- The row of a `LIMIT 1`: the caller is one of the owners, since the router
asks for `manage_members`. -/
def existingOwner (o : AssignOutcome) : UserID :=
  if s.members vaultID o.existingOwner = some .owner then o.existingOwner else userID

/-- `AssignRole` refuses to make a second owner. -/
def ownerTaken (member : UserID) (role : Role) (o : AssignOutcome) : Bool :=
  role == .owner && (!o.existing || s.existingOwner userID vaultID o != member)

def addMember (member : UserID) (role : String) (o : AssignOutcome) :
    Server × Except Refusal Unit :=
  match Role.ofString? role with
  | none => (s, .error (400, "invalid role"))
  | some role =>
    if s.ownerTaken userID vaultID member role o ∨ ¬o.upsert.Took then
      (s, .error (500, "failed to add member"))
    else
      (s.putMember vaultID member role,
        if o.upsert ≠ .done then .error (500, "failed to add member")
        else if o.list then .ok ()
        else .error (500, "failed to retrieve member"))

/-- The query for the role, and the DELETE. -/
structure RemoveOutcome where
  role : Bool
  delete : Execution
  deriving DecidableEq, Repr

/-- A member that is not an owner. -/
def removable (member : UserID) : Bool := (s.members vaultID member).any (· != .owner)

def handleRemoveMember (member : UserID) (o : RemoveOutcome) : Server × Except Refusal Unit :=
  if member = "" then (s, .error (400, "member user ID required"))
  else if member = userID then (s, .error (400, "cannot remove yourself from vault"))
  else if ¬o.role ∨ ¬s.removable vaultID member ∨ ¬o.delete.Took then
    (s, .error (500, "failed to remove member"))
  else
    (s.removeMember vaultID member,
      if o.delete = .done then .ok () else .error (500, "failed to remove member"))

/-- The query for the caller's role, and the transaction. -/
structure TransferOutcome where
  role : Bool
  transaction : Execution
  deriving DecidableEq, Repr

def transferOwnership (newOwnerID : UserID) (o : TransferOutcome) : Server × Except Refusal Unit :=
  if newOwnerID = "" then (s, .error (400, "new owner ID required"))
  else if newOwnerID = userID then (s, .error (400, "cannot transfer ownership to yourself"))
  else if ¬o.role ∨ s.members vaultID userID ≠ some .owner ∨ ¬o.transaction.Took then
    (s, .error (500, "failed to transfer ownership"))
  else
    ((s.removeMember vaultID userID).putMember vaultID newOwnerID .owner,
      if o.transaction = .done then .ok () else .error (500, "failed to transfer ownership"))

/-! ## Key rotation -/

/-- The vault is the one that the body names, whatever the path says. -/
def handleInitiateKeyRotation (body : Option VaultID) (o : Rotation.InitiateOutcome) :
    Server × Except Refusal JobID :=
  match body with
  | none => (s, .error (400, "vault_id required"))
  | some vaultID =>
    let result := Rotation.initiateKeyRotation s.rotation userID vaultID o
    ({ s with rotation := result.1 },
      match result.2 with
      | .ok jobID => .ok jobID
      | .error _ => .error (400, "key rotation failed"))

/-- `WHERE id = $1 AND user_id = $2`, in whichever vault. -/
def getRotationStatus (jobID : Option JobID) (row : Bool) : Except Refusal JobRow :=
  match jobID with
  | none => .error (400, "job_id required")
  | some jobID =>
    match if row then (s.rotation.job jobID).filter (·.userID = userID) else none with
    | none => .error (404, "rotation job not found")
    | some job => .ok job

end Server

/-! ## The router -/

/-- A request to `/vaults/{vaultID}/…`. `role` is the outcome of the
middleware's query; the storage requests have it among their outcomes. -/
inductive VaultRequest where
  | getVault (role row : Bool)
  | updateVault (role : Bool) (metadata : Option (List UInt8)) (update : Execution)
  | deleteVault (role : Bool) (update : Execution)
  | storeKeyHierarchy (role : Bool) (req : Server.StoreKeyHierarchyRequest)
      (o : Server.StoreOutcome)
  | getKeyHierarchy (role row : Bool)
  | uploadURL (blobID : BlobID) (fileSize : Int) (contentType : String) (o : Service.UrlOutcome)
  | confirm (blobID : BlobID) (o : Service.ConfirmOutcome)
  | downloadURL (role : Bool) (blobID : BlobID) (o : Server.DownloadOutcome)
  | listBlobs (role listed : Bool)
  | deleteBlob (blobID : BlobID) (o : Service.DeleteOutcome)
  | initiateMultipart (fileID : BlobID) (totalSize : Int) (o : Service.InitiateOutcome)
  | getPartURL (role : Bool) (uploadID : UploadID) (partNumber : Int) (found presign : Bool)
  | completePart (uploadID : UploadID) (part : CompletedPart) (o : Service.PartOutcome)
  | finalizeUpload (uploadID : UploadID) (o : Service.FinalizeOutcome)
  | abortUpload (uploadID : UploadID) (o : Service.AbortOutcome)
  | getProgress (role : Bool) (uploadID : UploadID) (found : Bool)
  | listMembers (role listed : Bool)
  | addMember (role : Bool) (member : UserID) (newRole : String) (o : Server.AssignOutcome)
  | removeMember (role : Bool) (member : UserID) (o : Server.RemoveOutcome)
  | transferOwnership (role : Bool) (newOwnerID : UserID) (o : Server.TransferOutcome)
  | initiateKeyRotation (role : Bool) (body : Option VaultID) (o : Rotation.InitiateOutcome)
  | getRotationStatus (role : Bool) (jobID : Option JobID) (row : Bool)
  deriving DecidableEq, Repr

namespace Server

variable {α : Type} (s : Server) (userID : UserID) (vaultID : VaultID)

/-- `RequireVaultPermission` before a handler. -/
def permitted (role : Bool) (perm : Permission) (handler : Server × Except Refusal α) :
    Server × Except Refusal Unit :=
  match requireVaultPermission role (s.members vaultID userID) perm with
  | .error refusal => (s, .error refusal)
  | .ok () => (handler.1, handler.2.map fun _ => ())

/-- A storage request, which has its permission itself. -/
def stored (result : Service × Except Refusal α) : Server × Except Refusal Unit :=
  (s.withService result.1, result.2.map fun _ => ())

/-- The routes, with their permissions. -/
def handle : VaultRequest → Server × Except Refusal Unit
  | .getVault role row => s.permitted userID vaultID role .read (s, s.getVault userID vaultID row)
  | .updateVault role metadata update =>
    s.permitted userID vaultID role .update (s.updateVault userID vaultID metadata update)
  | .deleteVault role update =>
    s.permitted userID vaultID role .delete (s.deleteVault userID vaultID update)
  | .storeKeyHierarchy role req o =>
    s.permitted userID vaultID role .update (s.storeKeyHierarchy userID vaultID req o)
  | .getKeyHierarchy role row =>
    s.permitted userID vaultID role .read (s, s.getKeyHierarchy userID vaultID row)
  | .uploadURL blobID fileSize contentType o =>
    s.stored (s.service.generateUploadURL userID vaultID blobID fileSize contentType o)
  | .confirm blobID o => s.stored (s.service.confirmUpload userID vaultID blobID o)
  | .downloadURL role blobID o =>
    s.permitted userID vaultID role .read (s, s.generateDownloadURL userID vaultID blobID o)
  | .listBlobs role listed =>
    s.permitted userID vaultID role .read (s, s.listBlobs vaultID listed)
  | .deleteBlob blobID o =>
    s.permitted userID vaultID o.role .delete (s.deleteBlob userID vaultID blobID o)
  | .initiateMultipart fileID totalSize o =>
    s.stored (s.service.initiateUpload userID vaultID fileID totalSize o)
  | .getPartURL role uploadID partNumber found presign =>
    s.permitted userID vaultID role .update
      (s, s.generatePresignedPartURL userID vaultID uploadID partNumber found presign)
  | .completePart uploadID part o =>
    s.stored (s.service.completePart userID vaultID uploadID part o)
  | .finalizeUpload uploadID o => s.stored (s.service.finalizeUpload userID vaultID uploadID o)
  | .abortUpload uploadID o => s.stored (s.service.abortUpload userID vaultID uploadID o)
  | .getProgress role uploadID found =>
    s.permitted userID vaultID role .update (s, s.getUploadProgress userID vaultID uploadID found)
  | .listMembers role listed =>
    s.permitted userID vaultID role .read (s, s.listMembers vaultID listed)
  | .addMember role member newRole o =>
    s.permitted userID vaultID role .manageMembers (s.addMember userID vaultID member newRole o)
  | .removeMember role member o =>
    s.permitted userID vaultID role .manageMembers (s.handleRemoveMember userID vaultID member o)
  | .transferOwnership role newOwnerID o =>
    s.permitted userID vaultID role .manageMembers
      (s.transferOwnership userID vaultID newOwnerID o)
  | .initiateKeyRotation role body o =>
    s.permitted userID vaultID role .manageMembers (s.handleInitiateKeyRotation userID body o)
  | .getRotationStatus role jobID row =>
    s.permitted userID vaultID role .read (s, s.getRotationStatus userID jobID row)

/-- The transaction of `HandleDeleteAccount`, of which the statement on
`users` is left out: the vaults that the user owns are deleted, and the
user's memberships removed. -/
def deleteAccount (transaction : Execution) : Server × Except Refusal Unit :=
  if transaction.Took then
    let next := s.deleteVaults fun _ row => row.ownerID == userID && !row.deleted
    ({ next with
        members := fun v member => if member = userID then none else s.members v member },
      if transaction = .done then .ok () else .error (500, "deletion failed"))
  else (s, .error (500, "deletion failed"))

/-- `POST /vaults`, as far as these tables go: the new row and its owner. -/
def createVault (metadata : List UInt8) (transaction : Execution) : Server :=
  if transaction.Took ∧ s.rotation.vaults vaultID = none then
    let next := s.putMember vaultID userID .owner
    { next with
      rotation := insertVault s.rotation vaultID ⟨userID, false, .active⟩
      columns := Function.update s.columns vaultID ⟨metadata, none, none, some 1, 0⟩ }
  else s

end Server

/-- A vault-scoped request of any user, a creation of a vault, the deletion of
an account, a PUT to a signed URL, or some time that passes. -/
inductive Event where
  | request (userID : UserID) (vaultID : VaultID) (req : VaultRequest)
  | createVault (userID : UserID) (vaultID : VaultID) (metadata : List UInt8)
      (transaction : Execution)
  | deleteAccount (userID : UserID) (transaction : Execution)
  | put (userID : UserID) (vaultID : VaultID) (blobID : BlobID) (size : Nat)
  | wait (milliseconds : Nat)
  deriving DecidableEq, Repr

def Server.step (s : Server) : Event → Server
  | .request userID vaultID req => (s.handle userID vaultID req).1
  | .createVault userID vaultID metadata transaction =>
    s.createVault userID vaultID metadata transaction
  | .deleteAccount userID transaction => (s.deleteAccount userID transaction).1
  | .put userID vaultID blobID size =>
    s.withService (s.service.putBlob userID vaultID blobID size)
  | .wait milliseconds => { s with now := s.now + milliseconds }

end UsbVault.Storage.Routes
