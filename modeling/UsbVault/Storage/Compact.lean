import UsbVault.Lib.Table
import UsbVault.Storage.Objects

/-!
# Compaction

`CompactVault` (`internal/vault/compact.go`): every active blob of a vault is
copied by way of a temporary object and put under a new wrapped key, and the
soft-deleted blobs go. The chunks are written as they are read; only the
wrapped key in the row is a new one.

Times, the audit log and the duration of the result are left out.
-/

namespace UsbVault.Storage

open Tables

abbrev Bytes := List UInt8

/-- `deleted` is `deleted_at IS NOT NULL`. -/
structure BlobRow where
  vaultID : VaultID
  sizeBytes : Int64
  deleted : Bool
  encryptionKeyEncrypted : Bytes
  deriving DecidableEq, Repr

/-- The table `blobs`, its keys in the order of `created_at`, and the bucket. -/
structure Blobs where
  rows : Table BlobID BlobRow
  objects : Bucket Bytes

/-- How the effects of `StreamReEncrypt` end: the SELECT of the wrapped key,
`GetObject`, the number of bytes read until the end or an error of the body,
`PutObject`, `CopyObject`, `DeleteObject`, the UPDATE. -/
structure ReEncryptOutcome where
  selectKey : Bool
  download : Bool
  read : Nat
  upload : Execution
  swap : Execution
  cleanup : Execution
  update : Execution
  deriving DecidableEq, Repr

namespace ReEncryptOutcome

variable (o : ReEncryptOutcome)

/-- The object is replaced by what was read of it. -/
def Swaps : Prop := o.upload = .done ∧ o.swap.Took

instance : Decidable o.Swaps := inferInstanceAs (Decidable (_ ∧ _))

/-- The row has the new wrapped key. -/
def Rekeys : Prop := o.upload = .done ∧ o.swap = .done ∧ o.update.Took

instance : Decidable o.Rekeys := inferInstanceAs (Decidable (_ ∧ _))

/-- No effect that counts fails. -/
def Completes : Prop :=
  o.selectKey ∧ o.download ∧ o.upload = .done ∧ o.swap = .done ∧ o.update = .done

instance : Decidable o.Completes := inferInstanceAs (Decidable (_ ∧ _))

end ReEncryptOutcome

/-- The statements around it. A process that stops leaves the rows and the
objects as one does whose next effect fails. -/
structure CompactOutcome where
  query : Bool
  blob : BlobID → ReEncryptOutcome
  deleteRows : Bool
  commit : Execution
  deleteObject : BlobID → Execution

/-- The error of a statement is returned as it is, or with a text. -/
inductive CompactErr where
  | statement
  | text (message : String)
  deriving DecidableEq, Repr

namespace Blobs

variable (s : Blobs)

/-! ## One blob -/

def putTemp (vaultID : VaultID) (blobID : BlobID) (content : Bytes) (e : Execution) : Blobs :=
  if e.Took then { s with objects := s.objects.putObject (.temp vaultID blobID) content } else s

def swapTemp (vaultID : VaultID) (blobID : BlobID) (e : Execution) : Blobs :=
  if e.Took then
    { s with objects := s.objects.copyObject (.temp vaultID blobID) (.blob vaultID blobID) }
  else s

def deleteTemp (vaultID : VaultID) (blobID : BlobID) (e : Execution) : Blobs :=
  if e.Took then { s with objects := s.objects.deleteObject (.temp vaultID blobID) } else s

/-- `UPDATE blobs SET encryption_key_encrypted = $1`. -/
def updateKey (blobID : BlobID) (row : BlobRow) (newEncKeyEncrypted : Bytes) (e : Execution) :
    Blobs :=
  let row' := { row with encryptionKeyEncrypted := newEncKeyEncrypted }
  if e.Took then { s with rows := s.rows.put blobID (some row') } else s

/-- `WHERE id = $1 AND vault_id = $2`. -/
def row (vaultID : VaultID) (blobID : BlobID) : Option BlobRow :=
  (s.rows.rows blobID).filter (·.vaultID = vaultID)

def streamReEncrypt (vaultID : VaultID) (blobID : BlobID) (newEncKeyEncrypted : Bytes)
    (o : ReEncryptOutcome) : Blobs × Option CompactErr :=
  if o.selectKey = false then (s, some .statement)
  else
    match s.row vaultID blobID with
    | none => (s, some (.text "blob not found"))
    | some row =>
      match if o.download then s.objects (.blob vaultID blobID) else none with
      | none => (s, some (.text "failed to download blob from S3"))
      | some content =>
        -- a read error closes the pipe, and what was read is the object uploaded
        let uploaded := s.putTemp vaultID blobID (content.take o.read) o.upload
        if o.upload ≠ .done then
          (uploaded, some (.text "failed to upload re-encrypted blob to S3"))
        else
          let swapped := uploaded.swapTemp vaultID blobID o.swap
          if o.swap ≠ .done then (swapped, some (.text "failed to swap re-encrypted blob"))
          else
            -- a failure of the clean-up does not count
            let cleaned := swapped.deleteTemp vaultID blobID o.cleanup
            let updated := cleaned.updateKey blobID row newEncKeyEncrypted o.update
            if o.update ≠ .done then
              (updated, some (.text "failed to update blob encryption key in database"))
            else (updated, none)

/-! ## The vault -/

/-- The loop over the blobs that the query has found; the number of blobs
compacted with it. -/
def compactBlobs (vaultID : VaultID) (newEncKeyEncrypted : Bytes) (o : CompactOutcome) :
    Blobs → Nat → List (BlobID × BlobRow) → Blobs × Nat × Option CompactErr
  | s, n, [] => (s, n, none)
  | s, n, (blobID, row) :: blobs =>
    if row.deleted then compactBlobs vaultID newEncKeyEncrypted o s n blobs
    else
      match s.streamReEncrypt vaultID blobID newEncKeyEncrypted (o.blob blobID) with
      | (next, some err) => (next, n, some err)
      | (next, none) => compactBlobs vaultID newEncKeyEncrypted o next (n + 1) blobs

/-- The objects of the soft-deleted blobs; a failure does not count. -/
def deleteObjects (vaultID : VaultID) (o : CompactOutcome) :
    Bucket Bytes → List (BlobID × BlobRow) → Bucket Bytes
  | objects, [] => objects
  | objects, (blobID, row) :: blobs =>
    if row.deleted ∧ (o.deleteObject blobID).Took then
      deleteObjects vaultID o (objects.deleteObject (.blob vaultID blobID)) blobs
    else deleteObjects vaultID o objects blobs

/-- The blobs of the vault, soft-deleted or not. -/
def list (vaultID : VaultID) : List (BlobID × BlobRow) :=
  (s.rows.scan fun _ row => row.vaultID = vaultID).filterMap fun blobID =>
    (s.rows.rows blobID).map (blobID, ·)

/-- The rows go first, the objects after the commit. -/
def removeDeleted (vaultID : VaultID) (o : CompactOutcome) (blobs : List (BlobID × BlobRow)) :
    Blobs × Option CompactErr :=
  if o.deleteRows then
    let deleted := if o.commit.Took then
        { s with rows := s.rows.deleteWhere fun _ row => row.vaultID = vaultID ∧ row.deleted }
      else s
    if o.commit ≠ .done then (deleted, some .statement)
    else ({ deleted with objects := deleteObjects vaultID o deleted.objects blobs }, none)
  else (s, some .statement)

/-- The number of blobs compacted, the bytes saved, and the error. -/
def compactVault (vaultID : VaultID) (newEncKeyEncrypted : Bytes) (o : CompactOutcome) :
    Blobs × Nat × Int64 × Option CompactErr :=
  if o.query then
    let blobs := s.list vaultID
    let bytesSaved := ((blobs.filter (·.2.deleted)).map (·.2.sizeBytes)).sum
    match compactBlobs vaultID newEncKeyEncrypted o s 0 blobs with
    | (next, n, some err) => (next, n, bytesSaved, some err)
    | (next, n, none) =>
      let removed := next.removeDeleted vaultID o blobs
      (removed.1, n, bytesSaved, removed.2)
  else (s, 0, 0, some .statement)

end Blobs

end UsbVault.Storage
