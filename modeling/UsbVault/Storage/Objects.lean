import Mathlib.Logic.Function.Basic

/-!
# Objects

The bucket: objects by their keys, which are the paths that the server
builds of the identifiers. UUIDs are numbered, and their texts have no
slash and no dot, so keys of different kinds differ.
-/

namespace UsbVault.Storage

abbrev VaultID := Nat
abbrev BlobID := Nat

/-- `vaults/{vaultID}/{blobID}`, `vaults/{vaultID}/{blobID}.tmp` and
`vaults/{vaultID}/files/{fileID}`. -/
inductive ObjectKey where
  | blob (vaultID : VaultID) (blobID : BlobID)
  | temp (vaultID : VaultID) (blobID : BlobID)
  | file (vaultID : VaultID) (fileID : BlobID)
  deriving DecidableEq, Repr

def ObjectKey.vaultID : ObjectKey → VaultID
  | .blob v _ => v
  | .temp v _ => v
  | .file v _ => v

/-- The objects, each with its content. -/
abbrev Bucket (α : Type) := ObjectKey → Option α

namespace Bucket

variable {α : Type} (b : Bucket α) {key key' : ObjectKey} {content : α}

def putObject (key : ObjectKey) (content : α) : Bucket α := Function.update b key (some content)

/-- No object under the key is no error. -/
def deleteObject (key : ObjectKey) : Bucket α := Function.update b key none

def copyObject (source key : ObjectKey) : Bucket α :=
  match b source with
  | some content => b.putObject key content
  | none => b

@[simp] theorem putObject_self : b.putObject key content key = some content := by
  simp [putObject]

@[simp] theorem putObject_ne (h : key' ≠ key) : b.putObject key content key' = b key' := by
  simp [putObject, h]

@[simp] theorem deleteObject_self : b.deleteObject key key = none := by
  simp [deleteObject]

@[simp] theorem deleteObject_ne (h : key' ≠ key) : b.deleteObject key key' = b key' := by
  simp [deleteObject, h]

theorem copyObject_of_some (h : b key' = some content) :
    b.copyObject key' key = b.putObject key content := by
  simp [copyObject, h]

@[simp] theorem copyObject_ne {source : ObjectKey} (h : key' ≠ key) :
    b.copyObject source key key' = b key' := by
  unfold copyObject
  cases b source with
  | some content => exact putObject_ne b h
  | none => rfl

end Bucket

end UsbVault.Storage
