import Mathlib.Data.List.Sort
import UsbVault.Lib.Calls
import UsbVault.Lib.Table
import UsbVault.Storage.Objects

/-!
# The life of a blob

`BlobLifecycleService` (`internal/storage/lifecycle.go`): soft deletion,
restoration and permanent deletion of a blob, and `CleanupExpiredBlobs`, which
purges the blobs whose retention has elapsed, batch by batch. The calls run
side by side over the table `blobs` and the bucket, one statement or S3 request
at a time, at the isolation level READ COMMITTED: a statement that meets a row
that another transaction has written waits for it. A call may stop anywhere.
-/

namespace UsbVault.Storage.Lifecycle

open Tables

abbrev UserID := Nat

/-- Times are in nanoseconds. -/
structure BlobRow where
  vaultID : VaultID
  deletedAt : Option ℤ
  deletedBy : Option UserID
  deriving DecidableEq, Repr

/-- `deleted_at IS NOT NULL AND deleted_at < $1` -/
def BlobRow.Expired (row : BlobRow) (cutoffTime : ℤ) : Prop := ∃ t ∈ row.deletedAt, t < cutoffTime

instance (row : BlobRow) (cutoffTime : ℤ) : Decidable (row.Expired cutoffTime) :=
  inferInstanceAs (Decidable (∃ t ∈ row.deletedAt, _))

structure Store where
  rows : Table BlobID BlobRow
  objects : Bucket (List UInt8)

inductive LifecycleErr where
  /-- A text of the source. -/
  | text (s : String)
  /-- An error of the database or of S3. -/
  | cause
  deriving DecidableEq, Repr

/-- A blob of a batch. -/
abbrev Listed := BlobID × VaultID

/-- The run of a purge: its cutoff, and the rows it has deleted. -/
structure Purge where
  cutoffTime : ℤ
  totalDeleted : ℕ
  deriving DecidableEq, Repr

/-- The next statement or request of a call. -/
inductive Pc where
  | softDelete (vaultID : VaultID) (blobID : BlobID) (userID : UserID)
  | restore (vaultID : VaultID) (blobID : BlobID)
  -- `PermanentlyDeleteBlob`
  | deleteRow (vaultID : VaultID) (blobID : BlobID)
  | deleteObject (vaultID : VaultID) (blobID : BlobID)
  | commitDelete (vaultID : VaultID) (blobID : BlobID)
  -- `CleanupExpiredBlobs`
  | select (run : Purge)
  | deleteBatch (run : Purge) (blobs : List Listed)
  | commitBatch (run : Purge) (blobs : List Listed) (dbDeleted : ℕ)
  | deleteObjects (run : Purge) (blobs : List Listed) (dbDeleted : ℕ)
  | fallback (run : Purge) (blobs : List Listed) (dbDeleted : ℕ)
  | done (err : Option LifecycleErr) (totalDeleted : ℕ)
  deriving DecidableEq, Repr

/-- How a statement or request ends. For `DeleteObjects`, the objects that it
has removed; `now` is the clock of the database. -/
inductive Outcome where
  | executed (e : Execution) (removed : List BlobID) (now : ℤ)
  | cancelled
  | stopped
  deriving DecidableEq, Repr

def batchSize : ℕ := 100

namespace Store

variable (s : Store)

/-- `WHERE id = $1 AND vault_id = $2`, and a condition on `deleted_at`. -/
def find (vaultID : VaultID) (blobID : BlobID) (p : BlobRow → Bool) : Option BlobRow :=
  (s.rows.rows blobID).filter fun row => row.vaultID = vaultID ∧ p row

def put (blobID : BlobID) (row : BlobRow) : Store :=
  { s with rows := s.rows.put blobID (some row) }

/-- The expired rows, the oldest deletion first. -/
def candidates (cutoffTime : ℤ) : List Listed :=
  let expired := (s.rows.scan fun _ row => row.Expired cutoffTime).filterMap fun id =>
    (s.rows.rows id).map fun row => (id, row)
  ((expired.insertionSort fun a b => a.2.deletedAt.getD 0 ≤ b.2.deletedAt.getD 0).take batchSize).map
    fun entry => (entry.1, entry.2.vaultID)

/-- `DELETE FROM blobs WHERE id = ANY($1)`, in transaction `k`. -/
def deleteRows (k : Nat) (ids : List BlobID) : Store :=
  { s with rows := ids.foldl (fun rows id => rows.write k id none) s.rows }

def commit (k : Nat) : Store := { s with rows := s.rows.commit k }

def rollback (k : Nat) : Store := { s with rows := s.rows.rollback k }

def deleteObject (blob : Listed) : Store :=
  { s with objects := s.objects.deleteObject (.blob blob.2 blob.1) }

end Store

/-- After a batch: fewer rows than the batch's size are the last. -/
def nextBatch (run : Purge) (dbDeleted : ℕ) : Pc :=
  let run := { run with totalDeleted := run.totalDeleted + dbDeleted }
  if dbDeleted < batchSize then .done none run.totalDeleted else .select run

def finish (err : Option LifecycleErr) : Pc := .done err 0

/-- An `UPDATE` of one row, by itself. -/
def updateRow (k : Nat) (s : Store) (vaultID : VaultID) (blobID : BlobID) (p : BlobRow → Bool)
    (set : BlobRow → BlobRow) (notFound : String) (e : Execution) (pc : Pc) : Store × Pc :=
  if s.rows.Held k blobID then (s, pc)
  else
    match s.find vaultID blobID p with
    | some row =>
      if e.Took then (s.put blobID (set row), finish (if e = .done then none else some .cause))
      else (s, finish (some .cause))
    | none => (s, finish (some (if e = .done then .text notFound else .cause)))

def exec (k : Nat) (s : Store) (pc : Pc) : Outcome → Store × Pc
  | .stopped =>
    match pc with
    | .done _ _ => (s, pc)
    | _ => (s.rollback k, finish (some .cause))
  | .cancelled =>
    -- the context is looked at before each batch
    match pc with
    | .select run => (s, .done (some .cause) run.totalDeleted)
    | _ => (s, pc)
  | .executed e removed now =>
    match pc with
    | .softDelete vaultID blobID userID =>
      updateRow k s vaultID blobID (·.deletedAt.isNone)
        (fun row => { row with deletedAt := some now, deletedBy := some userID })
        "blob not found or already deleted" e pc
    | .restore vaultID blobID =>
      updateRow k s vaultID blobID (·.deletedAt.isSome)
        (fun row => { row with deletedAt := none, deletedBy := none })
        "blob not found or not deleted" e pc
    | .deleteRow vaultID blobID =>
      if s.rows.Held k blobID then (s, pc)
      else if e ≠ .done then (s, finish (some .cause))
      else
        match s.find vaultID blobID fun _ => true with
        | some _ => (s.deleteRows k [blobID], .deleteObject vaultID blobID)
        | none => (s, finish (some (.text "blob not found")))
    | .deleteObject vaultID blobID =>
      let next := if e.Took then s.deleteObject (blobID, vaultID) else s
      if e = .done then (next, .commitDelete vaultID blobID)
      else (next.rollback k, finish (some .cause))
    | .commitDelete _ _ =>
      if e.Took then (s.commit k, finish (if e = .done then none else some .cause))
      else (s.rollback k, finish (some .cause))
    | .select run =>
      if e ≠ .done then (s, .done (some .cause) run.totalDeleted)
      else
        match s.candidates run.cutoffTime with
        | [] => (s, nextBatch run 0)
        | blobs => (s, .deleteBatch run blobs)
    | .deleteBatch run blobs =>
      if ∃ blob ∈ blobs, s.rows.Held k blob.1 then (s, pc)
      else if e ≠ .done then (s.rollback k, .done (some .cause) run.totalDeleted)
      else
        let ids := (blobs.map (·.1)).filter fun id => (s.rows.rows id).isSome
        (s.deleteRows k ids, .commitBatch run blobs ids.length)
    | .commitBatch run blobs dbDeleted =>
      if e = .done then (s.commit k, .deleteObjects run blobs dbDeleted)
      else (if e.Took then s.commit k else s.rollback k, .done (some .cause) run.totalDeleted)
    | .deleteObjects run blobs dbDeleted =>
      let next := (blobs.filter fun blob => blob.1 ∈ removed).foldl Store.deleteObject s
      if e = .done then (next, nextBatch run dbDeleted)
      else (next, .fallback run blobs dbDeleted)
    | .fallback run [] dbDeleted => (s, nextBatch run dbDeleted)
    | .fallback run (blob :: blobs) dbDeleted =>
      (if e.Took then s.deleteObject blob else s, .fallback run blobs dbDeleted)
    | .done err total => (s, .done err total)

/-! ## Requests -/

def dayNanoseconds : ℤ := 24 * 60 * 60 * 10 ^ 9

inductive Event where
  | softDeleteBlob (vaultID : VaultID) (blobID : BlobID) (userID : UserID)
  | restoreBlob (vaultID : VaultID) (blobID : BlobID)
  | permanentlyDeleteBlob (vaultID : VaultID) (blobID : BlobID)
  | cleanupExpiredBlobs (now retentionDays : ℤ)
  | putObject (key : ObjectKey) (content : List UInt8)
  deriving DecidableEq, Repr

def world (s : Store) : Event → Store × Option Pc
  | .softDeleteBlob v b userID => (s, some (.softDelete v b userID))
  | .restoreBlob v b => (s, some (.restore v b))
  | .permanentlyDeleteBlob v b => (s, some (.deleteRow v b))
  | .cleanupExpiredBlobs now retentionDays =>
    (s, some <|
      if retentionDays ≤ 0 then
        finish (some (.text s!"retentionDays must be positive, got {retentionDays}"))
      else .select ⟨now - retentionDays * dayNanoseconds, 0⟩)
  | .putObject key content => ({ s with objects := s.objects.putObject key content }, none)

def lifecycle : Calls.Service Store Pc Event Outcome where
  world := world
  exec := exec

abbrev State := Calls.State Store Pc

abbrev Action := Calls.Action Event Outcome

/-- Any rows and objects, and no transaction. -/
def start (blobs : List (BlobID × BlobRow)) (objects : Bucket (List UInt8)) : State :=
  ⟨⟨blobs.foldl (fun rows blob => rows.put blob.1 (some blob.2)) .empty, objects⟩, []⟩

end UsbVault.Storage.Lifecycle
