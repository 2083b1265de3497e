import UsbVault.Lib.Calls
import UsbVault.Storage.Compact
import UsbVault.Storage.Uploads

/-!
# The orphan job

`S3OrphanJob.Run` (`internal/gc/s3_orphan.go`) beside the storage requests of
all users, the soft deletion and the restoration of blobs
(`internal/storage/lifecycle.go`) and the deletion of vaults. The job lists
the bucket page by page, asks the table `blobs` which identifiers it has, and
deletes the objects of the others. No statement of the program inserts a row
into `blobs`, so none does here.

Beside the store stands its history: for each blob, whether it was uploaded
through a signed URL, whether a user has deleted it since, whether a request
has removed its object; and the blobs that the job has deleted while they
were neither deleted by a user nor in a deleted vault.
-/

namespace UsbVault.Storage.Gc

open Members Tables

/-- The history of a blob. -/
structure File where
  uploaded : Bool
  userDeleted : Bool
  removed : Bool
  deriving DecidableEq, Repr

structure Store where
  service : Service
  rows : BlobID → Option BlobRow
  files : VaultID → BlobID → File
  lost : List (VaultID × BlobID)

namespace Store

variable (s : Store)

def Live (vaultID : VaultID) : Prop := ∃ row ∈ s.service.vaults vaultID, row.deleted = false

instance (vaultID : VaultID) : Decidable (s.Live vaultID) :=
  inferInstanceAs (Decidable (∃ row ∈ s.service.vaults vaultID, _))

/-- Uploaded through a signed URL into a vault that is not deleted, and deleted
by no user. -/
def Protected (blob : VaultID × BlobID) : Prop :=
  (s.files blob.1 blob.2).uploaded ∧ ¬(s.files blob.1 blob.2).userDeleted ∧ s.Live blob.1

instance (blob : VaultID × BlobID) : Decidable (s.Protected blob) :=
  inferInstanceAs (Decidable (_ ∧ _ ∧ _))

def setFile (vaultID : VaultID) (blobID : BlobID) (file : File) : Store :=
  { s with files := Function.update s.files vaultID (Function.update (s.files vaultID) blobID file) }

end Store

/-! ## Requests -/

inductive Event where
  | request (userID : UserID) (req : Request)
  | softDelete (vaultID : VaultID) (blobID : BlobID) (e : Execution)
  | restore (vaultID : VaultID) (blobID : BlobID) (e : Execution)
  | deleteVault (vaultID : VaultID)
  | startJob
  deriving DecidableEq, Repr

/-- A deletion that is permitted, and whose transaction takes place. -/
def DeletesRow (s : Store) (userID : UserID) (vaultID : VaultID) (o : Service.DeleteOutcome) : Prop :=
  o.role ∧ checkPermission (s.service.members vaultID userID) .delete ∧ o.row.Took

instance (s : Store) (userID : UserID) (vaultID : VaultID) (o : Service.DeleteOutcome) :
    Decidable (DeletesRow s userID vaultID o) := inferInstanceAs (Decidable (_ ∧ _ ∧ _))

/-- `SET deleted_at = … WHERE id = $1 AND vault_id = $2`. -/
def Store.markRow (s : Store) (vaultID : VaultID) (blobID : BlobID) (deleted : Bool) : Store :=
  { s with
    rows := Function.update s.rows blobID <| (s.rows blobID).map fun row =>
      if row.vaultID = vaultID then { row with deleted := deleted } else row }

/-- The history after a request: a PUT that S3 takes is an upload; a blob whose
object is gone afterwards was removed by the request. -/
def Store.after (s : Store) (next : Service) : Request → Store
  | .put v b _ =>
    if s.service.signed v b then { s with service := next }.setFile v b ⟨true, false, false⟩
    else { s with service := next }
  | .confirm v b _ => { s with service := next }.setFile v b (gone v b)
  | .delete v b _ => { s with service := next }.setFile v b (gone v b)
  | _ => { s with service := next }
where
  gone (v : VaultID) (b : BlobID) : File :=
    { s.files v b with
      removed := (s.files v b).removed
        || (s.service.objects (.blob v b)).isSome && (next.objects (.blob v b)).isNone }

def request (s : Store) (userID : UserID) (req : Request) : Store :=
  let next := s.after (s.service.handle userID req) req
  match req with
  | .delete v b o =>
    if DeletesRow s userID v o then
      (next.markRow v b true).setFile v b { next.files v b with userDeleted := true }
    else next
  | _ => next

def softDelete (s : Store) (vaultID : VaultID) (blobID : BlobID) (e : Execution) : Store :=
  match (s.rows blobID).filter fun row => row.vaultID = vaultID ∧ row.deleted = false with
  | some _ =>
    if e.Took then
      (s.markRow vaultID blobID true).setFile vaultID blobID
        { s.files vaultID blobID with userDeleted := true }
    else s
  | none => s

def restore (s : Store) (vaultID : VaultID) (blobID : BlobID) (e : Execution) : Store :=
  match (s.rows blobID).filter fun row => row.vaultID = vaultID ∧ row.deleted with
  | some _ =>
    if e.Took then
      (s.markRow vaultID blobID false).setFile vaultID blobID
        { s.files vaultID blobID with userDeleted := false }
    else s
  | none => s

/-- `deleted_at` of the vault. -/
def deleteVault (s : Store) (vaultID : VaultID) : Store :=
  { s with
    service := { s.service with
      vaults := Function.update s.service.vaults vaultID <|
        (s.service.vaults vaultID).map ({ · with deleted := true }) } }

/-! ## The job -/

/-- The next statement of a run of the job. -/
inductive Pc where
  | listing
  | selecting (entries : List (VaultID × BlobID)) (truncated : Bool)
  | deleting (orphans : List (VaultID × BlobID)) (truncated : Bool)
  | done (failed : Bool)
  deriving DecidableEq, Repr

structure Job where
  deleted : Nat
  pc : Pc
  deriving DecidableEq, Repr

/-- How a statement ends: the context is cancelled; it fails; the page that is
listed and whether there are more; the identifiers whose rows are read (an
error after them is not looked at); the deletion of an object. -/
structure Outcome where
  cancelled : Bool
  failed : Bool
  page : List ObjectKey
  truncated : Bool
  read : List BlobID
  delete : Execution
  deriving DecidableEq, Repr

/-- A key of three parts whose last is a UUID. -/
def parseKey : ObjectKey → Option (VaultID × BlobID)
  | .blob v b => some (v, b)
  | .temp _ _ => none
  | .file _ _ => none

/-- A page of the listing: at most 100 of the objects that are there. -/
def listPage (s : Store) (o : Outcome) : List (VaultID × BlobID) :=
  ((o.page.filter fun key => (s.service.objects key).isSome).take 100).filterMap parseKey

def existsInDB (s : Store) (o : Outcome) (blobID : BlobID) : Bool :=
  (s.rows blobID).isSome && blobID ∈ o.read

def nextPage (truncated : Bool) : Pc := if truncated then .listing else .done false

variable (maxDeletes : Nat)

/-- `j.maxDeletes > 0 && deleted >= j.maxDeletes` -/
def Job.limited (job : Job) : Bool := 0 < maxDeletes && maxDeletes ≤ job.deleted

/-- The object of a blob is deleted. -/
def Store.deleteOrphan (s : Store) (blob : VaultID × BlobID) : Store :=
  { s with
    service := { s.service with objects := s.service.objects.deleteObject (.blob blob.1 blob.2) }
    lost := if s.Protected blob then blob :: s.lost else s.lost }

def Job.exec (s : Store) (job : Job) (o : Outcome) : Store × Job :=
  match job.pc with
  | .listing =>
    if o.cancelled then (s, { job with pc := .done true })
    else if job.limited maxDeletes then (s, { job with pc := .done false })
    else if o.failed then (s, { job with pc := .done true })
    else
      match listPage s o with
      | [] => (s, { job with pc := nextPage o.truncated })
      | entries => (s, { job with pc := .selecting entries o.truncated })
  | .selecting entries truncated =>
    if o.failed then (s, { job with pc := .done true })
    else
      let orphans := entries.filter fun blob => !existsInDB s o blob.2
      (s, { job with pc := .deleting orphans truncated })
  | .deleting [] truncated => (s, { job with pc := nextPage truncated })
  | .deleting (blob :: orphans) truncated =>
    if job.limited maxDeletes then (s, { job with pc := nextPage truncated })
    else
      let next := if o.delete.Took then s.deleteOrphan blob else s
      let deleted := if o.delete = .done then job.deleted + 1 else job.deleted
      (next, ⟨deleted, .deleting orphans truncated⟩)
  | .done _ => (s, job)

def world (s : Store) : Event → Store × Option Job
  | .request userID req => (request s userID req, none)
  | .softDelete v b e => (softDelete s v b e, none)
  | .restore v b e => (restore s v b e, none)
  | .deleteVault v => (deleteVault s v, none)
  | .startJob => (s, some ⟨0, .listing⟩)

def service : Calls.Service Store Job Event Outcome where
  world := world
  exec _ s job o := job.exec maxDeletes s o

abbrev State := Calls.State Store Job

abbrev Action := Calls.Action Event Outcome

/-- Any tables, objects and signed URLs, before the first upload that counts. -/
def start (service : Service) (rows : BlobID → Option BlobRow) : State :=
  ⟨⟨service, rows, fun _ _ => ⟨false, false, false⟩, []⟩, []⟩

end UsbVault.Storage.Gc
