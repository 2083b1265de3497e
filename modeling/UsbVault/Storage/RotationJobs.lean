import UsbVault.Lib.Run
import UsbVault.Lib.Table

/-!
# Rotation jobs

`InitiateKeyRotation` and `UpdateRotationProgress`
(`internal/vault/key_rotation.go`) over the tables `vaults`,
`key_rotation_jobs` and `blobs`. The re-encryption is the client's, which
reports its progress by job; the server derives the job's status from the
report alone, and never from the status the job has.

The column `vaults.rotation_status` is in no migration; it is taken to be there.
The `$3` of the job's UPDATE is its new status and the left side of
`IN ('completed', 'failed')`, one text for both. Times, the job's
`error_message` and the audit log are left out: no statement reads them.
-/

namespace UsbVault.Rotation

open Tables

/-- The UUID as text. -/
abbrev UserID := String
abbrev VaultID := Nat
abbrev JobID := Nat

/-- The constants `KeyRotationStatus…`. -/
inductive JobStatus where
  | pending
  | inProgress
  | completed
  | failed
  | rolledBack
  deriving DecidableEq, Repr

/-- The values of `vaults.rotation_status`. -/
inductive VaultStatus where
  | active
  | rotating
  | rotationFailed
  deriving DecidableEq, Repr

structure VaultRow where
  ownerID : UserID
  deleted : Bool
  rotationStatus : VaultStatus
  deriving DecidableEq, Repr

structure JobRow where
  id : JobID
  vaultID : VaultID
  userID : UserID
  status : JobStatus
  totalFiles : Int64
  processedFiles : Int64
  failedFiles : Int64
  deriving DecidableEq, Repr

/-- `status IN ('pending', 'in_progress')`. -/
def JobRow.Open (job : JobRow) : Prop := job.status = .pending ∨ job.status = .inProgress

instance (job : JobRow) : Decidable job.Open := inferInstanceAs (Decidable (_ ∨ _))

/-- `status IN ('completed', 'failed')`. -/
def JobRow.Final (job : JobRow) : Prop := job.status = .completed ∨ job.status = .failed

instance (job : JobRow) : Decidable job.Final := inferInstanceAs (Decidable (_ ∨ _))

/-- What a report changes in the row. -/
def JobRow.report (job : JobRow) (status : JobStatus) (processedFiles failedFiles : Int64) : JobRow :=
  { job with
    status := status
    processedFiles := processedFiles
    failedFiles := failedFiles }

/-- The tables, with the primary key of `key_rotation_jobs` and its foreign
key to `vaults`. -/
structure Store where
  vaults : VaultID → Option VaultRow
  jobs : List JobRow
  key : (jobs.map (·.id)).Nodup
  vault : ∀ job ∈ jobs, (vaults job.vaultID).isSome

namespace Store

variable (s : Store)

/-- The row of the job, `WHERE id = $1`. -/
def job (jobID : JobID) : Option JobRow := s.jobs.find? (·.id = jobID)

/-- `SELECT id … WHERE vault_id = $1 AND status IN ('pending', 'in_progress')`. -/
def existing (vaultID : VaultID) : Option JobRow :=
  s.jobs.find? fun job => job.vaultID = vaultID ∧ job.Open

def updateJob (jobID : JobID) (status : JobStatus) (processedFiles failedFiles : Int64) : Store where
  vaults := s.vaults
  jobs := s.jobs.map fun job =>
    if job.id = jobID then job.report status processedFiles failedFiles else job
  key := by
    have hids : (s.jobs.map fun job => if job.id = jobID then
        job.report status processedFiles failedFiles else job).map (·.id) = s.jobs.map (·.id) := by
      rw [List.map_map]
      refine List.map_congr_left ?_
      intro job _
      rw [Function.comp_apply]
      split <;> rfl
    rw [hids]
    exact s.key
  vault := by
    intro job hjob
    obtain ⟨old, hold, rfl⟩ := List.mem_map.mp hjob
    have hvault := s.vault old hold
    split <;> exact hvault

def setRotationStatus (vaultID : VaultID) (status : VaultStatus) : Store where
  vaults := fun v =>
    if v = vaultID then (s.vaults v).map ({ · with rotationStatus := status }) else s.vaults v
  jobs := s.jobs
  key := s.key
  vault := by
    intro job hjob
    have hvault := s.vault job hjob
    split
    · rw [Option.isSome_map]
      exact hvault
    · exact hvault

def insertJob (job : JobRow) (hid : job.id ∉ s.jobs.map (·.id))
    (hvault : (s.vaults job.vaultID).isSome) : Store where
  vaults := s.vaults
  jobs := s.jobs ++ [job]
  key := by
    rw [List.map_append, List.nodup_append]
    refine ⟨s.key, by simp, ?_⟩
    intro id hmem id' hid' heq
    simp only [List.map_cons, List.map_nil, List.mem_singleton] at hid'
    exact hid (hid' ▸ heq ▸ hmem)
  vault := by
    intro job' hjob'
    rcases List.mem_append.mp hjob' with hold | hnew
    · exact s.vault job' hold
    · rw [List.mem_singleton.mp hnew]
      exact hvault

end Store

/-! ## The calls -/

/-- The statements of the transaction of `InitiateKeyRotation`. -/
inductive InitiateStatement where
  | begin
  | owner
  | existing
  | count
  | insert
  | markVault
  | commit
  deriving DecidableEq, Repr

/-- The statement that fails, if one does (the transaction is aborted with
it); whether a commit that is reported as failed took place; what
`gen_random_uuid` and `COUNT(*)` give. -/
structure InitiateOutcome where
  failing : Option InitiateStatement
  committed : Bool
  jobID : JobID
  totalFiles : Nat
  deriving DecidableEq, Repr

/-- The type `INTEGER` of the columns. -/
def fitsInteger (n : Int64) : Bool := -2147483648 ≤ n ∧ n ≤ 2147483647

def initiateKeyRotation (s : Store) (userID : UserID) (vaultID : VaultID) (o : InitiateOutcome) :
    Store × Except String JobID :=
  if o.failing = some .begin then (s, .error "failed to begin transaction")
  else if o.failing = some .owner then (s, .error "vault not found")
  else
    match hrow : s.vaults vaultID with
    | none => (s, .error "vault not found")
    | some row =>
      if row.deleted then (s, .error "vault not found")
      else if row.ownerID ≠ userID then
        (s, .error "unauthorized: only vault owner can rotate keys")
      else if o.failing ≠ some .existing ∧ (s.existing vaultID).isSome then
        (s, .error "key rotation already in progress")
      else if o.failing = some .existing ∨ o.failing = some .count then
        -- an error of the SELECT before is taken for no row, and the aborted transaction fails here
        (s, .error "failed to count vault files")
      else if o.failing = some .insert ∨ 2147483647 < o.totalFiles then
        (s, .error "failed to create rotation job")
      else if hid : o.jobID ∈ s.jobs.map (·.id) then (s, .error "failed to create rotation job")
      else if o.failing = some .markVault then (s, .error "failed to mark vault as rotating")
      else
        let job : JobRow := ⟨o.jobID, vaultID, userID, .pending, .ofNat o.totalFiles, 0, 0⟩
        have hvault : (s.vaults vaultID).isSome := by rw [hrow, Option.isSome_some]
        let next := (s.insertJob job hid hvault).setRotationStatus vaultID .rotating
        if o.failing = some .commit then
          (if o.committed then next else s, .error "failed to commit transaction")
        else (next, .ok o.jobID)

/-- How the statements of `UpdateRotationProgress` end: the SELECT of
`total_files`, the UPDATE of the job, the SELECT of `vault_id`, the UPDATE
of the vault. -/
structure ProgressOutcome where
  total : Bool
  job : Execution
  vaultID : Bool
  vault : Execution
  deriving DecidableEq, Repr

/-- The report accounts for every file of the job. -/
def AllFiles (processedFiles failedFiles totalFiles : Int64) : Prop :=
  processedFiles + failedFiles ≥ 0 ∧ processedFiles + failedFiles ≥ totalFiles

instance (p f t : Int64) : Decidable (AllFiles p f t) := inferInstanceAs (Decidable (_ ∧ _))

/-- The status that the report gives, unless the job is not found. -/
def progressStatus (s : Store) (jobID : JobID) (processedFiles failedFiles : Int64)
    (o : ProgressOutcome) : Option JobStatus :=
  if processedFiles + failedFiles ≥ 0 then
    if o.total then
      (s.job jobID).map fun job =>
        if processedFiles + failedFiles ≥ job.totalFiles then
          if failedFiles > 0 then .failed else .completed
        else .inProgress
    else none
  else some .inProgress

/-- The status of the vault of a job that has ended so. -/
def endedVault : JobStatus → Option VaultStatus
  | .completed => some .active
  | .failed => some .rotationFailed
  | _ => none

/-- The job's UPDATE is executed. -/
def Writes (processedFiles failedFiles : Int64) (o : ProgressOutcome) : Prop :=
  (processedFiles + failedFiles ≥ 0 → o.total) ∧ o.job.Took
    ∧ fitsInteger processedFiles ∧ fitsInteger failedFiles

instance (p f : Int64) (o : ProgressOutcome) : Decidable (Writes p f o) :=
  inferInstanceAs (Decidable ((_ → _) ∧ _))

/-- So is the vault's after it. -/
def ProgressOutcome.WritesVault (o : ProgressOutcome) : Prop :=
  o.job = .done ∧ o.vaultID ∧ o.vault.Took

instance (o : ProgressOutcome) : Decidable o.WritesVault := inferInstanceAs (Decidable (_ ∧ _))

/-- The vault follows a job that has ended; a failure is logged only. -/
def followJob (s : Store) (jobID : JobID) (status : JobStatus) (o : ProgressOutcome) : Store :=
  match endedVault status with
  | none => s
  | some vaultStatus =>
    match if o.vaultID then s.job jobID else none with
    | none => s
    | some job => if o.vault.Took then s.setRotationStatus job.vaultID vaultStatus else s

def updateRotationProgress (s : Store) (jobID : JobID) (processedFiles failedFiles : Int64)
    (o : ProgressOutcome) : Store × Except String Unit :=
  match progressStatus s jobID processedFiles failedFiles o with
  | none => (s, .error "rotation job not found")
  | some status =>
    if o.job.Took ∧ fitsInteger processedFiles ∧ fitsInteger failedFiles then
      let next := s.updateJob jobID status processedFiles failedFiles
      if o.job = .unacknowledged then (next, .error "failed to update rotation progress")
      else (followJob next jobID status o, .ok ())
    else (s, .error "failed to update rotation progress")

inductive Call where
  | initiate (userID : UserID) (vaultID : VaultID) (outcome : InitiateOutcome)
  | progress (jobID : JobID) (processedFiles failedFiles : Int64) (outcome : ProgressOutcome)
  deriving DecidableEq, Repr

def step (s : Store) : Call → Store
  | .initiate userID vaultID o => (initiateKeyRotation s userID vaultID o).1
  | .progress jobID processedFiles failedFiles o =>
    (updateRotationProgress s jobID processedFiles failedFiles o).1

end UsbVault.Rotation
