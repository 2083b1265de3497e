import Mathlib.Data.List.Nodup
import UsbVault.Storage.RotationJobs

/-!
# Rotation states

A vault has at most one open job and is rotating while it has one; a job
that has ended keeps its status. Starting a rotation keeps all of this. A
progress report keeps it just when the job is still open, or the report says
the same of it again, and when the vault's row follows the job's
(`rotation_states`): the server does not check either.
-/

namespace UsbVault.Rotation

variable {s s' : Store} {jobID : JobID} {vaultID v : VaultID} {userID : UserID}
  {processedFiles failedFiles : Int64}

/-- The vault has an open job. -/
def Store.OpenAt (s : Store) (vaultID : VaultID) : Prop :=
  ∃ job ∈ s.jobs, job.vaultID = vaultID ∧ job.Open

/-- The vault has an open job other than `jobID`. -/
def Store.OtherOpen (s : Store) (jobID : JobID) (vaultID : VaultID) : Prop :=
  ∃ job ∈ s.jobs, job.id ≠ jobID ∧ job.vaultID = vaultID ∧ job.Open

def Store.Rotating (s : Store) (vaultID : VaultID) : Prop :=
  ∃ row ∈ s.vaults vaultID, row.rotationStatus = .rotating

/-- One open job at most for each vault, and the vault rotates just while there
is one. -/
structure Proper (s : Store) : Prop where
  one : ∀ job ∈ s.jobs, job.Open → ¬s.OtherOpen job.id job.vaultID
  rotating : ∀ v, s.Rotating v ↔ s.OpenAt v

/-- A job that has ended keeps its status. -/
def KeepsEnded (s s' : Store) : Prop :=
  ∀ job ∈ s.jobs, job.Final → ∃ job' ∈ s'.jobs, job'.id = job.id ∧ job'.status = job.status

instance (s s' : Store) : Decidable (KeepsEnded s s') :=
  inferInstanceAs (Decidable (∀ job ∈ s.jobs, job.Final →
    ∃ job' ∈ s'.jobs, job'.id = job.id ∧ job'.status = job.status))

/-- What a call is to leave behind. -/
def LeavesProper (s : Store) (c : Call) : Prop := Proper (step s c) ∧ KeepsEnded s (step s c)

/-! ## The rows -/

theorem KeepsEnded.refl : KeepsEnded s s := by
  intro job hjob _
  exact ⟨job, hjob, rfl, rfl⟩

theorem KeepsEnded.trans {s'' : Store} (h : KeepsEnded s s') (h' : KeepsEnded s' s'') :
    KeepsEnded s s'' := by
  intro job hjob hfinal
  obtain ⟨job', hjob', hid, hstatus⟩ := h job hjob hfinal
  have hfinal' : job'.Final := by
    rw [JobRow.Final, hstatus]
    exact hfinal
  obtain ⟨job'', hjob'', hid', hstatus'⟩ := h' job' hjob' hfinal'
  exact ⟨job'', hjob'', hid'.trans hid, hstatus'.trans hstatus⟩

theorem Store.existing_none : s.existing vaultID = none ↔ ¬s.OpenAt vaultID := by
  simp [Store.existing, Store.OpenAt]

theorem Store.mem_job {job : JobRow} (h : s.job jobID = some job) :
    job ∈ s.jobs ∧ job.id = jobID := by
  have hid := List.find?_some h
  exact ⟨List.mem_of_find?_eq_some h, of_decide_eq_true hid⟩

theorem Store.job_eq {job job' : JobRow} (h : job ∈ s.jobs) (h' : job' ∈ s.jobs)
    (hid : job.id = job'.id) : job = job' :=
  List.inj_on_of_nodup_map s.key h h' hid

theorem Store.openAt_iff {job : JobRow} (h : s.job jobID = some job) :
    s.OpenAt v ↔ s.OtherOpen jobID v ∨ job.vaultID = v ∧ job.Open := by
  obtain ⟨hmem, hid⟩ := Store.mem_job h
  constructor
  · rintro ⟨job', hmem', hv, hopen⟩
    by_cases heq : job'.id = jobID
    · obtain rfl := Store.job_eq hmem' hmem (heq.trans hid.symm)
      exact .inr ⟨hv, hopen⟩
    · exact .inl ⟨job', hmem', heq, hv, hopen⟩
  · rintro (⟨job', hmem', -, hv, hopen⟩ | ⟨hv, hopen⟩)
    · exact ⟨job', hmem', hv, hopen⟩
    · exact ⟨job, hmem, hv, hopen⟩

theorem Store.rotating_set {status : VaultStatus} (h : (s.vaults vaultID).isSome) :
    (s.setRotationStatus vaultID status).Rotating v ↔
      if v = vaultID then status = .rotating else s.Rotating v := by
  unfold Store.Rotating Store.setRotationStatus
  by_cases hv : v = vaultID
  · obtain ⟨row, hrow⟩ := Option.isSome_iff_exists.mp h
    simp [hv, hrow]
  · simp only [hv, if_false]

/-! ## Starting a rotation -/

/-- What `InitiateKeyRotation` can do to the rows. -/
theorem initiate_cases {o : InitiateOutcome} {r : Except String JobID}
    (h : initiateKeyRotation s userID vaultID o = (s', r)) :
    s' = s ∨ ∃ (job : JobRow) (hid : job.id ∉ s.jobs.map (·.id))
        (hvault : (s.vaults job.vaultID).isSome),
      job.vaultID = vaultID ∧ job.status = .pending ∧ s.existing vaultID = none ∧
        s' = (s.insertJob job hid hvault).setRotationStatus vaultID .rotating := by
  unfold initiateKeyRotation at h
  split at h
  · exact .inl (Prod.mk.inj h).1.symm
  split at h
  · exact .inl (Prod.mk.inj h).1.symm
  split at h
  · exact .inl (Prod.mk.inj h).1.symm
  next row hrow =>
    split at h
    · exact .inl (Prod.mk.inj h).1.symm
    split at h
    · exact .inl (Prod.mk.inj h).1.symm
    split at h
    · exact .inl (Prod.mk.inj h).1.symm
    next hexisting =>
      split at h
      · exact .inl (Prod.mk.inj h).1.symm
      next hselected =>
        have hnone : s.existing vaultID = none := by
          rw [← Option.not_isSome_iff_eq_none]
          intro hsome
          exact hexisting ⟨fun hfail => hselected (.inl hfail), hsome⟩
        split at h
        · exact .inl (Prod.mk.inj h).1.symm
        split at h
        · exact .inl (Prod.mk.inj h).1.symm
        next hid =>
          split at h
          · exact .inl (Prod.mk.inj h).1.symm
          have hvault : (s.vaults vaultID).isSome := by rw [hrow, Option.isSome_some]
          dsimp only at h
          split at h
          · split at h
            · exact .inr ⟨_, hid, hvault, rfl, rfl, hnone, (Prod.mk.inj h).1.symm⟩
            · exact .inl (Prod.mk.inj h).1.symm
          · exact .inr ⟨_, hid, hvault, rfl, rfl, hnone, (Prod.mk.inj h).1.symm⟩

theorem Store.openAt_insertJob {job : JobRow} (hid : job.id ∉ s.jobs.map (·.id))
    (hvault : (s.vaults job.vaultID).isSome) :
    (s.insertJob job hid hvault).OpenAt v ↔ s.OpenAt v ∨ job.vaultID = v ∧ job.Open := by
  simp only [Store.OpenAt, Store.insertJob, List.mem_append, List.mem_singleton, or_and_right,
    exists_or, exists_eq_left]

/-- **Starting a rotation** leaves the one open job, and the vault rotating. -/
theorem Proper.initiate (hs : Proper s) {o : InitiateOutcome} {r : Except String JobID}
    (h : initiateKeyRotation s userID vaultID o = (s', r)) : Proper s' := by
  rcases initiate_cases h with rfl | ⟨job, hid, hvault, rfl, hpending, hnone, rfl⟩
  · exact hs
  have hclosed : ¬s.OpenAt job.vaultID := Store.existing_none.mp hnone
  constructor
  · intro job' hmem hopen hother
    obtain ⟨job'', hmem', hne, hv, hopen'⟩ := hother
    rcases List.mem_append.mp hmem with hold | hnew
    · rcases List.mem_append.mp hmem' with hold' | hnew'
      · exact hs.one job' hold hopen ⟨job'', hold', hne, hv, hopen'⟩
      · obtain rfl := List.mem_singleton.mp hnew'
        exact hclosed ⟨job', hold, hv.symm, hopen⟩
    · obtain rfl := List.mem_singleton.mp hnew
      rcases List.mem_append.mp hmem' with hold' | hnew'
      · exact hclosed ⟨job'', hold', hv, hopen'⟩
      · exact hne (congrArg _ (List.mem_singleton.mp hnew'))
  · intro v
    rw [Store.rotating_set (by exact hvault)]
    show _ ↔ (s.insertJob job hid hvault).OpenAt v
    rw [Store.openAt_insertJob]
    split
    · next hv => simp [hv, JobRow.Open, hpending]
    · next hv =>
        show s.Rotating v ↔ _
        simp [hs.rotating v, Ne.symm hv]

theorem KeepsEnded.initiate {o : InitiateOutcome} {r : Except String JobID}
    (h : initiateKeyRotation s userID vaultID o = (s', r)) : KeepsEnded s s' := by
  rcases initiate_cases h with rfl | ⟨job, hid, hvault, rfl, hpending, hnone, rfl⟩
  · exact KeepsEnded.refl
  intro job' hmem _
  exact ⟨job', List.mem_append_left _ hmem, rfl, rfl⟩

/-! ## A progress report -/

/-- The status that a report gives a job. -/
def reported (job : JobRow) (processedFiles failedFiles : Int64) : JobStatus :=
  if AllFiles processedFiles failedFiles job.totalFiles then
    if failedFiles > 0 then .failed else .completed
  else .inProgress

theorem reported_open {job : JobRow} :
    reported job processedFiles failedFiles = .pending
        ∨ reported job processedFiles failedFiles = .inProgress ↔
      ¬AllFiles processedFiles failedFiles job.totalFiles := by
  unfold reported
  split
  · next hall =>
      split <;> simp [hall]
  · next hall => simp [hall]

theorem progressStatus_eq {o : ProgressOutcome} {job : JobRow} (h : s.job jobID = some job)
    (htotal : processedFiles + failedFiles ≥ 0 → o.total) :
    progressStatus s jobID processedFiles failedFiles o
      = some (reported job processedFiles failedFiles) := by
  unfold progressStatus reported AllFiles
  by_cases hsum : processedFiles + failedFiles ≥ 0
  · rw [if_pos hsum, if_pos (htotal hsum), h, Option.map_some]
    simp only [hsum, true_and]
  · simp only [hsum, false_and, if_false]

theorem Store.updateJob_none {status : JobStatus} (h : s.job jobID = none) :
    s.updateJob jobID status processedFiles failedFiles = s := by
  have hjobs : (s.updateJob jobID status processedFiles failedFiles).jobs = s.jobs := by
    refine (List.map_congr_left ?_).trans (List.map_id s.jobs)
    intro job hjob
    have hne : job.id ≠ jobID := by simpa using List.find?_eq_none.mp h job hjob
    rw [if_neg hne, id_eq]
  cases s
  simp only [Store.updateJob] at hjobs ⊢
  simp only [hjobs]

theorem Store.updateJob_job {status : JobStatus} {job : JobRow} (h : s.job jobID = some job) :
    (s.updateJob jobID status processedFiles failedFiles).job jobID
      = some (job.report status processedFiles failedFiles) := by
  have hids : ((fun job' : JobRow => decide (job'.id = jobID)) ∘ fun job' : JobRow =>
      if job'.id = jobID then job'.report status processedFiles failedFiles else job')
        = fun job' => decide (job'.id = jobID) := by
    funext job'
    rw [Function.comp_apply]
    split <;> rfl
  have hid := (Store.mem_job h).2
  rw [Store.job] at h
  rw [Store.job, Store.updateJob, List.find?_map, hids, h, Option.map_some, if_pos hid]

theorem Store.mem_updateJob {status : JobStatus} {job' : JobRow} :
    job' ∈ (s.updateJob jobID status processedFiles failedFiles).jobs ↔
      job' ∈ s.jobs ∧ job'.id ≠ jobID
        ∨ ∃ job ∈ s.jobs, job.id = jobID ∧ job' = job.report status processedFiles failedFiles := by
  rw [Store.updateJob, List.mem_map]
  constructor
  · rintro ⟨job, hmem, rfl⟩
    split
    · next hid => exact .inr ⟨job, hmem, hid, rfl⟩
    · next hid => exact .inl ⟨hmem, hid⟩
  · rintro (⟨hmem, hid⟩ | ⟨job, hmem, hid, rfl⟩)
    · exact ⟨job', hmem, if_neg hid⟩
    · exact ⟨job, hmem, if_pos hid⟩

theorem followJob_none {status : JobStatus} {o : ProgressOutcome} (h : s.job jobID = none) :
    followJob s jobID status o = s := by
  unfold followJob
  rw [h, ite_self]
  split <;> rfl

theorem followJob_eq {o : ProgressOutcome} {job old : JobRow} (h : s.job jobID = some job) :
    followJob s jobID (reported old processedFiles failedFiles) o =
      if AllFiles processedFiles failedFiles old.totalFiles ∧ o.vaultID ∧ o.vault.Took then
        s.setRotationStatus job.vaultID (if failedFiles > 0 then .rotationFailed else .active)
      else s := by
  unfold followJob reported
  by_cases hall : AllFiles processedFiles failedFiles old.totalFiles
  · by_cases hvault : o.vaultID
    · by_cases hfailed : failedFiles > 0 <;> simp [hall, hvault, hfailed, h, endedVault]
    · by_cases hfailed : failedFiles > 0 <;> simp [hall, hvault, hfailed, endedVault]
  · simp [hall, endedVault]

/-- The rows after a report whose UPDATE was executed. -/
def afterReport (s : Store) (job : JobRow) (processedFiles failedFiles : Int64)
    (o : ProgressOutcome) : Store :=
  let next := s.updateJob job.id (reported job processedFiles failedFiles) processedFiles failedFiles
  if AllFiles processedFiles failedFiles job.totalFiles ∧ o.WritesVault then
    next.setRotationStatus job.vaultID (if failedFiles > 0 then .rotationFailed else .active)
  else next

/-- What `UpdateRotationProgress` does to the rows. -/
theorem progress_cases {o : ProgressOutcome} {r : Except String Unit}
    (h : updateRotationProgress s jobID processedFiles failedFiles o = (s', r)) :
    (Writes processedFiles failedFiles o → s.job jobID = none) ∧ s' = s ∨
      ∃ job, s.job jobID = some job ∧ Writes processedFiles failedFiles o ∧
        s' = afterReport s job processedFiles failedFiles o := by
  unfold updateRotationProgress at h
  cases hjob : s.job jobID with
  | none =>
    refine .inl ⟨fun _ => rfl, ?_⟩
    split at h
    · exact (Prod.mk.inj h).1.symm
    · -- an UPDATE of no row
      simp only [Store.updateJob_none hjob, followJob_none hjob] at h
      split at h
      · split at h <;> exact (Prod.mk.inj h).1.symm
      · exact (Prod.mk.inj h).1.symm
  | some job =>
    by_cases hwrites : Writes processedFiles failedFiles o
    · refine .inr ⟨job, rfl, hwrites, ?_⟩
      obtain ⟨htotal, htook, hfits⟩ := hwrites
      rw [progressStatus_eq hjob htotal] at h
      rw [afterReport, (Store.mem_job hjob).2]
      simp only [htook, hfits, and_self, if_true] at h
      split at h
      · next hlost => simp [← (Prod.mk.inj h).1, ProgressOutcome.WritesVault, hlost]
      · next hlost =>
          have hdone : o.job = .done := by
            cases hj : o.job with
            | done => rfl
            | failed => exact absurd hj htook
            | unacknowledged => exact absurd hj hlost
          rw [← (Prod.mk.inj h).1, followJob_eq (Store.updateJob_job hjob)]
          simp [ProgressOutcome.WritesVault, hdone, JobRow.report]
    · refine .inl ⟨fun hw => absurd hw hwrites, ?_⟩
      split at h
      · exact (Prod.mk.inj h).1.symm
      next status hstatus =>
        split at h
        next htook =>
          have htotal : processedFiles + failedFiles ≥ 0 → o.total := by
            intro hsum
            by_contra hnot
            rw [progressStatus, if_pos hsum, if_neg hnot] at hstatus
            cases hstatus
          exact absurd ⟨htotal, htook⟩ hwrites
        · exact (Prod.mk.inj h).1.symm

/-! ## What a report is to leave -/

theorem Store.otherOpen_updateJob {status : JobStatus} :
    (s.updateJob jobID status processedFiles failedFiles).OtherOpen jobID v ↔
      s.OtherOpen jobID v := by
  constructor
  · rintro ⟨job, hmem, hne, hv, hopen⟩
    rcases Store.mem_updateJob.mp hmem with ⟨hold, -⟩ | ⟨old, -, hid, rfl⟩
    · exact ⟨job, hold, hne, hv, hopen⟩
    · exact absurd hid hne
  · rintro ⟨job, hmem, hne, hv, hopen⟩
    exact ⟨job, Store.mem_updateJob.mpr (.inl ⟨hmem, hne⟩), hne, hv, hopen⟩

theorem Store.openAt_updateJob {status : JobStatus} {job : JobRow} (h : s.job jobID = some job) :
    (s.updateJob jobID status processedFiles failedFiles).OpenAt v ↔
      s.OtherOpen jobID v ∨ job.vaultID = v ∧ (status = .pending ∨ status = .inProgress) := by
  rw [Store.openAt_iff (Store.updateJob_job h), Store.otherOpen_updateJob]
  rfl

/-- The jobs after a report: one open at most for each vault, unless another
job of the vault is open beside it. -/
theorem Proper.one_updateJob (hs : Proper s) {status : JobStatus} {job : JobRow}
    (h : s.job jobID = some job) :
    (∀ job' ∈ (s.updateJob jobID status processedFiles failedFiles).jobs, job'.Open →
        ¬(s.updateJob jobID status processedFiles failedFiles).OtherOpen job'.id job'.vaultID) ↔
      (status = .pending ∨ status = .inProgress → ¬s.OtherOpen jobID job.vaultID) := by
  obtain ⟨hmem, rfl⟩ := Store.mem_job h
  constructor
  · intro hone hopen hother
    refine hone (job.report status processedFiles failedFiles) ?_ hopen ?_
    · exact Store.mem_updateJob.mpr (.inr ⟨job, hmem, rfl, rfl⟩)
    · exact Store.otherOpen_updateJob.mpr hother
  · intro hother job' hmem' hopen'
    rintro ⟨job'', hmem'', hne, hv, hopen''⟩
    rcases Store.mem_updateJob.mp hmem' with ⟨hold', hid'⟩ | ⟨old, hold', hid', rfl⟩
    · rcases Store.mem_updateJob.mp hmem'' with ⟨hold'', -⟩ | ⟨old, hold'', hid'', rfl⟩
      · exact hs.one job' hold' hopen' ⟨job'', hold'', hne, hv, hopen''⟩
      · obtain rfl := Store.job_eq hold'' hmem hid''
        exact hother hopen'' ⟨job', hold', hid', hv.symm, hopen'⟩
    · obtain rfl := Store.job_eq hold' hmem hid'
      rcases Store.mem_updateJob.mp hmem'' with ⟨hold'', -⟩ | ⟨old', hold'', hid'', rfl⟩
      · exact hother hopen' ⟨job'', hold'', hne, hv, hopen''⟩
      · exact hne hid''

theorem Proper.updateJob_iff (hs : Proper s) {status : JobStatus} {job : JobRow}
    (h : s.job jobID = some job) :
    Proper (s.updateJob jobID status processedFiles failedFiles) ↔
      ((status = .pending ∨ status = .inProgress) ↔ job.Open) := by
  have hone : job.Open → ¬s.OtherOpen jobID job.vaultID := by
    obtain ⟨hmem, rfl⟩ := Store.mem_job h
    exact hs.one job hmem
  have hrotating : ∀ v, s.Rotating v ↔ s.OtherOpen jobID v ∨ job.vaultID = v ∧ job.Open := by
    intro v
    rw [hs.rotating v, Store.openAt_iff h]
  constructor
  · intro hproper
    have hother := (hs.one_updateJob h).mp hproper.one
    have hvault : s.Rotating job.vaultID ↔ _ :=
      (hproper.rotating job.vaultID).trans (Store.openAt_updateJob h)
    have hbefore := hrotating job.vaultID
    simp only [true_and] at hvault hbefore
    constructor
    · intro hopen
      exact (hbefore.mp (hvault.mpr (.inr hopen))).resolve_left (hother hopen)
    · intro hopen
      exact (hvault.mp (hbefore.mpr (.inr hopen))).resolve_left (hone hopen)
  · intro hopen
    refine ⟨(hs.one_updateJob h).mpr (hone ∘ hopen.mp), ?_⟩
    intro v
    rw [Store.openAt_updateJob h, hopen]
    exact hrotating v

theorem Proper.followed_iff (hs : Proper s) {status : JobStatus} {vaultStatus : VaultStatus}
    {job : JobRow} (h : s.job jobID = some job) (hended : vaultStatus ≠ .rotating)
    (hstatus : ¬(status = .pending ∨ status = .inProgress)) :
    Proper ((s.updateJob jobID status processedFiles failedFiles).setRotationStatus job.vaultID
        vaultStatus) ↔ ¬s.OtherOpen jobID job.vaultID := by
  have hvault := s.vault job (Store.mem_job h).1
  constructor
  · intro hproper hother
    have hopen := (hproper.rotating job.vaultID).mpr ((Store.openAt_updateJob h).mpr (.inl hother))
    rw [Store.rotating_set (by exact hvault), if_pos rfl] at hopen
    exact hended hopen
  · intro hother
    refine ⟨(hs.one_updateJob h).mpr fun hopen => absurd hopen hstatus, ?_⟩
    intro v
    rw [Store.rotating_set (by exact hvault)]
    show _ ↔ (s.updateJob jobID status processedFiles failedFiles).OpenAt v
    rw [Store.openAt_updateJob h]
    split
    · next hv => simp [hv, hended, hstatus, hother]
    · next hv =>
        show s.Rotating v ↔ _
        rw [hs.rotating v, Store.openAt_iff h]
        simp [Ne.symm hv]

theorem keepsEnded_iff {status : JobStatus} {job : JobRow} (h : s.job jobID = some job)
    (hjobs : s'.jobs = (s.updateJob jobID status processedFiles failedFiles).jobs) :
    KeepsEnded s s' ↔ (job.Final → status = job.status) := by
  obtain ⟨hmem, rfl⟩ := Store.mem_job h
  unfold KeepsEnded
  rw [hjobs]
  constructor
  · intro hkeeps hfinal
    obtain ⟨job', hmem', hid, hstatus⟩ := hkeeps job hmem hfinal
    rcases Store.mem_updateJob.mp hmem' with ⟨-, hne⟩ | ⟨old, -, -, rfl⟩
    · exact absurd hid hne
    · exact hstatus
  · intro hstatus job' hmem' hfinal
    by_cases hid : job'.id = job.id
    · obtain rfl := Store.job_eq hmem' hmem hid
      exact ⟨_, Store.mem_updateJob.mpr (.inr ⟨job', hmem, rfl, rfl⟩), rfl, hstatus hfinal⟩
    · exact ⟨job', Store.mem_updateJob.mpr (.inl ⟨hmem', hid⟩), rfl, rfl⟩

/-! ## Every run -/

/-- The row can take the report: it is open, and its vault's row follows when
all its files are reported; or it has ended, the report says the same end
again, and the vault's row is not written while another job is open. -/
def JobRow.Takes (job : JobRow) (s : Store) (processedFiles failedFiles : Int64)
    (o : ProgressOutcome) : Prop :=
  (job.Open → AllFiles processedFiles failedFiles job.totalFiles → o.WritesVault) ∧
    (¬job.Open → AllFiles processedFiles failedFiles job.totalFiles
      ∧ (job.status = .completed → ¬failedFiles > 0) ∧ (job.status = .failed → failedFiles > 0)
      ∧ (o.WritesVault → s.existing job.vaultID = none))

instance (job : JobRow) (s : Store) (p f : Int64) (o : ProgressOutcome) :
    Decidable (job.Takes s p f o) :=
  inferInstanceAs (Decidable ((_ → _ → _) ∧ (_ → _ ∧ (_ → ¬_) ∧ (_ → _) ∧ (_ → _ = none))))

/-- A report whose UPDATE is executed finds a row that can take it. -/
def Taken (s : Store) : Call → Prop
  | .initiate _ _ _ => True
  | .progress jobID processedFiles failedFiles o =>
    Writes processedFiles failedFiles o →
      ∀ job ∈ s.job jobID, job.Takes s processedFiles failedFiles o

instance (s : Store) (c : Call) : Decidable (Taken s c) :=
  match c with
  | .initiate _ _ _ => inferInstanceAs (Decidable True)
  | .progress jobID _ _ _ => inferInstanceAs (Decidable (_ → ∀ job ∈ s.job jobID, _))

theorem reported_eq {job : JobRow} (hfinal : job.Final) :
    reported job processedFiles failedFiles = job.status ↔
      AllFiles processedFiles failedFiles job.totalFiles
        ∧ (job.status = .completed → ¬failedFiles > 0)
        ∧ (job.status = .failed → failedFiles > 0) := by
  unfold reported
  rcases hfinal with hstatus | hstatus
  · by_cases hall : AllFiles processedFiles failedFiles job.totalFiles
    · by_cases hfailed : failedFiles > 0 <;> simp [hstatus, hall, hfailed]
    · simp [hstatus, hall]
  · by_cases hall : AllFiles processedFiles failedFiles job.totalFiles
    · by_cases hfailed : failedFiles > 0 <;> simp [hstatus, hall, hfailed]
    · simp [hstatus, hall]

theorem JobRow.status_cases (job : JobRow) :
    job.Open ∧ ¬job.Final ∨ ¬job.Open ∧ job.Final ∨ ¬job.Open ∧ job.status = .rolledBack := by
  unfold JobRow.Open JobRow.Final
  cases job.status <;> simp

/-- **A report** leaves the rows proper, and the jobs that had ended as they
were, just when its row can take it. -/
theorem Proper.takes_iff (hs : Proper s) {job : JobRow} {o : ProgressOutcome}
    (h : s.job jobID = some job) :
    Proper (afterReport s job processedFiles failedFiles o)
        ∧ KeepsEnded s (afterReport s job processedFiles failedFiles o) ↔
      job.Takes s processedFiles failedFiles o := by
  obtain ⟨hmem, rfl⟩ := Store.mem_job h
  have hone := hs.one job hmem
  have hkeeps : KeepsEnded s (afterReport s job processedFiles failedFiles o) ↔
      (job.Final → reported job processedFiles failedFiles = job.status) := by
    have hjobs : (afterReport s job processedFiles failedFiles o).jobs
        = (s.updateJob job.id (reported job processedFiles failedFiles) processedFiles
          failedFiles).jobs := by
      unfold afterReport
      dsimp only
      split <;> rfl
    exact keepsEnded_iff h hjobs
  have hother : s.existing job.vaultID = none ↔ ¬(s.OtherOpen job.id job.vaultID ∨ job.Open) := by
    rw [Store.existing_none, Store.openAt_iff h]
    simp only [true_and]
  rw [hkeeps, JobRow.Takes, hother]
  by_cases hfollow : AllFiles processedFiles failedFiles job.totalFiles ∧ o.WritesVault
  · have hproper : Proper (afterReport s job processedFiles failedFiles o) ↔
        ¬s.OtherOpen job.id job.vaultID := by
      rw [afterReport, if_pos hfollow]
      refine hs.followed_iff h ?_ fun hopen => reported_open.mp hopen hfollow.1
      split <;> simp
    rw [hproper]
    rcases job.status_cases with ⟨hopen, hfinal⟩ | ⟨hopen, hfinal⟩ | ⟨hopen, hrolled⟩
    · simp [hopen, hfinal, hfollow, hone hopen]
    · rw [reported_eq hfinal]
      simp only [hopen, hfinal, hfollow, true_imp_iff, false_imp_iff, not_false_eq_true, true_and,
        or_false]
      rw [and_comm, and_assoc]
    · simp [hopen, hrolled, hfollow, JobRow.Final]
  · have hproper : Proper (afterReport s job processedFiles failedFiles o) ↔
        (¬AllFiles processedFiles failedFiles job.totalFiles ↔ job.Open) := by
      rw [afterReport, if_neg hfollow, hs.updateJob_iff h, reported_open]
    rw [hproper]
    rcases job.status_cases with ⟨hopen, hfinal⟩ | ⟨hopen, hfinal⟩ | ⟨hopen, hrolled⟩
    · simp only [hopen, hfinal, iff_true, false_imp_iff, and_true, true_imp_iff, not_true_eq_false]
      exact ⟨fun hnot hall => absurd hall hnot, fun hfollows hall => hfollow ⟨hall, hfollows hall⟩⟩
    · rw [reported_eq hfinal]
      simp only [hopen, hfinal, iff_false, not_not, true_imp_iff, false_imp_iff, not_false_eq_true,
        true_and, or_false]
      constructor
      · rintro ⟨hall, hends⟩
        exact ⟨hall, hends.2.1, hends.2.2, fun hwrites => absurd ⟨hall, hwrites⟩ hfollow⟩
      · rintro ⟨hall, hcompleted, hfailed, -⟩
        exact ⟨hall, hall, hcompleted, hfailed⟩
    · simp [hopen, hrolled, JobRow.Final]
      intro hall hwrites
      exact absurd ⟨hall, hwrites⟩ hfollow

/-- **One call.** -/
theorem Proper.leaves_iff (hs : Proper s) (c : Call) : LeavesProper s c ↔ Taken s c := by
  cases c with
  | initiate userID vaultID o =>
    exact iff_of_true ⟨hs.initiate rfl, KeepsEnded.initiate rfl⟩ True.intro
  | progress jobID processedFiles failedFiles o =>
    show Proper (updateRotationProgress s jobID processedFiles failedFiles o).1
      ∧ KeepsEnded s (updateRotationProgress s jobID processedFiles failedFiles o).1 ↔
        (_ → ∀ job ∈ s.job jobID, _)
    generalize hcall : updateRotationProgress s jobID processedFiles failedFiles o = next
    obtain ⟨s', r⟩ := next
    rcases progress_cases hcall with ⟨hnone, rfl⟩ | ⟨job, hjob, hwrites, rfl⟩
    · refine iff_of_true ⟨hs, KeepsEnded.refl⟩ ?_
      intro hwrites job hjob
      rw [hnone hwrites] at hjob
      cases hjob
    · simp only [hjob, hwrites, true_imp_iff, Option.mem_some_iff, forall_eq']
      exact hs.takes_iff hjob

/-- **The rotation jobs form a state machine** in a run, with one open job at
most for each vault, a vault that rotates just while there is one, and ended
jobs that stay as they are, just when every report finds a row that can take
it. -/
theorem rotation_states (hs : Proper s) (calls : List Call) :
    (∀ pre mid post, calls = pre ++ (mid ++ post) →
        Proper (pre.foldl step s) ∧ KeepsEnded (pre.foldl step s) ((pre ++ mid).foldl step s)) ↔
      Run.Each step Taken s calls := by
  rw [← Run.Each.iff_each (fun _ c hs => hs.leaves_iff c) (fun _ _ _ h => h.1) hs]
  constructor
  · intro h
    rw [Run.Each.iff_splits]
    rintro pre c post rfl
    have hnext := (h (pre ++ [c]) [] post (by simp)).1
    have hkeeps := (h pre [c] post rfl).2
    rw [List.foldl_append] at hnext hkeeps
    exact ⟨hnext, hkeeps⟩
  · rintro h pre mid post rfl
    rw [Run.Each.append, Run.Each.append] at h
    obtain ⟨hpre, hmid, -⟩ := h
    refine ⟨hpre.preserves (fun _ _ h _ => h.1) hs, ?_⟩
    rw [List.foldl_append]
    exact hmid.relates (R := KeepsEnded) (fun _ => KeepsEnded.refl) KeepsEnded.trans fun _ _ h => h.2

/-- A live vault of user `a`. -/
def sampleStore : Store where
  vaults := fun v => if v = 0 then some ⟨"a", false, .active⟩ else none
  jobs := []
  key := List.nodup_nil
  vault := by simp

theorem sampleStore_proper : Proper sampleStore := by
  constructor
  · intro job hjob
    cases hjob
  · intro v
    by_cases hv : v = 0 <;> simp [Store.Rotating, Store.OpenAt, sampleStore, hv]

def sampleInitiate : Call := .initiate "a" 0 ⟨none, true, 0, 2⟩

def sampleProgress (processedFiles failedFiles : Int64) : Call :=
  .progress 0 processedFiles failedFiles ⟨true, .done, true, .done⟩

/-- The two files, one after the other. -/
def sampleCalls : List Call := [sampleInitiate, sampleProgress 1 0, sampleProgress 2 0]

theorem rotation_states_sample :
    Run.Each step Taken sampleStore sampleCalls ∧
      ∀ pre mid post, sampleCalls = pre ++ (mid ++ post) →
        Proper (pre.foldl step sampleStore)
          ∧ KeepsEnded (pre.foldl step sampleStore) ((pre ++ mid).foldl step sampleStore) :=
  have htaken : Run.Each step Taken sampleStore sampleCalls := by decide
  ⟨htaken, (rotation_states sampleStore_proper sampleCalls).mpr htaken⟩

/-- The first report arrives again after the last: the completed job is in
progress. -/
theorem rotation_reopened :
    ¬∀ (s : Store) (calls : List Call), Proper s → ∀ pre mid post, calls = pre ++ (mid ++ post) →
      Proper (pre.foldl step s)
        ∧ KeepsEnded (pre.foldl step s) ((pre ++ mid).foldl step s) := by
  intro h
  have hkeeps := (h sampleStore [sampleInitiate, sampleProgress 2 0, sampleProgress 1 0]
    sampleStore_proper [sampleInitiate, sampleProgress 2 0] [sampleProgress 1 0] [] rfl).2
  revert hkeeps
  decide

end UsbVault.Rotation
