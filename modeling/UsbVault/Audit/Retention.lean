import UsbVault.Lib.Calls
import UsbVault.Audit.Completeness

/-!
# Retention

`ArchiveOldAuditLogs`, called any number of times and running side by side
with `LogAction`, each batch one statement. The rows of a batch are chosen by
their timestamps and taken in the order of their keys, over all users; the
chain links rows in the order of their keys. So a batch can take a row from
the middle of a user's log, and what is left does not verify
(`middle_archived`). Where no batch does, the logs stay verifiable, and every
row is in one of the tables until it is deleted from the archive
(`retention_safe`).

A call of `LogAction` is one step, beside the batches too. Timestamps are
stored exactly here, and the server is at UTC.
-/

namespace UsbVault.Audit

open Wire Calls

/-! ## The function -/

def archiveBatchSize : Nat := 500

/-- Where a call of `ArchiveOldAuditLogs` stands. -/
inductive Phase where
  | deleting
  | archiving
  | returned (failed : Bool)
  deriving DecidableEq

structure Job where
  phase : Phase
  archiveCutoff : Int
  deleteCutoff : Int
  archived : Nat
  deleted : Nat
  deriving DecidableEq

/-- `time.Now().AddDate(0, 0, -days)` -/
def daysBefore (now days : Int) : Int := now - days * 86400000000000

/-- The call up to its first statement; it reads the clock twice. -/
def archiveOldAuditLogs (now now' retentionDays archiveRetentionDays : Int) :
    Except String Job :=
  if retentionDays ≤ 0 then .error "retentionDays must be positive"
  else if archiveRetentionDays ≤ retentionDays then
    .error "archiveRetentionDays must be greater than retentionDays"
  else .ok ⟨.deleting, daysBefore now retentionDays, daysBefore now' archiveRetentionDays,
    0, 0⟩

/-- `DELETE FROM audit_log_archive WHERE timestamp < cutoff LIMIT n`: at most
`n` of the rows that match. Which of them is not said; `picked` is a choice. -/
def Db.expired (db : Db) (cutoff : Int) (picked : List Nat) : List Row :=
  (db.archive.filter fun row => row.timestamp < cutoff ∧ row.id ∈ picked).take
    archiveBatchSize

def Db.deleteExpired (db : Db) (cutoff : Int) (picked : List Nat) : Db :=
  let gone := db.expired cutoff picked
  { db with
    archive := db.archive.filter fun row => row ∉ gone
    purged := db.purged
      ++ (db.archive.filter fun row => row ∈ gone).map fun row => (row, cutoff) }

/-- `SELECT id FROM audit_log WHERE timestamp < cutoff ORDER BY id LIMIT n` -/
def AuditLog.oldest (log : AuditLog) (cutoff : Int) : List Nat :=
  ((log.rows.filter fun row => row.timestamp < cutoff).take archiveBatchSize).map (·.id)

/-- The rows that the statement moves. -/
def AuditLog.moved (log : AuditLog) (cutoff : Int) : List Row :=
  log.rows.filter fun row => row.id ∈ log.oldest cutoff

/-- Move them to the archive, unless a key is there already. -/
def Db.archiveOldest (db : Db) (cutoff : Int) : Option Db :=
  if (db.auditLog.moved cutoff).any fun row => db.archive.any fun old => old.id = row.id then
    none
  else some { db with
    auditLog := db.auditLog.delete (db.auditLog.oldest cutoff)
    archive := db.archive ++ db.auditLog.moved cutoff }

/-- Whether the database carries a statement out, and the choice it makes. -/
structure BatchOutcome where
  ok : Bool
  picked : List Nat

/-- The next batch of a call. -/
def Job.exec (db : Db) (job : Job) (o : BatchOutcome) : Db × Job :=
  match job.phase with
  | .returned _ => (db, job)
  | .deleting =>
    if o.ok then
      let count := (db.expired job.deleteCutoff o.picked).length
      (db.deleteExpired job.deleteCutoff o.picked,
        { job with
          deleted := job.deleted + count
          phase := if count < archiveBatchSize then .archiving else .deleting })
    else (db, { job with phase := .returned true })
  | .archiving =>
    match o.ok, db.archiveOldest job.archiveCutoff with
    | true, some db' =>
      let count := (db.auditLog.moved job.archiveCutoff).length
      (db', { job with
        archived := job.archived + count
        phase := if count < archiveBatchSize then .returned false else .archiving })
    | _, _ => (db, { job with phase := .returned true })

/-- What arrives from outside. -/
inductive Event where
  | logAction (call : LogCall) (o : LogOutcome)
  | archiveOldAuditLogs (now now' retentionDays archiveRetentionDays : Int)

/-- The service, with a column that keeps times exactly. -/
def retention (sha256 : Bytes → ByteVec 32) : Service Db Job Event BatchOutcome where
  world db
    | .logAction call o => ((logAction sha256 id db call o).2, none)
    | .archiveOldAuditLogs now now' days archiveDays =>
      (db, (archiveOldAuditLogs now now' days archiveDays).toOption)
  exec _ db job o := job.exec db o

abbrev State := Calls.State Db Job

abbrev Action := Calls.Action Event BatchOutcome

def start : State := ⟨.empty, []⟩

/-! ## What is kept -/

/-- A row is in exactly one of the tables, or it has been deleted from the
archive after its cutoff. -/
def Placed (db : Db) (row : Row) : Prop :=
  (row ∈ db.auditLog.rows ∧ row ∉ db.archive)
    ∨ (row ∉ db.auditLog.rows ∧ row ∈ db.archive)
    ∨ (row ∉ db.auditLog.rows ∧ row ∉ db.archive
      ∧ ∃ cutoff, (row, cutoff) ∈ db.purged ∧ row.timestamp < cutoff)

/-- Every user's log verifies, and every row is accounted for. -/
structure Retained (sha256 : Bytes → ByteVec 32) (db : Db) : Prop where
  verifies : ∀ userID,
    verifyChain sha256 .utc db.auditLog userID (fun _ => none) = some (.ok true)
  placed : ∀ w ∈ db.written, Placed db w.row

/-- A batch takes no row from between two rows of its user that it leaves. -/
def TakesNoMiddle (log : AuditLog) (cutoff : Int) : Prop :=
  ∀ a ∈ log.rows, ∀ m ∈ log.rows, ∀ b ∈ log.rows,
    a.userID = m.userID → b.userID = m.userID → a.id < m.id → m.id < b.id →
      m.id ∈ log.oldest cutoff → a.id ∈ log.oldest cutoff ∨ b.id ∈ log.oldest cutoff

instance (log : AuditLog) (cutoff : Int) : Decidable (TakesNoMiddle log cutoff) := by
  unfold TakesNoMiddle
  infer_instance

/-- The condition on one action: an archiving batch takes no row from the
middle. -/
def Orderly (s : State) : Action → Prop
  | .world _ => True
  | .exec k o => ∀ job ∈ s.calls[k]?, job.phase = .archiving → o.ok = true →
      TakesNoMiddle s.store.auditLog job.archiveCutoff

instance (s : State) : (a : Action) → Decidable (Orderly s a)
  | .world _ => isTrue trivial
  | .exec k _ => inferInstanceAs (Decidable (∀ job ∈ s.calls[k]?, _))

/-! ## The invariant -/

/-- Every row written is in one place, under a key of its own. -/
structure Conserved (db : Db) : Prop where
  places : (db.auditLog.rows ++ (db.archive ++ db.purged.map fun p => p.1)).Perm
    (db.written.map fun w => w.row)
  keys : (db.written.map fun w => w.row.id).Nodup
  bounded : ∀ w ∈ db.written, w.row.id ≤ db.auditLog.drawn
  cutoffs : ∀ p ∈ db.purged, p.1.timestamp < p.2

variable {sha256 : Bytes → ByteVec 32}

theorem Conserved.nodup {db : Db} (h : Conserved db) :
    (db.auditLog.rows ++ (db.archive ++ db.purged.map fun p => p.1)).Nodup := by
  rw [h.places.nodup_iff]
  refine List.Nodup.of_map (fun row => row.id) ?_
  rw [List.map_map]
  exact h.keys

theorem Conserved.placed {db : Db} (h : Conserved db) {w : Written}
    (hw : w ∈ db.written) : Placed db w.row := by
  have hmem : w.row ∈ db.auditLog.rows ++ (db.archive ++ db.purged.map fun p => p.1) :=
    h.places.mem_iff.mpr (List.mem_map_of_mem hw)
  obtain ⟨-, hrest, hlog⟩ := List.nodup_append.mp h.nodup
  obtain ⟨-, -, harchive⟩ := List.nodup_append.mp hrest
  by_cases hinLog : w.row ∈ db.auditLog.rows
  · refine .inl ⟨hinLog, fun hin => ?_⟩
    exact hlog _ hinLog _ (List.mem_append_left _ hin) rfl
  · rcases List.mem_append.mp ((List.mem_append.mp hmem).resolve_left hinLog) with hin | hin
    · exact .inr (.inl ⟨hinLog, hin⟩)
    · obtain ⟨p, hp, hrow⟩ := List.mem_map.mp hin
      refine .inr (.inr ⟨hinLog, fun hin' => harchive _ hin' _ hin rfl, p.2, ?_, ?_⟩)
      · rw [← hrow]
        exact hp
      · rw [← hrow]
        exact h.cutoffs p hp

theorem Conserved.logAction {db : Db} (h : Conserved db) (call : LogCall) (o : LogOutcome) :
    Conserved (logAction sha256 id db call o).2 := by
  obtain ⟨harchive, hpurged, ⟨-, hrows, hwritten, hdrawn⟩ |
      ⟨-, row, -, hid, hdrawn, hrows, hwritten⟩⟩ :=
    logAction_cases sha256 id db call o
  · constructor
    · rw [hrows, harchive, hpurged, hwritten]
      exact h.places
    · rw [hwritten]
      exact h.keys
    · rw [hwritten]
      exact fun w hw => (h.bounded w hw).trans hdrawn
    · rw [hpurged]
      exact h.cutoffs
  · constructor
    · rw [hrows, harchive, hpurged, hwritten, List.map_append]
      refine List.Perm.trans ?_ (h.places.append_right [row])
      rw [List.append_assoc, List.append_assoc]
      exact List.Perm.append_left _ List.perm_append_comm
    · rw [hwritten, List.map_append]
      refine List.nodup_append.mpr ⟨h.keys, List.nodup_singleton _, ?_⟩
      intro x hx y hy
      obtain ⟨w, hw, rfl⟩ := List.mem_map.mp hx
      obtain rfl : y = row.id := by simpa using hy
      have hle := h.bounded w hw
      omega
    · rw [hwritten]
      intro w hw
      rcases List.mem_append.mp hw with hw | hw
      · have hle := h.bounded w hw
        omega
      · obtain rfl := List.mem_singleton.mp hw
        exact hdrawn.ge
    · rw [hpurged]
      exact h.cutoffs

theorem perm_moved {taken kept xs : List Row} (h : (taken ++ kept).Perm xs)
    (ys zs : List Row) : (kept ++ (ys ++ taken ++ zs)).Perm (xs ++ (ys ++ zs)) := by
  rw [List.perm_iff_count] at h ⊢
  intro row
  have hrow := h row
  simp only [List.count_append] at hrow ⊢
  omega

theorem Conserved.deleteExpired {db : Db} (h : Conserved db) (cutoff : Int)
    (picked : List Nat) : Conserved (db.deleteExpired cutoff picked) := by
  let gone := db.expired cutoff picked
  have hmap : ((db.archive.filter fun row => row ∈ gone).map fun row => (row, cutoff)).map
      (fun p => p.1) = db.archive.filter fun row => row ∈ gone := by
    rw [List.map_map]
    exact List.map_id _
  constructor
  · have hsplit := List.filter_append_perm (fun row => decide (row ∈ gone)) db.archive
    have hmoved := perm_moved hsplit (db.purged.map fun p => p.1) []
    refine List.Perm.trans (List.Perm.append_left _ ?_) h.places
    show ((db.archive.filter fun row => row ∉ gone) ++ (db.purged ++ _).map fun p => p.1).Perm _
    rw [List.map_append, hmap]
    simpa using hmoved
  · exact h.keys
  · exact h.bounded
  · intro p hp
    rcases List.mem_append.mp hp with hp | hp
    · exact h.cutoffs p hp
    · obtain ⟨row, hrow, rfl⟩ := List.mem_map.mp hp
      have hgone : row ∈ gone := by simpa using List.of_mem_filter hrow
      have hmatch := List.of_mem_filter (List.mem_of_mem_take hgone)
      simp only [Bool.decide_and, Bool.and_eq_true, decide_eq_true_eq] at hmatch
      exact hmatch.1

theorem Conserved.archiveOldest {db db' : Db} (h : Conserved db) {cutoff : Int}
    (hdb : db.archiveOldest cutoff = some db') : Conserved db' := by
  unfold Db.archiveOldest at hdb
  split at hdb
  · cases hdb
  · obtain rfl := Option.some.inj hdb
    constructor
    · have hsplit := List.filter_append_perm
        (fun row => decide (row.id ∈ db.auditLog.oldest cutoff)) db.auditLog.rows
      have hmoved := perm_moved hsplit db.archive (db.purged.map fun p => p.1)
      refine List.Perm.trans ?_ h.places
      simpa [AuditLog.delete, AuditLog.moved] using hmoved
    · exact h.keys
    · exact h.bounded
    · exact h.cutoffs

/-! ## The chain -/

/-- What is left when nothing is taken from between two elements that stay is
one piece. -/
theorem filter_piece {α : Type} {p : α → Bool} {xs : List α}
    (h : ∀ x y z, [x, y, z].Sublist xs → p x = true → p z = true → p y = true) :
    xs.filter p <:+: xs := by
  induction xs with
  | nil => exact List.infix_rfl
  | cons x xs ih =>
    have htail := ih fun a b c hsub => h a b c (hsub.cons x)
    by_cases hx : p x = true
    · -- from the first that is taken on, all are
      have hdrop : ∀ c ∈ xs.dropWhile p, p c = false := by
        intro c hc
        cases hrest : xs.dropWhile p with
        | nil => simp [hrest] at hc
        | cons y ys =>
          have hy : p y = false := by
            have hhead := List.head?_dropWhile_not p xs
            rw [hrest] at hhead
            simpa using hhead
          rw [hrest] at hc
          rcases List.mem_cons.mp hc with rfl | hc
          · exact hy
          · by_contra hpc
            have hsub : [x, y, c].Sublist (x :: xs) := by
              have htwo : [y, c].Sublist (xs.dropWhile p) := by
                rw [hrest]
                exact (List.singleton_sublist.mpr hc).cons_cons y
              exact (htwo.trans (List.dropWhile_sublist p)).cons_cons x
            have hpy := h x y c hsub hx (by simpa using hpc)
            rw [hpy] at hy
            exact absurd hy (by decide)
      have hfilter : xs.filter p = xs.takeWhile p := by
        calc xs.filter p = (xs.takeWhile p ++ xs.dropWhile p).filter p := by
              rw [List.takeWhile_append_dropWhile]
          _ = xs.takeWhile p := by
              rw [List.filter_append,
                List.filter_eq_self.mpr fun c hc => List.mem_takeWhile_imp hc,
                List.filter_eq_nil_iff.mpr fun c hc => by simp [hdrop c hc],
                List.append_nil]
      rw [List.filter_cons_of_pos hx, hfilter]
      exact (List.cons_prefix_cons.mpr ⟨rfl, List.takeWhile_prefix p⟩).isInfix
    · rw [List.filter_cons_of_neg hx]
      exact List.infix_cons htail

/-- **A batch that takes no middle** leaves one piece of every user's log. -/
theorem ofUser_piece {log : AuditLog} {cutoff : Int} (h : TakesNoMiddle log cutoff)
    (userID : UserID) :
    (log.delete (log.oldest cutoff)).ofUser userID <:+: log.ofUser userID := by
  have hcomm : (log.delete (log.oldest cutoff)).ofUser userID
      = (log.ofUser userID).filter fun row => row.id ∉ log.oldest cutoff := by
    rw [AuditLog.ofUser, AuditLog.ofUser, AuditLog.delete, List.filter_filter,
      List.filter_filter]
    exact List.filter_congr fun row _ => Bool.and_comm _ _
  rw [hcomm]
  refine filter_piece fun a m b hsub ha hb => ?_
  have hordered := (log.ordered.filter fun row => decide (row.userID = userID)).sublist hsub
  have hmem : ∀ r ∈ [a, m, b], r ∈ log.rows ∧ r.userID = userID :=
    fun r hr => by simpa using List.mem_filter.mp (hsub.subset hr)
  obtain ⟨⟨ha', hua⟩, ⟨hm', hum⟩, ⟨hb', hub⟩⟩ :=
    And.intro (hmem a (by simp)) (And.intro (hmem m (by simp)) (hmem b (by simp)))
  simp only [List.pairwise_cons, List.mem_cons, List.not_mem_nil, or_false,
    forall_eq_or_imp, forall_eq] at hordered
  by_contra hm
  have htaken : m.id ∈ log.oldest cutoff := by simpa using hm
  rcases h a ha' m hm' b hb' (hua.trans hum.symm) (hub.trans hum.symm) hordered.1.1
    hordered.2.1 htaken with hgone | hgone
  · simp [hgone] at ha
  · simp [hgone] at hb

theorem Db.archiveOldest_eq {db db' : Db} {cutoff : Int}
    (h : db.archiveOldest cutoff = some db') :
    db'.auditLog = db.auditLog.delete (db.auditLog.oldest cutoff)
      ∧ db'.written = db.written := by
  unfold Db.archiveOldest at h
  split at h
  · cases h
  · obtain rfl := Option.some.inj h
    exact ⟨rfl, rfl⟩

theorem LogOk.archiveOldest {db db' : Db} {cutoff : Int} (h : LogOk sha256 id db)
    (hmiddle : TakesNoMiddle db.auditLog cutoff)
    (hdb : db.archiveOldest cutoff = some db') : LogOk sha256 id db' := by
  obtain ⟨hlog, hwritten⟩ := Db.archiveOldest_eq hdb
  constructor
  · intro userID
    obtain ⟨before, after, hpiece⟩ := ofUser_piece hmiddle userID
    have hlinked := h.linked userID
    rw [← hpiece] at hlinked
    rw [hlog]
    exact (List.isChain_append.mp (List.isChain_append.mp hlinked).1).2.1
  · rw [hwritten]
    exact h.sound

/-! ## Runs -/

/-- What holds in every state of an orderly run. -/
structure RetentionOk (sha256 : Bytes → ByteVec 32) (db : Db) : Prop where
  log : LogOk sha256 id db
  conserved : Conserved db

theorem RetentionOk.exec {db : Db} (h : RetentionOk sha256 db) (job : Job)
    (o : BatchOutcome) (hmiddle : job.phase = .archiving → o.ok →
      TakesNoMiddle db.auditLog job.archiveCutoff) :
    RetentionOk sha256 (job.exec db o).1 := by
  unfold Job.exec
  cases hphase : job.phase with
  | returned failed => exact h
  | deleting =>
    by_cases hok : o.ok
    · simp only [hok, if_true]
      exact ⟨⟨h.log.linked, h.log.sound⟩, h.conserved.deleteExpired _ _⟩
    · simpa [hok] using h
  | archiving =>
    cases hok : o.ok with
    | false => exact h
    | true =>
      cases hdb : db.archiveOldest job.archiveCutoff with
      | none => exact h
      | some db' =>
        exact ⟨h.log.archiveOldest (hmiddle hphase hok) hdb,
          h.conserved.archiveOldest hdb⟩

theorem RetentionOk.retained {db : Db} (h : RetentionOk sha256 db) :
    Retained sha256 db := by
  constructor
  · intro userID
    refine verifyChain_true.mpr ⟨fun row hrow => ?_, h.log.linked userID⟩
    have hmem : row ∈ db.written.map fun w => w.row :=
      h.conserved.places.mem_iff.mp
        (List.mem_append_left _ (List.mem_of_mem_filter hrow))
    obtain ⟨w, hw, rfl⟩ := List.mem_map.mp hmem
    have hsound := h.log.sound w hw
    exact (hsound.computed_iff fun _ => by
      rw [Row.hashInput, Written.hashInput, hsound.2]
      rfl).mpr ⟨rfl, rfl⟩
  · intro w hw
    exact h.conserved.placed hw

theorem RetentionOk.start : RetentionOk sha256 .empty :=
  ⟨.empty, List.Perm.nil, List.nodup_nil, by simp [Db.empty], by simp [Db.empty]⟩

/-- **Retention keeps the logs verifiable** in the runs in which no archiving
batch takes a row from between two rows of its user that it leaves. -/
theorem retention_safe (sha256 : Bytes → ByteVec 32) (actions : List Action)
    (hrun : Run.Each (retention sha256).step Orderly start actions) :
    Retained sha256 ((retention sha256).run start actions).store := by
  let Inv : State → Prop := fun s => RetentionOk sha256 s.store
  have hinv : Inv ((retention sha256).run start actions) := by
    refine Service.preserves ?_ ?_ hrun .start
    · intro s e (h : Inv s) _
      cases e with
      | logAction call o => exact ⟨h.log.logAction call o, h.conserved.logAction call o⟩
      | archiveOldAuditLogs now now' days archiveDays => exact h
    · intro s k job o (h : Inv s) hok hk
      show RetentionOk sha256 ((retention sha256).step s (.exec k o)).store
      rw [Service.step_exec_store hk]
      exact h.exec job o (hok job hk)
  exact RetentionOk.retained hinv

/-! ## A row from the middle -/

/-- A login that succeeds, so many milliseconds after the start of 2024. -/
def login (actionType : String) (millis : Int) : Action :=
  .world (.logAction ⟨1, actionType, none, 1704067200000000000 + millis * 1000000⟩ .success)

/-- A retention of one day, a day and five milliseconds after that, and the two
first batches. -/
def archived : List Action :=
  [.world (.archiveOldAuditLogs 1704153600005000000 1704153600005000000 1 2),
    .exec 0 ⟨true, []⟩, .exec 0 ⟨true, []⟩]

theorem retention_safe_sample :
    Retained lengthHash ((retention lengthHash).run start
      ([login "A" 3, login "AB" 4, login "ABC" 7] ++ archived)).store :=
  retention_safe lengthHash _ (by decide +kernel)

/-- The clock of another server is behind by three milliseconds. -/
theorem middle_archived :
    ¬Retained lengthHash ((retention lengthHash).run start
      ([login "A" 6, login "AB" 4, login "ABC" 7] ++ archived)).store := by
  intro h
  have haccepted := verifyChain_true.mp (h.verifies 1)
  exact absurd haccepted (by decide +kernel)

end UsbVault.Audit
