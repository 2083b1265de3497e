import UsbVault.Audit.Verify

/-!
# Completeness

Whether `VerifyChain` accepts what `LogAction` writes. The rows of a user are
linked after every run (`LogOk`). The hash is computed from the time of the
clock, in nanoseconds and in UTC, and computed again from the time that the
column gives back, in microseconds and in the zone of the server: the chain is
accepted just when both texts are the same for every row
(`chain_accepted_iff`).
-/

namespace UsbVault.Audit

open Wire

variable {sha256 : Bytes → ByteVec 32} {zone : Zone} {column : Int → Int}

/-- A timestamp column keeps microseconds. -/
def microseconds (t : Int) : Int := t / 1000 * 1000

/-! ## What a call writes -/

/-- The call of `LogAction` leaves a row. -/
def LogCall.Stores (column : Int → Int) (call : LogCall) (o : LogOutcome) : Prop :=
  (o.begun ∧ o.locked) ∧ InPartition (column call.now)
    ∧ (o.queried ∧ o.inserted ∧ call.actionType.length ≤ 50) ∧ o.commit ≠ .failed

instance (call : LogCall) (o : LogOutcome) : Decidable (call.Stores column o) :=
  inferInstanceAs (Decidable (_ ∧ _))

/-- What `LogAction` does to the tables: nothing, or one row more. -/
theorem logAction_cases (sha256 : Bytes → ByteVec 32) (column : Int → Int) (db : Db)
    (call : LogCall) (o : LogOutcome) :
    let db' := (logAction sha256 column db call o).2
    db'.archive = db.archive ∧ db'.purged = db.purged
      ∧ ((¬call.Stores column o ∧ db'.auditLog.rows = db.auditLog.rows
          ∧ db'.written = db.written ∧ db.auditLog.drawn ≤ db'.auditLog.drawn)
        ∨ (call.Stores column o ∧ ∃ row : Row,
          row.toEntry
            = call.entry sha256 column (db.auditLog.nextPrevHash call.userID)
          ∧ row.id = db.auditLog.drawn + 1 ∧ db'.auditLog.drawn = row.id
          ∧ db'.auditLog.rows = db.auditLog.rows ++ [row]
          ∧ db'.written = db.written ++ [⟨row, call.now⟩])) := by
  unfold logAction LogCall.Stores
  have hentry : InPartition (call.entry sha256 column
      (db.auditLog.nextPrevHash call.userID)).timestamp
        ↔ InPartition (column call.now) := Iff.rfl
  by_cases hbegun : o.begun
  · by_cases hlocked : o.locked
    · by_cases hpart : InPartition (column call.now)
      · by_cases hinsert : o.queried ∧ o.inserted ∧ call.actionType.length ≤ 50
        · simp only [hbegun, hlocked, hinsert, dif_pos (hentry.mpr hpart),
            not_true_eq_false, if_false]
          cases hcommit : o.commit with
          | failed => exact ⟨rfl, rfl, .inl ⟨by simp, rfl, rfl, Nat.le_succ _⟩⟩
          | _ => exact ⟨rfl, rfl, .inr ⟨by simp [hpart], _, rfl, rfl, rfl, rfl, rfl⟩⟩
        · simp [hbegun, hlocked, hinsert, AuditLog.draw]
      · simp [hbegun, hlocked, hpart, hentry, AuditLog.draw]
    · simp [hbegun, hlocked]
  · simp [hbegun]

/-! ## Runs -/

/-- A run of `LogAction` calls, in the order the lock gives them. -/
def logRun (sha256 : Bytes → ByteVec 32) (column : Int → Int)
    (calls : List (LogCall × LogOutcome)) : Db :=
  calls.foldl (fun db c => (logAction sha256 column db c.1 c.2).2) .empty

/-- What `LogAction` has hashed, and what `VerifyChain` hashes. -/
def Written.hashInput (w : Written) : Bytes :=
  Audit.hashInput w.row.prevHash w.row.actionType w.row.encryptedDetail
    (Rfc3339.format w.now 0)

def Row.hashInput (zone : Zone) (row : Row) : Bytes :=
  Audit.hashInput row.prevHash row.actionType row.encryptedDetail
    (Rfc3339.format row.timestamp (zone.offset row.timestamp))

/-- The hash of a row is that of its call, and its time that of the column. -/
def Written.Sound (sha256 : Bytes → ByteVec 32) (column : Int → Int) (w : Written) : Prop :=
  w.row.hash = (sha256 w.hashInput).toList ∧ w.row.timestamp = column w.now

/-- The rows of each user are linked, and each comes from a call. -/
structure LogOk (sha256 : Bytes → ByteVec 32) (column : Int → Int) (db : Db) : Prop where
  linked : ∀ userID, (db.auditLog.ofUser userID).IsChain fun a b => a.hash = b.prevHash
  sound : ∀ w ∈ db.written, w.Sound sha256 column

theorem AuditLog.nextPrevHash_of_last {log : AuditLog} {userID : UserID} {last : Row}
    (h : last ∈ (log.ofUser userID).getLast?) : log.nextPrevHash userID = last.hash := by
  rw [AuditLog.nextPrevHash, AuditLog.lastHash, Option.mem_def.mp h]
  rfl

/-- A row at the end that carries the last hash keeps the rows linked. -/
theorem linked_append {log log' : AuditLog} {row : Row} (hrows : log'.rows = log.rows ++ [row])
    (hprev : row.prevHash = log.nextPrevHash row.userID)
    (h : ∀ userID, (log.ofUser userID).IsChain fun a b => a.hash = b.prevHash)
    (userID : UserID) : (log'.ofUser userID).IsChain fun a b => a.hash = b.prevHash := by
  have hsplit : log'.ofUser userID
      = log.ofUser userID ++ [row].filter fun row => row.userID = userID := by
    rw [AuditLog.ofUser, hrows, List.filter_append]
    rfl
  rw [hsplit]
  by_cases huser : row.userID = userID
  · rw [List.filter_singleton]
    simp only [huser, decide_true]
    refine List.isChain_append.mpr ⟨h userID, List.isChain_singleton _, ?_⟩
    intro last hlast next hnext
    obtain rfl : row = next := by simpa using hnext
    rw [hprev, huser]
    exact (AuditLog.nextPrevHash_of_last hlast).symm
  · simpa [huser] using h userID

theorem LogOk.logAction {db : Db} (h : LogOk sha256 column db) (call : LogCall)
    (o : LogOutcome) : LogOk sha256 column (logAction sha256 column db call o).2 := by
  obtain ⟨-, -, ⟨-, hrows, hwritten, -⟩ | ⟨-, row, hentry, -, -, hrows, hwritten⟩⟩ :=
    logAction_cases sha256 column db call o
  · constructor
    · intro userID
      rw [AuditLog.ofUser, hrows]
      exact h.linked userID
    · rw [hwritten]
      exact h.sound
  · have hprev : row.prevHash = db.auditLog.nextPrevHash row.userID := by
      rw [hentry]
      rfl
    refine ⟨linked_append hrows hprev h.linked, ?_⟩
    rw [hwritten]
    intro w hw
    rcases List.mem_append.mp hw with hw | hw
    · exact h.sound w hw
    · obtain rfl := List.mem_singleton.mp hw
      constructor
      · show row.hash = (sha256 (Audit.hashInput row.prevHash row.actionType
          row.encryptedDetail (Rfc3339.format call.now 0))).toList
        rw [hentry]
        rfl
      · show row.timestamp = column call.now
        rw [hentry]
        rfl

theorem LogOk.empty : LogOk sha256 column .empty :=
  ⟨fun _ => .nil, by simp [Db.empty]⟩

/-- A run without archiving: all rows written are in the table, and they are
those of the calls that store one. -/
structure Logged (column : Int → Int) (calls : List (LogCall × LogOutcome)) (db : Db) :
    Prop where
  rows_eq : db.auditLog.rows = db.written.map fun w => w.row
  calls_iff : ∀ userID now, (∃ w ∈ db.written, w.row.userID = userID ∧ w.now = now)
    ↔ ∃ c ∈ calls, c.1.Stores column c.2 ∧ c.1.userID = userID ∧ c.1.now = now

theorem Logged.logAction {calls : List (LogCall × LogOutcome)} {db : Db}
    (h : Logged column calls db) (call : LogCall) (o : LogOutcome) :
    Logged column (calls ++ [(call, o)]) (logAction sha256 column db call o).2 := by
  obtain ⟨-, -, ⟨hstores, hrows, hwritten, -⟩ | ⟨hstores, row, hentry, -, -, hrows, hwritten⟩⟩ :=
    logAction_cases sha256 column db call o
  · constructor
    · rw [hrows, hwritten, h.rows_eq]
    · intro userID now
      rw [hwritten, h.calls_iff]
      simp [hstores, or_and_right, exists_or]
  · have huser : row.userID = call.userID := by
      rw [hentry]
      rfl
    constructor
    · rw [hrows, hwritten, h.rows_eq, List.map_append]
      rfl
    · intro userID now
      have hiff := h.calls_iff userID now
      rw [hwritten]
      simp only [List.mem_append, List.mem_singleton, or_and_right, exists_or,
        exists_eq_left, hiff, huser, hstores, true_and]

theorem logRun_ok (sha256 : Bytes → ByteVec 32) (column : Int → Int)
    (calls : List (LogCall × LogOutcome)) :
    LogOk sha256 column (logRun sha256 column calls)
      ∧ Logged column calls (logRun sha256 column calls) := by
  induction calls using List.reverseRecOn with
  | nil => exact ⟨.empty, rfl, by simp [logRun, Db.empty]⟩
  | append_singleton calls c ih =>
    obtain ⟨hok, hlogged⟩ := ih
    rw [logRun, List.foldl_append]
    exact ⟨hok.logAction c.1 c.2, hlogged.logAction c.1 c.2⟩

/-! ## Round trips -/

/-- The time comes back as it was hashed. -/
def RoundTrips (zone : Zone) (column : Int → Int) (now : Int) : Prop :=
  column now = now ∧ zone.offset now = 0

/-- All that is hashed over the rows written. -/
def hashedInputs (zone : Zone) (db : Db) : Set Bytes :=
  {x | ∃ w ∈ db.written, x = w.hashInput ∨ x = w.row.hashInput zone}

/-- The hash of a row is computed again just when its time comes back. -/
theorem Written.Sound.computed_iff {w : Written} (h : w.Sound sha256 column)
    (hsha : sha256 (w.row.hashInput zone) = sha256 w.hashInput →
      w.row.hashInput zone = w.hashInput) :
    computedHash sha256 zone w.row = w.row.hash ↔ RoundTrips zone column w.now := by
  have hcomputed : computedHash sha256 zone w.row
      = (sha256 (w.row.hashInput zone)).toList := rfl
  rw [hcomputed, h.1]
  constructor
  · intro heq
    have htexts := hsha (List.Vector.toList_injective heq)
    simp only [Row.hashInput, Written.hashInput, Audit.hashInput, List.append_cancel_left_eq]
      at htexts
    obtain ⟨htime, hzone⟩ := Rfc3339.format_inj htexts
    rw [htime] at hzone
    exact ⟨h.2.symm.trans htime, hzone⟩
  · rintro ⟨htime, hzone⟩
    rw [Row.hashInput, Written.hashInput, h.2, htime, hzone]

theorem microseconds_eq_iff (t : Int) : microseconds t = t ↔ t % 1000 = 0 := by
  rw [microseconds]
  omega

/-- The rows of a user are accepted when the times come back, and, without
collisions, only then. -/
theorem accepted_iff_roundTrips {db : Db} (hok : LogOk sha256 column db)
    (hrows : db.auditLog.rows = db.written.map fun w => w.row) (userID : UserID) :
    ((∀ w ∈ db.written, w.row.userID = userID → RoundTrips zone column w.now) →
        Accepted sha256 zone (db.auditLog.ofUser userID))
      ∧ (Set.InjOn sha256 (hashedInputs zone db) →
        Accepted sha256 zone (db.auditLog.ofUser userID) →
        ∀ w ∈ db.written, w.row.userID = userID → RoundTrips zone column w.now) := by
  constructor
  · intro htrips
    refine ⟨fun row hrow => ?_, hok.linked userID⟩
    obtain ⟨hmem, huser⟩ := List.mem_filter.mp hrow
    rw [hrows] at hmem
    obtain ⟨w, hw, rfl⟩ := List.mem_map.mp hmem
    have htrip := htrips w hw (by simpa using huser)
    have hsound := hok.sound w hw
    refine (hsound.computed_iff fun _ => ?_).mpr htrip
    rw [Row.hashInput, Written.hashInput, hsound.2, htrip.1, htrip.2]
  · intro hinj hacc w hw huser
    have hmem : w.row ∈ db.auditLog.ofUser userID := by
      refine List.mem_filter.mpr ⟨?_, by simpa using huser⟩
      rw [hrows]
      exact List.mem_map_of_mem hw
    exact ((hok.sound w hw).computed_iff (hinj ⟨w, hw, .inr rfl⟩ ⟨w, hw, .inl rfl⟩)).mp
      (hacc.computed w.row hmem)

/-- **When the chain is complete**: `VerifyChain` accepts the rows of a user
when the clock gave each a whole number of microseconds and the zone of the
server was at UTC then; and, when no two of the inputs hashed collide, only
then. -/
theorem chain_accepted_iff (sha256 : Bytes → ByteVec 32) (zone : Zone)
    (calls : List (LogCall × LogOutcome)) (userID : UserID) :
    let db := logRun sha256 microseconds calls
    let accepts := verifyChain sha256 zone db.auditLog userID (fun _ => none)
      = some (.ok true)
    let timesReturn := ∀ c ∈ calls, c.1.Stores microseconds c.2 → c.1.userID = userID →
      c.1.now % 1000 = 0 ∧ zone.offset c.1.now = 0
    (timesReturn → accepts)
      ∧ (Set.InjOn sha256 (hashedInputs zone db) → accepts → timesReturn) := by
  intro db accepts timesReturn
  obtain ⟨hok, hlogged⟩ := logRun_ok sha256 microseconds calls
  have haccepts : accepts ↔ Accepted sha256 zone (db.auditLog.ofUser userID) :=
    verifyChain_true
  have htimes : timesReturn ↔ ∀ w ∈ db.written, w.row.userID = userID →
      RoundTrips zone microseconds w.now := by
    constructor
    · intro h w hw huser
      obtain ⟨c, hc, hstores, huser', hnow⟩ :=
        (hlogged.calls_iff userID w.now).mp ⟨w, hw, huser, rfl⟩
      obtain ⟨htime, hzone⟩ := h c hc hstores huser'
      rw [← hnow]
      exact ⟨(microseconds_eq_iff _).mpr htime, hzone⟩
    · intro h c hc hstores huser
      obtain ⟨w, hw, huser', hnow⟩ :=
        (hlogged.calls_iff userID c.1.now).mpr ⟨c, hc, hstores, huser, rfl⟩
      obtain ⟨htime, hzone⟩ := h w hw huser'
      rw [hnow] at htime hzone
      exact ⟨(microseconds_eq_iff _).mp htime, hzone⟩
  rw [haccepts, htimes]
  exact accepted_iff_roundTrips hok hlogged.rows_eq userID

/-- A digest that tells inputs of different lengths apart. -/
def lengthHash (bs : Bytes) : ByteVec 32 := List.Vector.replicate 32 (UInt8.ofNat bs.length)

def LogOutcome.success : LogOutcome := ⟨true, true, true, true, .done⟩

/-- An hour ahead of UTC. -/
def Zone.hourAhead : Zone := ⟨fun _ => 60, by simp⟩

/-- One row, at a time with a nanosecond too many, or read an hour ahead of UTC. -/
theorem stored_time_rejected :
    verifyChain lengthHash .utc (logRun lengthHash microseconds
        [(⟨1, "LOGIN", none, 1704067200000000001⟩, .success)]).auditLog 1 (fun _ => none)
      = some (.ok false)
    ∧ verifyChain lengthHash .hourAhead (logRun lengthHash microseconds
        [(⟨1, "LOGIN", none, 1704067200000000000⟩, .success)]).auditLog 1 (fun _ => none)
      = some (.ok false) := by
  exact ⟨verifyChain_false.mpr (by decide +kernel), verifyChain_false.mpr (by decide +kernel)⟩

end UsbVault.Audit
