import UsbVault.Lib.Rfc3339
import UsbVault.Lib.Utf8

/-!
# Audit log

`internal/audit/service.go` over the tables `audit_log` and
`audit_log_archive`: `LogAction`, and `VerifyChain` with its batches. A call of
`LogAction` is one step. Its advisory lock makes it so beside other calls; the
batches of `ArchiveOldAuditLogs` take no lock, and none of them falls between
its reading of the last hash and its INSERT.

Times are in nanoseconds since the epoch. `column` is what a timestamp column
gives back of a time, and the driver returns it in the zone of the server.
Identifiers are numbers. The log lines are left out.
-/

namespace UsbVault.Audit

open Wire

abbrev UserID := Nat

/-- The columns of `audit_log` but for the key. -/
structure Entry where
  userID : UserID
  actionType : String
  encryptedDetail : Option Bytes
  timestamp : Int
  prevHash : Bytes
  hash : Bytes
  deriving DecidableEq

structure Row extends Entry where
  id : Nat
  deriving DecidableEq

/-- The partitions of `audit_log` reach from 2024 to the end of 2027. -/
def InPartition (timestamp : Int) : Prop :=
  1704067200000000000 ≤ timestamp ∧ timestamp < 1830297600000000000

instance (timestamp : Int) : Decidable (InPartition timestamp) :=
  inferInstanceAs (Decidable (_ ∧ _))

/-- The zone of the server: an offset in minutes at each time. -/
structure Zone where
  offset : Int → Int
  bounded : ∀ t, -1440 < offset t ∧ offset t < 1440

def Zone.utc : Zone := ⟨fun _ => 0, by simp⟩

/-! ## The tables -/

/-- The table `audit_log` in the order of its keys, and their `BIGSERIAL`. -/
structure AuditLog where
  rows : List Row
  drawn : Nat
  ordered : rows.Pairwise fun a b => a.id < b.id
  bounded : ∀ row ∈ rows, 0 < row.id ∧ row.id ≤ drawn
  partitioned : ∀ row ∈ rows, InPartition row.timestamp

namespace AuditLog

def empty : AuditLog := ⟨[], 0, .nil, by simp, by simp⟩

/-- A key that is drawn and not used. -/
def draw (log : AuditLog) : AuditLog :=
  { log with
    drawn := log.drawn + 1
    bounded := fun row h => by
      have hrow := log.bounded row h
      omega }

def insert (log : AuditLog) (e : Entry) (h : InPartition e.timestamp) : AuditLog where
  rows := log.rows ++ [{ e with id := log.drawn + 1 }]
  drawn := log.drawn + 1
  ordered := by
    refine List.pairwise_append.mpr ⟨log.ordered, List.pairwise_singleton _ _, ?_⟩
    intro a ha b hb
    obtain rfl := List.mem_singleton.mp hb
    have hrow := log.bounded a ha
    show a.id < log.drawn + 1
    omega
  bounded := by
    intro row hrow
    rcases List.mem_append.mp hrow with hrow | hrow
    · have hle := log.bounded row hrow
      omega
    · obtain rfl := List.mem_singleton.mp hrow
      simp
  partitioned := by
    intro row hrow
    rcases List.mem_append.mp hrow with hrow | hrow
    · exact log.partitioned row hrow
    · obtain rfl := List.mem_singleton.mp hrow
      exact h

/-- Delete the rows whose key is in the list. -/
def delete (log : AuditLog) (ids : List Nat) : AuditLog where
  rows := log.rows.filter fun row => row.id ∉ ids
  drawn := log.drawn
  ordered := log.ordered.filter _
  bounded := fun row h => log.bounded row (List.mem_of_mem_filter h)
  partitioned := fun row h => log.partitioned row (List.mem_of_mem_filter h)

def ofUser (log : AuditLog) (userID : UserID) : List Row :=
  log.rows.filter fun row => row.userID = userID

/-- The hash of the user's last row. -/
def lastHash (log : AuditLog) (userID : UserID) : Option Bytes :=
  ((log.ofUser userID).getLast?).map fun row => row.hash

/-- The previous hash of the user's next row. -/
def nextPrevHash (log : AuditLog) (userID : UserID) : Bytes :=
  (log.lastHash userID).getD (List.replicate 32 0)

/-- The user's rows after a key, up to a limit. -/
def query (log : AuditLog) (userID : UserID) (lastID limit : Nat) : List Row :=
  ((log.ofUser userID).filter fun row => lastID < row.id).take limit

end AuditLog

/-- A row as it was written, and the time its call has read. -/
structure Written where
  row : Row
  now : Int

/-- Both tables. The rest is history: what was written, and the rows that were
deleted from the archive, each with the cutoff it was deleted by. -/
structure Db where
  auditLog : AuditLog
  archive : List Row
  written : List Written
  purged : List (Row × Int)

def Db.empty : Db := ⟨.empty, [], [], []⟩

/-! ## Hashing -/

/-- `prev_hash || action_type || encrypted_detail || timestamp` -/
def hashInput (prevHash : Bytes) (actionType : String) (encryptedDetail : Option Bytes)
    (timestamp : Bytes) : Bytes :=
  prevHash ++ (Utf8.encode actionType.toList ++ (encryptedDetail.getD [] ++ timestamp))

/-! ## `LogAction` -/

/-- The arguments of a call, and the time it reads. -/
structure LogCall where
  userID : UserID
  actionType : String
  encryptedDetail : Option Bytes
  now : Int

/-- A commit that is lost has taken effect and is reported as failed. -/
inductive Commit where
  | done
  | lost
  | failed
  deriving DecidableEq

/-- Which of the statements of a call the database carries out. -/
structure LogOutcome where
  begun : Bool
  locked : Bool
  queried : Bool
  inserted : Bool
  commit : Commit

/-- The error that `LogAction` returns is that of the statement. -/
inductive LogError where
  | begin
  | lock
  | insert
  | commit
  deriving DecidableEq

section

variable (sha256 : Bytes → ByteVec 32) (column : Int → Int)

/-- The row of a call after a previous hash. -/
def LogCall.entry (call : LogCall) (prevHash : Bytes) : Entry where
  userID := call.userID
  actionType := call.actionType
  encryptedDetail := call.encryptedDetail
  timestamp := column call.now
  prevHash := prevHash
  hash := (sha256 (hashInput prevHash call.actionType call.encryptedDetail
    (Rfc3339.format call.now 0))).toList

/-- `LogAction`. A query that fails for another reason than a missing row
leaves a transaction in which the insert fails. -/
def logAction (db : Db) (call : LogCall) (o : LogOutcome) : Except LogError Unit × Db :=
  if ¬o.begun then (.error .begin, db)
  else if ¬o.locked then (.error .lock, db)
  else
    let prevHash := db.auditLog.nextPrevHash call.userID
    let entry := call.entry sha256 column prevHash
    let drawn := { db with auditLog := db.auditLog.draw }
    if h : InPartition entry.timestamp then
      if ¬(o.queried ∧ o.inserted ∧ call.actionType.length ≤ 50) then
        (.error .insert, drawn)
      else
        let stored := { db with
          auditLog := db.auditLog.insert entry h
          written := db.written ++ [⟨{ entry with id := db.auditLog.drawn + 1 }, call.now⟩] }
        match o.commit with
        | .done => (.ok (), stored)
        | .lost => (.error .commit, stored)
        | .failed => (.error .commit, drawn)
    else (.error .insert, drawn)

end

/-! ## `VerifyChain` -/

/-- What goes wrong in a batch; an iteration may break off after some rows. -/
inductive Fault where
  | timedOut
  | query
  | iterate (read : Nat)

inductive VerifyError where
  | timedOut (totalEntries : Nat)
  | query (lastID : Nat)
  | iterate

section

variable (sha256 : Bytes → ByteVec 32) (zone : Zone)

/-- The hash that is computed from the columns of a row. -/
def computedHash (row : Row) : Bytes :=
  (sha256 (hashInput row.prevHash row.actionType row.encryptedDetail
    (Rfc3339.format row.timestamp (zone.offset row.timestamp)))).toList

/-- One row, against the hash of the row before it. -/
def verifyRow (expectedPrevHash : Bytes) (row : Row) : Option Bytes :=
  if expectedPrevHash.length > 0 ∧ expectedPrevHash ≠ row.prevHash then none
  else if computedHash sha256 zone row ≠ row.hash then none
  else some row.hash

def batchSize : Nat := 1000

/-- The batches of `VerifyChain` from `lastID` on; `none` is out of fuel. -/
def verifyBatches (log : AuditLog) (userID : UserID) (fault : Nat → Option Fault) :
    (fuel batch lastID : Nat) → (expectedPrevHash : Bytes) → (totalEntries : Nat) →
      Option (Except VerifyError Bool)
  | 0, _, _, _, _ => none
  | fuel + 1, batch, lastID, expectedPrevHash, totalEntries =>
    let rows := log.query userID lastID batchSize
    match fault batch with
    | some .timedOut => some (.error (.timedOut totalEntries))
    | some .query => some (.error (.query lastID))
    | some (.iterate read) =>
      match (rows.take read).foldlM (verifyRow sha256 zone) expectedPrevHash with
      | none => some (.ok false)
      | some _ => some (.error .iterate)
    | none =>
      match rows.foldlM (verifyRow sha256 zone) expectedPrevHash with
      | none => some (.ok false)
      | some expectedPrevHash =>
        if rows.length < batchSize then some (.ok true)
        else verifyBatches log userID fault fuel (batch + 1)
          ((rows.getLast?.map fun row => row.id).getD lastID) expectedPrevHash
          (totalEntries + rows.length)

/-- `VerifyChain`, with the fuel that is always enough. -/
def verifyChain (log : AuditLog) (userID : UserID) (fault : Nat → Option Fault) :
    Option (Except VerifyError Bool) :=
  verifyBatches sha256 zone log userID fault (log.rows.length + 1) 0 0 [] 0

end

end UsbVault.Audit
