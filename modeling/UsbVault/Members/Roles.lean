import Mathlib.Data.List.MinMax
import UsbVault.Lib.Calls
import UsbVault.Lib.Table
import UsbVault.Lib.Utf8

/-!
# Roles

Vaults and their members: `CreateVaultAtomic` with the tier it resolves
(`internal/vault/tier_enforcement.go`), `AssignRole`, `RemoveRole` and
`TransferOwnership` (`internal/auth/rbac.go`), and `DeleteVault`
(`internal/vault/repository.go`), running side by side over the tables
`vaults` and `vault_members` and the advisory locks. A vault has an owner in
each of the tables.

Vaults are numbered in the order of their `gen_random_uuid`; the users that
exist are an outcome of the statements that refer to them. Subscriptions and
the override column are fixed; times, metadata and `granted_by` are left out.
-/

namespace UsbVault.Members

open Tables

/-- The UUID as text. -/
abbrev UserID := String
abbrev VaultID := Nat

inductive Role where
  | owner
  | editor
  | viewer
  deriving DecidableEq, Repr

/-- The keys of `rolePermissions`. -/
def Role.ofString? : String → Option Role
  | "owner" => some .owner
  | "editor" => some .editor
  | "viewer" => some .viewer
  | _ => none

/-- `deleted` is `deleted_at IS NOT NULL`. -/
structure VaultRow where
  ownerID : UserID
  deleted : Bool
  deriving DecidableEq, Repr

/-! ## Tiers -/

/-- The enumeration `subscription_tier`. -/
inductive Tier where
  | free
  | individual
  | team
  | enterprise
  deriving DecidableEq, Repr

/-- The tiers of the active subscriptions of a user, and the column
`users.subscription_tier`, if there is a row. -/
structure Accounts where
  active : UserID → List Tier
  override : UserID → Option Tier

/-- The `ORDER BY CASE` of `ResolveTier`. -/
def tierRank : Tier → Nat
  | .free => 0
  | .individual => 1
  | .team => 2
  | .enterprise => 3

/-- `TierLimitsMap[tier].MaxVaults`; a negative number is no limit. -/
def maxVaults : Tier → Int
  | .free => 1
  | .individual => 5
  | .team => 50
  | .enterprise => -1

namespace Accounts

variable (accounts : Accounts) (userID : UserID)

/-- The active subscription of the highest tier. -/
def subTier : Option Tier := (accounts.active userID).argmax tierRank

/-- The tier of a user with no active subscription. -/
def overrideTier : Tier := (accounts.override userID).getD .free

/-- `ResolveTier`, when both of its queries answer. -/
def tier : Tier := (accounts.subTier userID).getD (accounts.overrideTier userID)

end Accounts

/-! ## The store -/

/-- The tables; who has each advisory lock; the vaults drawn. -/
structure Store where
  vaults : Table VaultID VaultRow
  members : Table (VaultID × UserID) Role
  advisory : Int64 → Option Nat
  drawn : Nat

/-- FNV-1a of the user, with a tag in the top byte. -/
def advisoryLockKey (userID : UserID) : Int64 :=
  let h : UInt64 := (Utf8.encode userID.toList).foldl
    (fun h b => (h ^^^ b.toUInt64) * 1099511628211) 1469598103934665603
  ((h &&& (0x00FFFFFFFFFFFFFF : UInt64)) ||| ((0x5A : UInt64) <<< (56 : UInt64))).toInt64

/-- The errors the code makes, and those of the database. -/
inductive Err where
  | errVaultLimitReached
  | text (message : String)
  | db
  deriving DecidableEq, Repr

inductive Outcome where
  | error
  | ok
  /-- the row a `LIMIT 1` delivers -/
  | row (userID : UserID)
  deriving DecidableEq, Repr

namespace Store

def empty : Store := ⟨.empty, .empty, fun _ => none, 0⟩

/-- A vault of the user that is not deleted. -/
def live (userID : UserID) (_ : VaultID) (row : VaultRow) : Bool :=
  row.ownerID = userID && !row.deleted

/-- `SELECT COUNT(*) FROM vaults` of a call's transaction. -/
def countVaults (s : Store) (call : Nat) (userID : UserID) : Nat :=
  (s.vaults.select call (live userID)).length

/-- The committed vaults of a user. -/
def liveVaults (s : Store) (userID : UserID) : Nat := s.vaults.count (live userID)

/-- A transaction ends, and its advisory locks are released. -/
def release (s : Store) (call : Nat) (key : Int64) : Option Nat :=
  (s.advisory key).filter (· ≠ call)

def commit (s : Store) (call : Nat) : Store where
  vaults := s.vaults.commit call
  members := s.members.commit call
  advisory := s.release call
  drawn := s.drawn

def rollback (s : Store) (call : Nat) : Store where
  vaults := s.vaults.rollback call
  members := s.members.rollback call
  advisory := s.release call
  drawn := s.drawn

/-- `SELECT user_id ... role = 'owner' LIMIT 1` -/
def existingOwner (s : Store) (call : Nat) (vaultID : VaultID) (o : Outcome) : Option UserID :=
  let owners := s.members.select call fun key role => key.1 = vaultID && role = .owner
  match o with
  | .row userID => if (vaultID, userID) ∈ owners then some userID else owners.head?.map (·.2)
  | _ => owners.head?.map (·.2)

end Store

/-! ## Calls -/

/-- `CreateVaultAtomic`. `failed` is history: a query of `ResolveTier` did. -/
inductive CreatePc where
  | subscription
  | override (failed : Bool)
  | begin (tier : Tier) (failed : Bool)
  /-- `pg_advisory_xact_lock` -/
  | lock (tier : Tier) (failed : Bool)
  | count (tier : Tier) (failed : Bool)
  | insertVault
  | insertOwner (vaultID : VaultID)
  | commit (vaultID : VaultID)
  | rollback (err : Err)
  | done (result : Except Err VaultID)
  deriving DecidableEq

/-- `AssignRole` -/
inductive AssignPc where
  | existingOwner
  | upsert (role : Role)
  | done (err : Option Err)
  deriving DecidableEq

/-- `RemoveRole` -/
inductive RemovePc where
  | checkRole
  | delete
  | done (err : Option Err)
  deriving DecidableEq

/-- `TransferOwnership` -/
inductive TransferPc where
  | verifyOwner
  | begin
  | removeOwner
  | assignOwner
  | commit
  | rollback (err : Err)
  | done (err : Option Err)
  deriving DecidableEq

/-- `DeleteVault` -/
inductive DeletePc where
  | update
  | done (err : Option Err)
  deriving DecidableEq

inductive Call where
  | createVault (userID : UserID) (pc : CreatePc)
  | assignRole (vaultID : VaultID) (userID : UserID) (pc : AssignPc)
  | removeRole (vaultID : VaultID) (userID : UserID) (pc : RemovePc)
  | transferOwnership (vaultID : VaultID) (fromUserID toUserID : UserID) (pc : TransferPc)
  | deleteVault (vaultID : VaultID) (pc : DeletePc)
  deriving DecidableEq

section

variable (accounts : Accounts) (s : Store) (k : Nat)

/-- A statement that meets a row or a lock of another transaction waits. -/
def execCreate (userID : UserID) (pc : CreatePc) (o : Outcome) : Store × CreatePc :=
  match pc with
  | .subscription =>
    (s,
      if o = .error then .override true
      else
        match accounts.subTier userID with
        | some tier => .begin tier false
        | none => .override false)
  | .override failed =>
    (s,
      if o = .error then .begin .free true else .begin (accounts.overrideTier userID) failed)
  | .begin tier failed => (s, if o = .error then .done (.error .db) else .lock tier failed)
  | .lock tier failed =>
    if o = .error then (s, .rollback .db)
    else if ∃ call ∈ s.advisory (advisoryLockKey userID), call ≠ k then (s, .lock tier failed)
    else
      ({ s with advisory := Function.update s.advisory (advisoryLockKey userID) (some k) },
        .count tier failed)
  | .count tier _ =>
    (s,
      if maxVaults tier < 0 then .insertVault
      else if o = .error then .rollback .errVaultLimitReached
      else if (s.countVaults k userID : Int) ≥ maxVaults tier then
        .rollback .errVaultLimitReached
      else .insertVault)
  | .insertVault =>
    if o = .error then (s, .rollback .db)
    else
      ({ s with vaults := s.vaults.write k s.drawn (some ⟨userID, false⟩), drawn := s.drawn + 1 },
        .insertOwner s.drawn)
  | .insertOwner vaultID =>
    if o = .error ∨ s.vaults.view k vaultID = none then (s, .rollback .db)
    else if s.members.Held k (vaultID, userID) then (s, .insertOwner vaultID)
    else
      ({ s with members := s.members.write k (vaultID, userID) (some .owner) }, .commit vaultID)
  | .commit vaultID =>
    if o = .error then (s, .rollback .db) else (s.commit k, .done (.ok vaultID))
  | .rollback err => (s.rollback k, .done (.error err))
  | .done result => (s, .done result)

def execAssign (vaultID : VaultID) (userID : UserID) (pc : AssignPc) (o : Outcome) :
    Store × AssignPc :=
  match pc with
  | .existingOwner =>
    (s,
      if o = .error then .done (some .db)
      else if ∃ owner ∈ s.existingOwner k vaultID o, owner ≠ userID then
        .done (some (.text "vault already has an owner"))
      else .upsert .owner)
  | .upsert role =>
    if o = .error ∨ s.vaults.view k vaultID = none then (s, .done (some .db))
    else if s.members.Held k (vaultID, userID) then (s, .upsert role)
    else ({ s with members := s.members.put (vaultID, userID) (some role) }, .done none)
  | .done err => (s, .done err)

def execRemove (vaultID : VaultID) (userID : UserID) (pc : RemovePc) (o : Outcome) :
    Store × RemovePc :=
  match pc with
  | .checkRole =>
    (s,
      if o = .error then .done (some .db)
      else
        match s.members.view k (vaultID, userID) with
        | none => .done (some (.text "user not a member of vault"))
        | some .owner => .done (some (.text "cannot remove the vault owner"))
        | some _ => .delete)
  | .delete =>
    if o = .error then (s, .done (some .db))
    else if s.members.view k (vaultID, userID) = none then (s, .done none)
    else if s.members.Held k (vaultID, userID) then (s, .delete)
    else ({ s with members := s.members.put (vaultID, userID) none }, .done none)
  | .done err => (s, .done err)

def execTransfer (vaultID : VaultID) (fromUserID toUserID : UserID) (pc : TransferPc)
    (o : Outcome) : Store × TransferPc :=
  match pc with
  | .verifyOwner =>
    (s,
      if o = .error then .done (some .db)
      else
        match s.members.view k (vaultID, fromUserID) with
        | none => .done (some (.text "user is not a member of this vault"))
        | some .owner => .begin
        | some _ => .done (some (.text "user is not the vault owner")))
  | .begin => (s, if o = .error then .done (some .db) else .removeOwner)
  | .removeOwner =>
    if o = .error then (s, .rollback .db)
    else if s.members.view k (vaultID, fromUserID) = none then (s, .assignOwner)
    else if s.members.Held k (vaultID, fromUserID) then (s, .removeOwner)
    else ({ s with members := s.members.write k (vaultID, fromUserID) none }, .assignOwner)
  | .assignOwner =>
    if o = .error ∨ s.vaults.view k vaultID = none then (s, .rollback .db)
    else if s.members.Held k (vaultID, toUserID) then (s, .assignOwner)
    else ({ s with members := s.members.write k (vaultID, toUserID) (some .owner) }, .commit)
  | .commit => if o = .error then (s, .rollback .db) else (s.commit k, .done none)
  | .rollback err => (s.rollback k, .done (some err))
  | .done err => (s, .done err)

def execDelete (vaultID : VaultID) (pc : DeletePc) (o : Outcome) : Store × DeletePc :=
  match pc with
  | .update =>
    if o = .error then (s, .done (some .db))
    else
      match s.vaults.view k vaultID with
      | none => (s, .done (some (.text "vault not found")))
      | some row =>
        if row.deleted then (s, .done (some (.text "vault not found")))
        else if s.vaults.Held k vaultID then (s, .update)
        else
          ({ s with vaults := s.vaults.put vaultID (some { row with deleted := true }) },
            .done none)
  | .done err => (s, .done err)

def Call.exec (c : Call) (o : Outcome) : Store × Call :=
  match c with
  | .createVault userID pc =>
    ((execCreate accounts s k userID pc o).1,
      .createVault userID (execCreate accounts s k userID pc o).2)
  | .assignRole vaultID userID pc =>
    ((execAssign s k vaultID userID pc o).1,
      .assignRole vaultID userID (execAssign s k vaultID userID pc o).2)
  | .removeRole vaultID userID pc =>
    ((execRemove s k vaultID userID pc o).1,
      .removeRole vaultID userID (execRemove s k vaultID userID pc o).2)
  | .transferOwnership vaultID fromUserID toUserID pc =>
    ((execTransfer s k vaultID fromUserID toUserID pc o).1,
      .transferOwnership vaultID fromUserID toUserID
        (execTransfer s k vaultID fromUserID toUserID pc o).2)
  | .deleteVault vaultID pc =>
    ((execDelete s k vaultID pc o).1, .deleteVault vaultID (execDelete s k vaultID pc o).2)

end

/-! ## The service -/

inductive Request where
  | createVault (userID : UserID)
  | assignRole (vaultID : VaultID) (userID : UserID) (role : String)
  | removeRole (vaultID : VaultID) (userID : UserID)
  | transferOwnership (vaultID : VaultID) (fromUserID toUserID : UserID)
  | deleteVault (vaultID : VaultID)
  deriving DecidableEq, Repr

def Request.start : Request → Call
  | .createVault userID => .createVault userID .subscription
  | .assignRole vaultID userID role =>
    .assignRole vaultID userID
      (match Role.ofString? role with
      | none => .done (some (.text ("invalid role: " ++ role)))
      | some .owner => .existingOwner
      | some role => .upsert role)
  | .removeRole vaultID userID => .removeRole vaultID userID .checkRole
  | .transferOwnership vaultID fromUserID toUserID =>
    .transferOwnership vaultID fromUserID toUserID .verifyOwner
  | .deleteVault vaultID => .deleteVault vaultID .update

abbrev Vaults := Calls.State Store Call
abbrev Action := Calls.Action Request Outcome

def service (accounts : Accounts) : Calls.Service Store Call Request Outcome where
  world s req := (s, some req.start)
  exec k s c o := c.exec accounts s k o

def start : Vaults := ⟨.empty, []⟩

end UsbVault.Members
