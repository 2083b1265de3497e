import UsbVault.Lib.Base64
import UsbVault.Lib.Calls
import UsbVault.Lib.Digits
import UsbVault.Lib.Table

/-!
# Key hierarchy

`HandleStoreKeyHierarchy` of `internal/vault/key_hierarchy.go`: calls running
side by side over the table `vaults`, each with a `SELECT` of the owner, one
of the version and an `UPDATE`, none of them in a transaction. The version
column has the default 1 (`migrations/009_key_hierarchy.sql`).

Identifiers are numbers, and the times a store sets are left out. An owner
never changes.
-/

namespace UsbVault.KeyHierarchy

open Wire Tables

abbrev UserID := Nat
abbrev VaultID := Nat

/-! ## Requests -/

structure StoreKeyHierarchyRequest where
  wrappedMekB64 : String
  kekSaltHex : String
  keyVersion : Int
  deriving DecidableEq, Repr

/-- What a valid request stores. -/
structure KeySet where
  wrappedMek : Bytes
  kekSalt : ByteVec 32
  keyVersion : Int
  size : 80 ≤ wrappedMek.length ∧ wrappedMek.length ≤ 200
  positive : 1 ≤ keyVersion
  deriving DecidableEq

/-- `base64.StdEncoding.DecodeString`: line breaks are passed over, and the
padding must be there. -/
def decodeString (text : String) : Option Bytes :=
  let chars := text.toList.filter fun c => c ≠ '\r' ∧ c ≠ '\n'
  if chars.length % 4 ≠ 0 then none
  else
    ((Base64.unpadded chars).mapM Base64.digitValue).map fun values =>
      (Base64.octets values).map UInt8.ofNat

/-- `hex.DecodeString` -/
def decodeHexString : List Char → Option Bytes
  | [] => some []
  | [_] => none
  | c :: d :: rest => do
      let high ← Digits.hexValue c
      let low ← Digits.hexValue d
      let bytes ← decodeHexString rest
      return UInt8.ofNat (16 * high + low) :: bytes

/-- A status and a text. -/
abbrev Answer := Nat × String

/-- The checks of the body, in their order. -/
def StoreKeyHierarchyRequest.validate (req : StoreKeyHierarchyRequest) : Except Answer KeySet :=
  match decodeString req.wrappedMekB64 with
  | none => .error (400, "invalid wrappedMekB64: must be valid base64")
  | some wrappedMek =>
    if hsize : 80 ≤ wrappedMek.length ∧ wrappedMek.length ≤ 200 then
      match decodeHexString req.kekSaltHex.toList with
      | none => .error (400, "invalid kekSaltHex: must be 64-char hex (32 bytes)")
      | some kekSalt =>
        if hsalt : kekSalt.length = 32 then
          if hpositive : 1 ≤ req.keyVersion then
            .ok ⟨wrappedMek, ⟨kekSalt, hsalt⟩, req.keyVersion, hsize, hpositive⟩
          else .error (400, "keyVersion must be >= 1")
        else .error (400, "invalid kekSaltHex: must be 64-char hex (32 bytes)")
    else .error (400, "invalid wrappedMek size")

/-! ## The store -/

/-- The columns of a vault's row that are read or written here. -/
structure Vault where
  ownerID : UserID
  deleted : Bool
  wrappedMek : Option Bytes
  kekSalt : Option (ByteVec 32)
  keyVersion : Option Int
  deriving DecidableEq

/-- `COALESCE(key_version, 0)` -/
def Vault.version (v : Vault) : Int := v.keyVersion.getD 0

def Vault.setKeys (v : Vault) (keys : KeySet) : Vault :=
  { v with
    wrappedMek := some keys.wrappedMek
    kekSalt := some keys.kekSalt
    keyVersion := some keys.keyVersion }

/-- An `UPDATE` that a call has sent: its version, whether it has written a
row, and whether the answer was that it is stored. -/
structure Entry where
  version : Int
  stored : Bool
  accepted : Bool
  deriving DecidableEq, Repr

/-- `ledger` is history, the latest `UPDATE` first. -/
structure Store where
  vaults : VaultID → Option Vault
  ledger : VaultID → List Entry

def Store.empty : Store := ⟨fun _ => none, fun _ => []⟩

/-- `key_version INTEGER DEFAULT 1` -/
def defaultVersion : Int := 1

/-- The greatest `INTEGER`. -/
def maxInteger : Int := 2147483647

namespace Store

/-- The row of the `UPDATE`'s `WHERE`. -/
def owned (s : Store) (vaultID : VaultID) (userID : UserID) : Option Vault :=
  (s.vaults vaultID).filter fun v => v.ownerID = userID && !v.deleted

def createVault (s : Store) (vaultID : VaultID) (ownerID : UserID) : Store :=
  match s.vaults vaultID with
  | some _ => s
  | none =>
    { s with
      vaults := Function.update s.vaults vaultID
        (some ⟨ownerID, false, none, none, some defaultVersion⟩) }

/-- `deleted_at = NOW()` -/
def deleteVault (s : Store) (vaultID : VaultID) : Store :=
  { s with
    vaults := Function.update s.vaults vaultID
      ((s.vaults vaultID).map fun v => { v with deleted := true }) }

def note (s : Store) (vaultID : VaultID) (entry : Entry) : Store :=
  { s with ledger := Function.update s.ledger vaultID (entry :: s.ledger vaultID) }

/-- The `UPDATE`; that no row is affected is not looked at. -/
def storeKeys (s : Store) (vaultID : VaultID) (userID : UserID) (keys : KeySet)
    (accepted : Bool) : Store :=
  match s.owned vaultID userID with
  | none => s.note vaultID ⟨keys.keyVersion, false, accepted⟩
  | some v =>
    { s with vaults := Function.update s.vaults vaultID (some (v.setKeys keys)) }.note vaultID
      ⟨keys.keyVersion, true, accepted⟩

end Store

/-! ## Calls -/

inductive Event where
  | createVault (vaultID : VaultID) (ownerID : UserID)
  | deleteVault (vaultID : VaultID)
  /-- A body that cannot be decoded is none. -/
  | store (userID : UserID) (vaultID : VaultID) (body : Option StoreKeyHierarchyRequest)
  deriving DecidableEq

/-- Where a call is. -/
inductive Pc where
  | selectOwner (keys : KeySet)
  | selectVersion (keys : KeySet)
  | update (keys : KeySet)
  | done (answer : Answer)
  deriving DecidableEq

structure Call where
  userID : UserID
  vaultID : VaultID
  pc : Pc
  deriving DecidableEq

def Call.next (c : Call) (pc : Pc) : Call := { c with pc }

def startCall (userID : UserID) (vaultID : VaultID) (body : Option StoreKeyHierarchyRequest) :
    Call :=
  match body with
  | none => ⟨userID, vaultID, .done (400, "invalid request body")⟩
  | some req =>
    match req.validate with
    | .error answer => ⟨userID, vaultID, .done answer⟩
    | .ok keys => ⟨userID, vaultID, .selectOwner keys⟩

/-- A version that is no `INTEGER` makes the `UPDATE` fail. -/
def KeySet.execution (keys : KeySet) (o : Execution) : Execution :=
  if keys.keyVersion ≤ maxInteger then o else .failed

/-- One statement. -/
def Call.exec (s : Store) (c : Call) (o : Execution) : Store × Call :=
  match c.pc with
  | .selectOwner keys =>
    match if o = .done then (s.vaults c.vaultID).filter fun v => !v.deleted else none with
    | none => (s, c.next (.done (404, "vault not found")))
    | some v =>
      if v.ownerID ≠ c.userID then (s, c.next (.done (403, "forbidden")))
      else (s, c.next (.selectVersion keys))
  | .selectVersion keys =>
    -- a version that cannot be read is not compared
    match if o = .done then s.vaults c.vaultID else none with
    | some v =>
      if keys.keyVersion ≤ v.version then
        (s, c.next (.done (409,
          "keyVersion must be greater than current version (rollback protection)")))
      else (s, c.next (.update keys))
    | none => (s, c.next (.update keys))
  | .update keys =>
    match keys.execution o with
    | .done => (s.storeKeys c.vaultID c.userID keys true, c.next (.done (200, "stored")))
    | .failed => (s, c.next (.done (500, "failed to store key hierarchy")))
    | .unacknowledged =>
      (s.storeKeys c.vaultID c.userID keys false,
        c.next (.done (500, "failed to store key hierarchy")))
  | .done _ => (s, c)

abbrev State := Calls.State Store Call
abbrev Action := Calls.Action Event Execution

def service : Calls.Service Store Call Event Execution where
  world s
    | .createVault vaultID ownerID => (s.createVault vaultID ownerID, none)
    | .deleteVault vaultID => (s.deleteVault vaultID, none)
    | .store userID vaultID body => (s, some (startCall userID vaultID body))
  exec _ s c o := c.exec s o

def start : State := ⟨.empty, []⟩

end UsbVault.KeyHierarchy
