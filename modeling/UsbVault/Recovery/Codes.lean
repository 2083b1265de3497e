import UsbVault.Lib.Calls
import UsbVault.Lib.Table
import UsbVault.Lib.Utf8

/-!
# Recovery codes

`internal/recovery/service.go` and `handlers.go`, and the re-registration of
`internal/auth/register.go` with its `verifyAndConsumeRecoveryCode`
(`reregistration.go`): calls running side by side over the table
`recovery_codes`. The service and the HTTP handler mark a code by a
statement of their own; the re-registration does in a transaction that also
updates the user.

Identifiers are numbers. Whether the user is eligible for re-registration is
the outcome of that update; the time of use and the audit log are left out.
-/

namespace UsbVault.Recovery

open Wire Tables

abbrev CodeID := Nat
abbrev UserID := Nat

/-- `used` is `used_at IS NOT NULL`. -/
structure RecoveryCode where
  userID : UserID
  codeHash : ByteVec 32
  codeIndex : Nat
  used : Bool
  deriving DecidableEq

/-- The table, and the `SERIAL` of its identifiers. `accepted` is history:
the codes accepted so far. -/
structure Store where
  codes : Table CodeID RecoveryCode
  drawn : Nat
  accepted : List CodeID

def Store.empty : Store := ⟨.empty, 0, []⟩

/-! ## Hashing -/

section

variable (sha256 : Bytes → ByteVec 32) (toUpper : String → String)

/-- `strings.ToUpper(strings.ReplaceAll(code, "-", ""))` -/
def normalize (code : String) : String := toUpper (.ofList (code.toList.filter (· ≠ '-')))

def hashCode (code : String) : ByteVec 32 := sha256 (Utf8.encode (normalize toUpper code).toList)

/-! ## Requests -/

def numRecoveryCodes : Nat := 10

inductive Request where
  /-- the service's `VerifyCode` -/
  | verifyCode (userID : UserID) (code : String)
  | handleVerifyCode (userID : UserID) (code : String)
  /-- the re-registration in `HandleRegister` -/
  | register (existingID : UserID) (proof : String)
  /-- `GenerateCodes` and `HandleGenerateCodes`, with the codes drawn -/
  | generateCodes (userID : UserID) (codes : List.Vector String numRecoveryCodes)
  deriving DecidableEq

def Request.userID : Request → UserID
  | .verifyCode userID _ => userID
  | .handleVerifyCode userID _ => userID
  | .register existingID _ => existingID
  | .generateCodes userID _ => userID

/-- The hash that is looked for. The service normalizes, and then `hashCode`
does again. -/
def Request.hash : Request → ByteVec 32
  | .verifyCode _ code => hashCode sha256 toUpper (normalize toUpper code)
  | .handleVerifyCode _ code => hashCode sha256 toUpper code
  | .register _ proof => hashCode sha256 toUpper proof
  | .generateCodes _ _ => hashCode sha256 toUpper ""

end

inductive Result where
  /-- a code was accepted: `true`, or a re-registered account -/
  | valid
  | invalid
  /-- an error -/
  | failed
  | generated
  deriving DecidableEq, Repr

/-- Where a call is. -/
inductive Pc where
  /-- `VerifyCode`: the `QueryRow` before the scan -/
  | queryRow
  | begin
  /-- `SELECT id, code_hash ... used_at IS NULL` -/
  | scan
  /-- `UPDATE ... WHERE id = $2` -/
  | mark (id : CodeID)
  /-- `HandleVerifyCode`: the count of the remaining codes -/
  | count (found : Bool)
  /-- `UPDATE ... WHERE id = $1 AND used_at IS NULL` -/
  | consume (id : CodeID)
  /-- the new verifier -/
  | updateUser (id : CodeID)
  | commit (id : CodeID)
  /-- the deferred `tx.Rollback` -/
  | rollback (result : Result)
  | deleteCodes
  | insertCode (i : Nat)
  | done (result : Result)
  deriving DecidableEq, Repr

structure Call where
  req : Request
  pc : Pc
  deriving DecidableEq

/-- The outcome of a statement. A `SELECT` delivers rows in some order, and
those that cannot be scanned are passed over. -/
inductive Outcome where
  | error
  | ok
  | scanned (ids : List CodeID)
  /-- no row of `users` is affected -/
  | noUser
  deriving DecidableEq, Repr

def Outcome.ids : Outcome → List CodeID
  | .scanned ids => ids
  | _ => []

/-! ## Statements -/

namespace Store

/-- The codes that a `SELECT ... WHERE user_id = $1 AND used_at IS NULL` of
the call finds. -/
def unused (s : Store) (call : Nat) (userID : UserID) : List CodeID :=
  s.codes.select call fun _ c => c.userID = userID && !c.used

/-- The last of the scanned codes that has the hash. -/
def matchedID (s : Store) (call : Nat) (userID : UserID) (hash : ByteVec 32)
    (scanned : List CodeID) : Option CodeID :=
  (scanned.filter (· ∈ s.unused call userID)).foldl
    (fun matched id =>
      if (s.codes.view call id).any (·.codeHash = hash) then some id else matched) none

/-- `UPDATE ... WHERE id = $2`, and the code is accepted, row or no row. -/
def mark (s : Store) (id : CodeID) : Store where
  codes :=
    match s.codes.rows id with
    | some c => s.codes.put id (some { c with used := true })
    | none => s.codes
  drawn := s.drawn
  accepted := s.accepted ++ [id]

/-- The `INSERT` of a code, with its identifier drawn. The pair of user and
index is unique. -/
def insert (s : Store) (call : Nat) (c : RecoveryCode) : Option Store :=
  if s.codes.select call (fun _ c' => c'.userID = c.userID && c'.codeIndex = c.codeIndex) = [] then
    some { s with codes := s.codes.put s.drawn (some c), drawn := s.drawn + 1 }
  else none

end Store

/-! ## Calls -/

section

variable (sha256 : Bytes → ByteVec 32) (toUpper : String → String)

def Request.scanFailed : Request → Pc
  | .register _ _ => .rollback .failed
  | _ => .done .failed

/-- After the scan: where the call goes with the code found. Only the
re-registration fails when not every row could be scanned. -/
def Request.scanned (req : Request) (matched : Option CodeID) (complete : Bool) : Pc :=
  match req with
  | .verifyCode _ _ => matched.elim (.done .invalid) .mark
  | .handleVerifyCode _ _ => matched.elim (.count false) .mark
  | .register _ _ =>
    if complete then matched.elim (.rollback .invalid) .consume else .rollback .failed
  | .generateCodes _ _ => .done .invalid

/-- After an accepted code has been marked. -/
def Request.marked : Request → Pc
  | .handleVerifyCode _ _ => .count true
  | _ => .done .valid

/-- One statement of a call. One that meets a row locked by another
transaction waits. -/
def Call.exec (s : Store) (k : Nat) (c : Call) (o : Outcome) : Store × Pc :=
  match c.pc with
  | .queryRow =>
    (s,
      if o = .error then .done .failed
      else if s.unused k c.req.userID = [] then .done .invalid
      else .scan)
  | .begin => (s, if o = .error then .done .failed else .scan)
  | .scan =>
    (s,
      if o = .error then c.req.scanFailed
      else
        c.req.scanned (s.matchedID k c.req.userID (c.req.hash sha256 toUpper) o.ids)
          (s.unused k c.req.userID ⊆ o.ids))
  | .mark id =>
    if o = .error then (s, .done .failed)
    else if (s.codes.rows id).isSome ∧ s.codes.Held k id then (s, .mark id)
    else (s.mark id, c.req.marked)
  | .count found =>
    (s, .done (if o = .error then .failed else if found then .valid else .invalid))
  | .consume id =>
    if o = .error then (s, .rollback .failed)
    else
      match s.codes.view k id with
      | none => (s, .rollback .invalid)
      | some code =>
        if code.used then (s, .rollback .invalid)
        else if s.codes.Held k id then (s, .consume id)
        else
          ({ s with codes := s.codes.write k id (some { code with used := true }) },
            .updateUser id)
  | .updateUser id => (s, if o = .error ∨ o = .noUser then .rollback .failed else .commit id)
  | .commit id =>
    if o = .error then (s, .rollback .failed)
    else ({ s with codes := s.codes.commit k, accepted := s.accepted ++ [id] }, .done .valid)
  | .rollback result => ({ s with codes := s.codes.rollback k }, .done result)
  | .deleteCodes =>
    if o = .error then (s, .done .failed)
    else if ∃ id ∈ s.codes.select k (fun _ c' => c'.userID = c.req.userID), s.codes.Held k id then
      (s, .deleteCodes)
    else
      ({ s with codes := s.codes.deleteWhere fun _ c' => c'.userID = c.req.userID },
        .insertCode 0)
  | .insertCode i =>
    match c.req with
    | .generateCodes userID codes =>
      match codes.toList[i]? with
      | none => (s, .done .generated)
      | some code =>
        if o = .error then (s, .done .failed)
        else
          match s.insert k ⟨userID, hashCode sha256 toUpper code, i, false⟩ with
          | some s' => (s', .insertCode (i + 1))
          | none => ({ s with drawn := s.drawn + 1 }, .done .failed)
    | _ => (s, .done .failed)
  | .done result => (s, .done result)

/-- Where a call begins. The handlers reject an empty code. -/
def Request.start : Request → Pc
  | .verifyCode _ _ => .queryRow
  | .handleVerifyCode _ code => if code = "" then .done .invalid else .scan
  | .register _ proof => if proof = "" then .done .invalid else .begin
  | .generateCodes _ _ => .deleteCodes

abbrev Recoveries := Calls.State Store Call
abbrev Action := Calls.Action Request Outcome

def service : Calls.Service Store Call Request Outcome where
  world s req := (s, some ⟨req, req.start⟩)
  exec k s c o := ((c.exec sha256 toUpper s k o).1, { c with pc := (c.exec sha256 toUpper s k o).2 })

def start : Recoveries := ⟨.empty, []⟩

end

end UsbVault.Recovery
