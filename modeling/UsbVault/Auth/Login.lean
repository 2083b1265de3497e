import UsbVault.Auth.Session
import UsbVault.Srp.Server

/-!
# Login

`HandleSRPVerify` (`internal/auth/srp.go`) and the account lockout it uses
(`lockout.go`): verifications running side by side over the login sessions
and the lockout records in Redis. What a proof is evaluated to is
`handleSRPVerify`. The token issue at the end is one step here, and
`HandleSRPInit` an event that stores a session; the progressive delays,
applied at init only, and the headers of the responses are left out.
-/

namespace UsbVault.Auth.Login

open Wire Expiring Srp

deriving instance DecidableEq for SrpServerState

abbrev SessionID := Nat

/-- `emailHash` and `clientIP`, of `lockout:<emailHash>:<clientIP>`. -/
abbrev LockoutKey := String × String

/-- `NewAccountLockoutService`; the duration is in seconds. -/
def maxAttempts : Nat := 10
def lockDuration : Nat := 15 * 60

def srpSessionTTL : Nat := 5 * 60 * second

/-- `lockoutData`, times in Unix seconds. -/
structure LockoutData where
  attempts : Nat
  lockedUntil : Nat
  lastAttempt : Nat
  deriving DecidableEq, Repr

/-- `isLocked` of `CheckLockout`. -/
def LockoutData.locked (ld : LockoutData) (now : Nat) : Bool :=
  decide (0 < ld.lockedUntil) && decide (now < ld.lockedUntil * second)

/-- A login session with its `CreatedAt`. -/
structure StoredSession where
  state : SrpServerState
  createdAt : Nat
  deriving DecidableEq

/-- The clock; the keys `srp:` and `lockout:`; the session identifiers
drawn. `found` is history, each session found with the call that found it,
and so is `failures`, for each failed verification its lockout key. -/
structure Store where
  now : Nat
  sessions : Keys SessionID StoredSession
  lockouts : Keys LockoutKey LockoutData
  drawn : Nat
  found : List (SessionID × Nat)
  failures : List LockoutKey

def Store.empty : Store := ⟨0, .empty, .empty, 0, [], []⟩

inductive Command where
  | nothing
  /-- history: the session was found -/
  | find (sessionID : SessionID) (call : Nat)
  /-- `DEL srp:<id>` -/
  | deleteSession (sessionID : SessionID)
  /-- history: a verification failed -/
  | fail (key : LockoutKey)
  /-- the script of `RecordFailedAttempt` -/
  | record (key : LockoutKey) (currentTime : Nat)
  /-- `DEL lockout:<key>` -/
  | reset (key : LockoutKey)
  deriving DecidableEq, Repr

namespace Store

def clock (s : Store) : Nat := s.now / millisecond

def session (s : Store) (sessionID : SessionID) : Option StoredSession :=
  s.sessions.get s.clock sessionID

/-- The lockout record that is found. -/
def lockout (s : Store) (key : LockoutKey) : Option LockoutData := s.lockouts.get s.clock key

/-- The account is locked for the address. -/
def Locked (s : Store) (key : LockoutKey) : Prop := ∃ ld ∈ s.lockout key, ld.locked s.now

instance (s : Store) (key : LockoutKey) : Decidable (s.Locked key) :=
  inferInstanceAs (Decidable (∃ ld ∈ s.lockout key, _))

/-- The record the script writes. -/
def failedAttempt (s : Store) (key : LockoutKey) (currentTime : Nat) : LockoutData :=
  let ld : LockoutData :=
    match s.lockout key with
    | none => ⟨1, 0, currentTime⟩
    | some ld => ⟨ld.attempts + 1, ld.lockedUntil, currentTime⟩
  if ld.attempts ≥ maxAttempts then { ld with lockedUntil := currentTime + lockDuration } else ld

def apply (s : Store) : Command → Store
  | .nothing => s
  | .find sessionID call => { s with found := s.found ++ [(sessionID, call)] }
  | .deleteSession sessionID => { s with sessions := s.sessions.delete sessionID }
  | .fail key => { s with failures := s.failures ++ [key] }
  | .record key currentTime =>
    { s with
      lockouts := s.lockouts.set s.clock (lockDuration * 2 * 1000) key
        (s.failedAttempt key currentTime) }
  | .reset key => { s with lockouts := s.lockouts.delete key }

end Store

/-! ## The handler -/

structure SRPVerifyRequest where
  sessionID : SessionID
  A : String
  M1 : String
  clientIP : String
  deriving DecidableEq, Repr

/-- Where a `HandleSRPVerify` call is. -/
inductive VerifyPc where
  /-- `GET srp:<id>` -/
  | getSession
  /-- `DEL srp:<id>`, and the session's fields -/
  | deleteSession (session : StoredSession)
  /-- `CheckLockout`: the `GET` -/
  | getLockout (session : StoredSession)
  /-- its `time.Now()` -/
  | compareLock (session : StoredSession) (ld : Option LockoutData)
  | evaluate (session : StoredSession)
  /-- `time.Now().Unix()` of `RecordFailedAttempt` -/
  | readClock (session : StoredSession) (err : HttpError)
  | record (session : StoredSession) (err : HttpError) (currentTime : Nat)
  | issueTokens (session : StoredSession) (M2 : String)
  /-- `ResetAttempts` -/
  | reset (session : StoredSession) (M2 : String)
  | succeeded (M2 : String)
  | failed (err : HttpError)
  deriving DecidableEq

/-- A call with its request. -/
structure Call where
  req : SRPVerifyRequest
  pc : VerifyPc
  deriving DecidableEq

def lockoutKey (session : StoredSession) (req : SRPVerifyRequest) : LockoutKey :=
  (session.state.emailHash, req.clientIP)

section

variable (sha256 : Bytes → ByteVec 32) (G : Group)

/-- What a verification comes to, the session's age included. Only an
unreadable `b` is not recorded. -/
def evaluateProof (s : Store) (session : StoredSession) (req : SRPVerifyRequest) :
    Command × VerifyPc :=
  match handleSRPVerify sha256 G session.state req.A req.M1 with
  | .error err =>
    if err = ⟨"invalid session", 401⟩ then (.nothing, .failed err)
    else (.fail (lockoutKey session req), .readClock session err)
  | .ok (M2, _) =>
    if s.now - session.createdAt > srpSessionTTL then
      (.fail (lockoutKey session req), .readClock session ⟨"session expired", 401⟩)
    else (.nothing, .issueTokens session M2)

def Call.exec (s : Store) (k : Nat) (c : Call) (ok : Bool) : Command × VerifyPc :=
  match c.pc with
  | .getSession =>
    match if ok then s.session c.req.sessionID else none with
    | some session => (.find c.req.sessionID k, .deleteSession session)
    | none => (.nothing, .failed ⟨"invalid session", 401⟩)
  | .deleteSession session =>
    (if ok then .deleteSession c.req.sessionID else .nothing,
      if session.state.missingFields then .failed ⟨"invalid session", 401⟩
      else .getLockout session)
  | .getLockout session =>
    (.nothing,
      if ok then .compareLock session (s.lockout (lockoutKey session c.req))
      else .failed ⟨"internal error", 500⟩)
  | .compareLock session ld =>
    (.nothing,
      if ld.any (·.locked s.now) then
        .failed ⟨"account locked due to too many failed login attempts", 429⟩
      else .evaluate session)
  | .evaluate session => evaluateProof sha256 G s session c.req
  | .readClock session err => (.nothing, .record session err (s.now / second))
  | .record session err currentTime =>
    (if ok then .record (lockoutKey session c.req) currentTime else .nothing, .failed err)
  | .issueTokens session M2 =>
    (.nothing, if ok then .reset session M2 else .failed ⟨"token generation failed", 500⟩)
  | .reset session M2 =>
    (if ok then .reset (lockoutKey session c.req) else .nothing, .succeeded M2)
  | .succeeded M2 => (.nothing, .succeeded M2)
  | .failed err => (.nothing, .failed err)

/-- What the world does: time passes; a session is stored at init; a
verification is requested. -/
inductive Event where
  | tick (nanoseconds : Nat)
  | init (state : SrpServerState)
  | verify (req : SRPVerifyRequest)
  deriving DecidableEq

def world (s : Store) : Event → Store × Option Call
  | .tick nanoseconds => ({ s with now := s.now + nanoseconds }, none)
  | .init state =>
    ({ s with
        sessions := s.sessions.set s.clock (redisTTL srpSessionTTL) s.drawn ⟨state, s.now⟩
        drawn := s.drawn + 1 }, none)
  | .verify req => (s, some ⟨req, .getSession⟩)

abbrev Logins := Calls.State Store Call
abbrev Action := Calls.Action Event Bool

def service : Calls.Service Store Call Event Bool where
  world := world
  exec k s c ok :=
    (s.apply (c.exec sha256 G s k ok).1, { c with pc := (c.exec sha256 G s k ok).2 })

def start : Logins := ⟨.empty, []⟩

end

end UsbVault.Auth.Login
