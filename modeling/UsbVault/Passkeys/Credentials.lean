import UsbVault.Lib.Expiring
import UsbVault.Lib.OneTime
import UsbVault.Lib.Table
import UsbVault.Srp.Server

/-!
# Passkeys

The requests that enrol, use and delete FIDO2 credentials (`internal/auth`:
`fido2.go`, `fido2_register.go`, `reauth.go`), running side by side over the
column `users.webauthn_credentials` and the challenge sessions in Redis. The
column is read whole and written back whole.

What the WebAuthn library makes of an attestation or an assertion is an
outcome of the step that asks it. `HandleFIDO2Challenge` is an event that
stores a session, for it reads the account for its timing only; so is the
password login, of which the marker of the step-up is kept.
-/

namespace UsbVault.Passkeys

open Expiring Tables Srp

abbrev UserID := String

abbrev CredentialID := String

/-- `webauthn.Credential`: its identifier and `Authenticator.SignCount`. -/
structure Credential where
  id : CredentialID
  signCount : Nat
  deriving DecidableEq, Repr

structure UserRow where
  webauthnCredentials : Option (List Credential)
  hasPassword : Bool
  deriving DecidableEq, Repr

/-- What the column unmarshals to; NULL is no credential. -/
def UserRow.credentials (row : UserRow) : List Credential := row.webauthnCredentials.getD []

/-! ## Changes of the list -/

/-- `credentials[i].Authenticator.SignCount = …` of the first with the
identifier. -/
def setSignCount (id : CredentialID) (count : Nat) : List Credential → List Credential
  | [] => []
  | c :: cs => if c.id = id then { c with signCount := count } :: cs else c :: setSignCount id count cs

inductive Change where
  | registered (credential : Credential)
  | used (id : CredentialID) (count : Nat)
  | deleted (id : CredentialID)
  deriving DecidableEq, Repr

def Change.apply (credentials : List Credential) : Change → List Credential
  | .registered credential => credentials ++ [credential]
  | .used id count => setSignCount id count credentials
  | .deleted id => credentials.eraseP (·.id = id)

/-- What is written back: NULL when a deletion leaves nothing. -/
def Change.column (credentials : List Credential) (change : Change) :
    Option (List Credential) :=
  match change with
  | .deleted _ => if change.apply credentials = [] then none else some (change.apply credentials)
  | _ => some (change.apply credentials)

/-! ## The store -/

/-- `fido2:` and `fido2reg:`. -/
inductive Kind where
  | login
  | register
  deriving DecidableEq, Repr

structure SessionKey where
  kind : Kind
  id : Nat
  deriving DecidableEq, Repr

/-- `webauthn.SessionData`: the user of a registration. History: the challenge
was exempt from the step-up. -/
structure SessionData where
  userID : Option UserID
  exempt : Bool
  deriving DecidableEq, Repr

/-- A call finds a session. -/
structure Finding where
  key : SessionKey
  call : Nat
  time : Nat
  deriving DecidableEq, Repr

/-- Times in milliseconds. -/
def challengeTTL : Nat := 2 * 60 * 1000
def recentReauthTTL : Nat := 5 * 60 * 1000

/-- The clock, the rows of `users`, and the keys in Redis. History: when each
session was stored, which call found it, which had its response checked
against it; and the changes of the lists, those of enrolments and deletions
when the request is told so. -/
structure Store where
  now : Nat
  users : UserID → Option UserRow
  sessions : Keys SessionKey SessionData
  reauth : Keys UserID Unit
  drawn : Nat
  stored : SessionKey → Option Nat
  found : List Finding
  checked : List (SessionKey × Nat)
  log : List (UserID × Change)

inductive Command where
  | nothing
  /-- `SET fido2:<id>` or `SET fido2reg:<id>` -/
  | setSession (kind : Kind) (data : SessionData)
  /-- history -/
  | find (key : SessionKey) (call : Nat)
  /-- `DEL` -/
  | deleteSession (key : SessionKey)
  /-- history -/
  | check (key : SessionKey) (call : Nat)
  /-- `UPDATE users SET webauthn_credentials`, and the change for the history -/
  | update (userID : UserID) (column : Option (List Credential)) (reported : Option Change)
  /-- `markRecentReauth` -/
  | mark (userID : UserID)
  deriving DecidableEq, Repr

namespace Store

variable (s : Store)

def session (key : SessionKey) : Option SessionData := s.sessions.get s.now key

/-- `hasRecentReauth` -/
def recentReauth (userID : UserID) : Bool := (s.reauth.get s.now userID).isSome

def credentials (userID : UserID) : List Credential :=
  match s.users userID with
  | some row => row.credentials
  | none => []

def update (userID : UserID) (column : Option (List Credential)) (reported : Option Change) :
    Store :=
  match s.users userID with
  | some row =>
    { s with
      users := Function.update s.users userID (some { row with webauthnCredentials := column })
      log := s.log ++ reported.toList.map fun change => (userID, change) }
  | none => s

def apply : Command → Store
  | .nothing => s
  | .setSession kind data =>
    { s with
      sessions := s.sessions.set s.now challengeTTL ⟨kind, s.drawn⟩ data
      stored := Function.update s.stored ⟨kind, s.drawn⟩ (some s.now)
      drawn := s.drawn + 1 }
  | .find key call => { s with found := s.found ++ [⟨key, call, s.now⟩] }
  | .deleteSession key => { s with sessions := s.sessions.delete key }
  | .check key call => { s with checked := s.checked ++ [(key, call)] }
  | .update userID column reported => s.update userID column reported
  | .mark userID => { s with reauth := s.reauth.set s.now recentReauthTTL userID () }

end Store

/-- How a statement ends; the credential of an attestation that is accepted;
the counter of an assertion that is; the account is flagged for
re-registration. -/
structure Outcome where
  e : Execution
  credential : Option Credential
  counter : Option Nat
  flagged : Bool
  deriving DecidableEq, Repr

/-! ## Registration challenge -/

inductive ChallengePc where
  /-- `SELECT email_hash` -/
  | lookUpUser
  /-- `SELECT webauthn_credentials` -/
  | readCredentials
  /-- `hasRecentReauth` -/
  | checkReauth
  | setSession (exempt : Bool)
  | succeeded
  | failed (err : HttpError)
  deriving DecidableEq

/-- `HandleFIDO2RegisterChallenge` -/
def registerChallenge (s : Store) (userID : UserID) (pc : ChallengePc) (o : Outcome) :
    Command × ChallengePc :=
  match pc with
  | .lookUpUser =>
    (.nothing,
      if o.e = .done ∧ (s.users userID).isSome then .readCredentials
      else .failed ⟨"invalid credentials", 401⟩)
  | .readCredentials =>
    -- a SELECT that fails leaves the list empty
    let credentials := if o.e = .done then s.credentials userID else []
    (.nothing, if credentials.length > 0 then .checkReauth else .setSession true)
  | .checkReauth =>
    (.nothing,
      if o.e ≠ .done then .failed ⟨"authorization check failed", 500⟩
      else if s.recentReauth userID then .setSession false
      else .failed ⟨"re-authenticate (password or passkey) before adding a new credential", 403⟩)
  | .setSession exempt =>
    (if o.e.Took then .setSession .register ⟨some userID, exempt⟩ else .nothing,
      if o.e = .done then .succeeded
      else .failed ⟨"failed to store registration session in redis", 500⟩)
  | .succeeded => (.nothing, .succeeded)
  | .failed err => (.nothing, .failed err)

/-! ## Registration -/

inductive RegisterPc where
  /-- `GET fido2reg:<id>` -/
  | getSession
  /-- `DEL fido2reg:<id>` -/
  | deleteSession (session : SessionData)
  /-- `SELECT webauthn_credentials, email_hash` -/
  | readCredentials (session : SessionData)
  /-- `FinishRegistration` -/
  | finish (session : SessionData) (credentials : List Credential)
  | update (session : SessionData) (credentials : List Credential) (credential : Credential)
  | succeeded (id : CredentialID)
  | failed (err : HttpError)
  deriving DecidableEq

/-- `HandleFIDO2RegisterVerify` -/
def registerVerify (s : Store) (k : Nat) (userID : UserID) (sessionID : Nat) (pc : RegisterPc)
    (o : Outcome) : Command × RegisterPc :=
  let key : SessionKey := ⟨.register, sessionID⟩
  match pc with
  | .getSession =>
    match if o.e = .done then s.session key else none with
    | some session => (.find key k, .deleteSession session)
    | none => (.nothing, .failed ⟨"session expired or invalid", 401⟩)
  | .deleteSession session =>
    -- the error is not looked at
    (if o.e.Took then .deleteSession key else .nothing, .readCredentials session)
  | .readCredentials session =>
    match if o.e = .done then s.users userID else none with
    | none => (.nothing, .failed ⟨"invalid credentials", 401⟩)
    | some row =>
      (.nothing,
        if row.credentials.length ≥ 10 then .failed ⟨"maximum credentials reached", 400⟩
        else .finish session row.credentials)
  | .finish session credentials =>
    -- the library refuses the session of another user
    match if session.userID = some userID then o.credential else none with
    | some credential => (.check key k, .update session credentials credential)
    | none => (.check key k, .failed ⟨"registration failed", 400⟩)
  | .update _ credentials credential =>
    let change : Change := .registered credential
    (if o.e.Took then
        .update userID (change.column credentials) (if o.e = .done then some change else none)
      else .nothing,
      if o.e = .done ∧ (s.users userID).isSome then .succeeded credential.id
      else .failed ⟨"failed to save credential", 500⟩)
  | .succeeded id => (.nothing, .succeeded id)
  | .failed err => (.nothing, .failed err)

/-! ## Login -/

structure LoginRequest where
  sessionID : Nat
  userHandle : UserID
  rawID : CredentialID
  deriving DecidableEq, Repr

inductive LoginPc where
  /-- `GET fido2:<id>` -/
  | getSession
  /-- `DEL fido2:<id>` -/
  | deleteSession
  /-- `FinishDiscoverableLogin`, with the resolver's SELECT -/
  | resolve
  /-- `userNeedsReRegistration` -/
  | checkFlag (credentials : List Credential) (count : Nat)
  | update (credentials : List Credential) (count : Nat)
  /-- `LoadUserTokenEpoch`, `GenerateTokenPairWithEpoch` -/
  | issueTokens
  | mark
  | succeeded
  | failed (err : HttpError)
  deriving DecidableEq

/-- `UpdateCounter` of the library: a counter that is not larger is not
taken. -/
def updateCounter (signCount authDataCount : Nat) : Nat :=
  if authDataCount ≤ signCount then signCount else authDataCount

/-- `HandleFIDO2Verify` -/
def loginVerify (s : Store) (k : Nat) (req : LoginRequest) (pc : LoginPc) (o : Outcome) :
    Command × LoginPc :=
  let key : SessionKey := ⟨.login, req.sessionID⟩
  match pc with
  | .getSession =>
    match if o.e = .done then s.session key else none with
    | some _ => (.find key k, .deleteSession)
    | none => (.nothing, .failed ⟨"session expired or invalid", 401⟩)
  | .deleteSession => (if o.e.Took then .deleteSession key else .nothing, .resolve)
  | .resolve =>
    match if o.e = .done ∧ req.userHandle ≠ "" then s.users req.userHandle else none with
    | none => (.check key k, .failed ⟨"authentication failed", 401⟩)
    | some row =>
      match row.credentials.find? (·.id = req.rawID), o.counter with
      | some c, some counter =>
        (.check key k, .checkFlag row.credentials (updateCounter c.signCount counter))
      | _, _ => (.check key k, .failed ⟨"authentication failed", 401⟩)
  | .checkFlag credentials count =>
    (.nothing,
      if o.e ≠ .done then .failed ⟨"authentication failed", 401⟩
      else if o.flagged then
        .failed ⟨"this account must be re-registered before you can sign in", 409⟩
      else .update credentials count)
  | .update credentials count =>
    -- an error is logged only
    let change : Change := .used req.rawID count
    (if o.e.Took then .update req.userHandle (change.column credentials) (some change)
      else .nothing, .issueTokens)
  | .issueTokens =>
    (.nothing, if o.e = .done then .mark else .failed ⟨"token generation failed", 500⟩)
  | .mark => (if o.e.Took then .mark req.userHandle else .nothing, .succeeded)
  | .succeeded => (.nothing, .succeeded)
  | .failed err => (.nothing, .failed err)

/-! ## Deletion -/

inductive DeletePc where
  /-- `SELECT webauthn_credentials, password_hash IS NOT NULL` -/
  | readCredentials
  | update (credentials : List Credential)
  | succeeded
  | failed (err : HttpError)
  deriving DecidableEq

/-- `HandleFIDO2DeleteCredential` -/
def deleteCredential (s : Store) (userID : UserID) (credentialID : CredentialID) (pc : DeletePc)
    (o : Outcome) : Command × DeletePc :=
  match pc with
  | .readCredentials =>
    if credentialID = "" then (.nothing, .failed ⟨"missing credential id", 400⟩)
    else
      match if o.e = .done then s.users userID else none with
      | none => (.nothing, .failed ⟨"invalid credentials", 401⟩)
      | some row =>
        (.nothing,
          if ¬row.credentials.any (·.id = credentialID) then
            .failed ⟨"credential not found", 404⟩
          else if row.credentials.length - 1 = 0 ∧ ¬row.hasPassword then
            .failed ⟨"cannot delete last credential without password backup", 400⟩
          else .update row.credentials)
  | .update credentials =>
    let change : Change := .deleted credentialID
    (if o.e.Took then
        .update userID (change.column credentials) (if o.e = .done then some change else none)
      else .nothing,
      if o.e = .done ∧ (s.users userID).isSome then .succeeded
      else .failed ⟨"failed to delete credential", 500⟩)
  | .succeeded => (.nothing, .succeeded)
  | .failed err => (.nothing, .failed err)

/-! ## The service -/

inductive Call where
  | registerChallenge (userID : UserID) (pc : ChallengePc)
  | registerVerify (userID : UserID) (sessionID : Nat) (pc : RegisterPc)
  | loginVerify (req : LoginRequest) (pc : LoginPc)
  | deleteCredential (userID : UserID) (credentialID : CredentialID) (pc : DeletePc)
  deriving DecidableEq

def Call.exec (s : Store) (k : Nat) (c : Call) (o : Outcome) : Command × Call :=
  match c with
  | .registerChallenge userID pc =>
    let (cmd, pc) := Passkeys.registerChallenge s userID pc o
    (cmd, .registerChallenge userID pc)
  | .registerVerify userID sessionID pc =>
    let (cmd, pc) := Passkeys.registerVerify s k userID sessionID pc o
    (cmd, .registerVerify userID sessionID pc)
  | .loginVerify req pc =>
    let (cmd, pc) := Passkeys.loginVerify s k req pc o
    (cmd, .loginVerify req pc)
  | .deleteCredential userID credentialID pc =>
    let (cmd, pc) := Passkeys.deleteCredential s userID credentialID pc o
    (cmd, .deleteCredential userID credentialID pc)

inductive Request where
  | registerChallenge (userID : UserID)
  | registerVerify (userID : UserID) (sessionID : Nat)
  | loginVerify (req : LoginRequest)
  | deleteCredential (userID : UserID) (credentialID : CredentialID)
  deriving DecidableEq, Repr

def Request.call : Request → Call
  | .registerChallenge userID => .registerChallenge userID .lookUpUser
  | .registerVerify userID sessionID => .registerVerify userID sessionID .getSession
  | .loginVerify req => .loginVerify req .getSession
  | .deleteCredential userID credentialID => .deleteCredential userID credentialID .readCredentials

/-- Time passes; a login challenge is stored; a user logs in with the
password; a request arrives. -/
inductive Event where
  | tick (milliseconds : Nat)
  | loginChallenge
  | passwordLogin (userID : UserID)
  | request (req : Request)
  deriving DecidableEq, Repr

def world (s : Store) : Event → Store × Option Call
  | .tick milliseconds => ({ s with now := s.now + milliseconds }, none)
  | .loginChallenge => (s.apply (.setSession .login ⟨none, false⟩), none)
  | .passwordLogin userID => (s.apply (.mark userID), none)
  | .request req => (s, some req.call)

def service : Calls.Service Store Call Event Outcome where
  world := world
  exec k s c o := (s.apply (c.exec s k o).1, (c.exec s k o).2)

abbrev State := Calls.State Store Call

abbrev Action := Calls.Action Event Outcome

/-- Any accounts, and nothing in Redis. -/
def start (users : UserID → Option UserRow) : State :=
  ⟨⟨0, users, .empty, .empty, 0, fun _ => none, [], [], []⟩, []⟩

end UsbVault.Passkeys
