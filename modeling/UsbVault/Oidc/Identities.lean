import UsbVault.Lib.Calls
import UsbVault.Lib.Table

/-!
# Federated identities

`mapUser` (`internal/oidc/service.go`): callbacks running side by side over
the tables `users`, of which `email_hash` is unique, and `oidc_identities`,
of which the provider and the subject are. A callback looks the identity up;
if that gives no user, for whatever reason, it creates one and links it in a
transaction. Then it issues tokens.

The claims are those of an identity token that was verified. Other accounts
are created by an event; `updated_at` and `last_login_at` are left out.
-/

namespace UsbVault.Oidc

open Tables

abbrev UserID := Nat

/-- `(provider_id, oidc_subject)` -/
structure Identity where
  providerID : String
  sub : String
  deriving DecidableEq, Repr

/-- A row of `users`. History: the identity whose callback created it. -/
structure UserRow where
  id : UserID
  createdFor : Option Identity
  deriving DecidableEq, Repr

/-- `users` by `email_hash`, and the user linked to each identity; the user
identifiers drawn; the tokens issued (history). -/
structure Store where
  users : Table String UserRow
  identities : Table Identity UserID
  drawn : Nat
  issued : List (Identity × UserID)

namespace Store

def empty : Store := ⟨.empty, .empty, 0, []⟩

def commit (s : Store) (call : Nat) : Store :=
  { s with users := s.users.commit call, identities := s.identities.commit call }

def rollback (s : Store) (call : Nat) : Store :=
  { s with users := s.users.rollback call, identities := s.identities.rollback call }

end Store

/-- Where a `mapUser` call is. -/
inductive Pc where
  /-- `SELECT user_id FROM oidc_identities` -/
  | lookUp
  | begin (userID : UserID)
  | insertUser (userID : UserID)
  | insertIdentity (userID : UserID)
  | commit (userID : UserID)
  | rollback
  /-- `LoadUserTokenEpoch` -/
  | loadEpoch (userID : UserID)
  /-- `GenerateTokenPairWithEpoch` -/
  | generate (userID : UserID)
  | succeeded (userID : UserID)
  | failed
  deriving DecidableEq, Repr

/-- A callback, with the hash of the email it claims. -/
structure Call where
  identity : Identity
  emailHash : String
  pc : Pc
  deriving DecidableEq, Repr

/-- The next statement. One that meets a row of another transaction waits. -/
def Call.exec (s : Store) (k : Nat) (c : Call) (o : Execution) : Store × Pc :=
  match c.pc with
  | .lookUp =>
    -- any error is taken for an identity that is new
    match if o = .done then s.identities.rows c.identity else none with
    | some userID => (s, .loadEpoch userID)
    | none => ({ s with drawn := s.drawn + 1 }, .begin s.drawn)
  | .begin userID => (s, if o = .done then .insertUser userID else .failed)
  | .insertUser userID =>
    if o ≠ .done then (s, .rollback)
    else if s.users.Held k c.emailHash then (s, .insertUser userID)
    else
      match s.users.view k c.emailHash with
      | some _ => (s, .rollback)
      | none =>
        ({ s with users := s.users.write k c.emailHash (some ⟨userID, some c.identity⟩) },
          .insertIdentity userID)
  | .insertIdentity userID =>
    if o ≠ .done then (s, .rollback)
    else if s.identities.Held k c.identity then (s, .insertIdentity userID)
    else
      -- ON CONFLICT the row keeps its user
      let linked := (s.identities.view k c.identity).getD userID
      ({ s with identities := s.identities.write k c.identity (some linked) }, .commit userID)
  | .commit userID =>
    match o with
    | .done => (s.commit k, .loadEpoch userID)
    | .unacknowledged => (s.commit k, .failed)
    | .failed => (s.rollback k, .failed)
  | .rollback => (s.rollback k, .failed)
  | .loadEpoch userID => (s, if o = .done then .generate userID else .failed)
  | .generate userID =>
    if o = .done then
      ({ s with issued := s.issued ++ [(c.identity, userID)] }, .succeeded userID)
    else (s, .failed)
  | .succeeded userID => (s, .succeeded userID)
  | .failed => (s, .failed)

/-- A callback arrives; an account is registered otherwise. -/
inductive Event where
  | callback (identity : Identity) (emailHash : String)
  | register (emailHash : String)
  deriving DecidableEq, Repr

def world (s : Store) : Event → Store × Option Call
  | .callback identity emailHash => (s, some ⟨identity, emailHash, .lookUp⟩)
  | .register emailHash =>
    if s.users.rows emailHash = none ∧ s.users.pending emailHash = none then
      ({ s with
          users := s.users.put emailHash (some ⟨s.drawn, none⟩)
          drawn := s.drawn + 1 }, none)
    else (s, none)

def service : Calls.Service Store Call Event Execution where
  world := world
  exec k s c o := ((c.exec s k o).1, { c with pc := (c.exec s k o).2 })

abbrev State := Calls.State Store Call

abbrev Action := Calls.Action Event Execution

def start : State := ⟨.empty, []⟩

end UsbVault.Oidc
