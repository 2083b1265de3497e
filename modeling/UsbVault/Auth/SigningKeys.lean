import UsbVault.Auth.Session

/-!
# Signing keys

`internal/auth/key_rotation.go`, and the parts of `jwt.go` that read the
keys: server instances, each with its active key, its cache of verification
keys and the global key that signs, over one table `jwt_signing_keys`.

A key pair is a number, drawn in order; `kidOf` is the hash of its public
key. A call that finds `krs.mu` held waits. What an instance does while it
holds the lock and no other can observe is one step. `CleanupExpiredKeys`
is left out.
-/

namespace UsbVault.Auth.Signing

open Wire

abbrev Key := Nat
abbrev Kid := Bytes
abbrev InstanceID := Nat

inductive Status where
  | active
  | rotated
  | revoked
  deriving DecidableEq, Repr

structure SigningKey where
  kid : Kid
  key : Key
  deriving DecidableEq, Repr

/-- A row of `jwt_signing_keys`. -/
structure Row where
  kid : Kid
  key : Key
  status : Status
  deriving DecidableEq, Repr

inductive InstanceState where
  | down
  | started
  /-- the keys are loaded, and `Initialize` has not returned -/
  | loading
  | serving
  deriving DecidableEq, Repr

/-- `KeyRotationService` and the global `jwtPrivateKey`. The active key is a
cached one, and its status is kept there. `writer` is the call that holds
`krs.mu`. -/
structure Instance where
  state : InstanceState
  jwtPrivateKey : Option Key
  activeKey : Option SigningKey
  keyCache : Kid → Option (SigningKey × Status)
  writer : Option Nat

def Instance.down : Instance := ⟨.down, none, none, fun _ => none, none⟩

/-- What of a token the keys decide. -/
structure Token where
  kid : Kid
  signer : Key
  expiresAt : Nat
  deriving DecidableEq, Repr

/-- The rows are in the order of `activated_at DESC`. `issued` and
`revocations`, the stored keys that were revoked, are history. -/
structure Store where
  now : Nat
  rows : List Row
  drawn : Nat
  launched : Nat
  instances : InstanceID → Instance
  issued : List Token
  revocations : List Kid

def Store.empty : Store := ⟨0, [], 0, 0, fun _ => .down, [], []⟩

/-! ## Reading the keys -/

namespace Instance

/-- The keys were read from the table. -/
def loaded (inst : Instance) : Bool := inst.state = .loading || inst.state = .serving

/-- `GetActiveKID`; it waits while the lock is held. -/
def getActiveKID (inst : Instance) : Option Kid :=
  if inst.writer.isSome then none
  else
    match inst.activeKey with
    | some key => some key.kid
    | none => some []

def getVerificationKey (inst : Instance) (kid : Kid) : Option Key :=
  match inst.keyCache kid with
  | some (key, status) => if status = .revoked then none else some key.key
  | none => none

def validateToken (inst : Instance) (now : Nat) (token : Token) : Bool :=
  match inst.getVerificationKey token.kid with
  | some key => decide (key = token.signer) && decide (now < token.expiresAt)
  | none => false

/-- The rows `Initialize` reads, and the first of them that is active. -/
def loadKeys (inst : Instance) (rows : List Row) : Instance :=
  let live := rows.filter (·.status ≠ .revoked)
  { inst with
    state := .loading
    keyCache := fun kid =>
      (live.find? (·.kid = kid)).map fun row => (⟨row.kid, row.key⟩, row.status)
    activeKey := (live.find? (·.status = .active)).map fun row => ⟨row.kid, row.key⟩ }

def setStatus (inst : Instance) (kid : Kid) (status : Status) : Instance :=
  { inst with
    keyCache := Function.update inst.keyCache kid
      ((inst.keyCache kid).map fun entry => (entry.1, status)) }

def setActive (inst : Instance) (key : SigningKey) : Instance :=
  { inst with
    activeKey := some key
    keyCache := Function.update inst.keyCache key.kid (some (key, .active)) }

end Instance

/-! ## Commands -/

inductive Command where
  | nothing
  | lock (i : InstanceID) (call : Nat)
  | unlock (i : InstanceID)
  /-- the `SELECT` of `Initialize` -/
  | load (i : InstanceID)
  /-- `log.Fatal` -/
  | crash (i : InstanceID)
  /-- `UPDATE ... SET status = 'rotated'`, and the cached status -/
  | markRotated (i : InstanceID) (kid : Kid)
  /-- `INSERT` of the key drawn; it becomes the active one -/
  | insert (i : InstanceID)
  /-- a key drawn and not stored -/
  | drawKey
  /-- the global key, and the end of the lock -/
  | setGlobals (i : InstanceID) (key : Key)
  /-- `UPDATE ... SET status = 'revoked'`, and the cached status -/
  | revoke (i : InstanceID) (kid : Kid)
  | issue (access refresh : Token)
  deriving DecidableEq, Repr

section

variable (kidOf : Key → Kid)

namespace Store

def setInstance (s : Store) (i : InstanceID) (inst : Instance) : Store :=
  { s with instances := Function.update s.instances i inst }

def setRowStatus (rows : List Row) (kid : Kid) (status : Status) : List Row :=
  rows.map fun row => if row.kid = kid then { row with status := status } else row

def apply (s : Store) : Command → Store
  | .nothing => s
  | .lock i call => s.setInstance i { s.instances i with writer := some call }
  | .unlock i => s.setInstance i { s.instances i with writer := none }
  | .load i => s.setInstance i ((s.instances i).loadKeys s.rows)
  | .crash i => s.setInstance i { s.instances i with state := .down }
  | .markRotated i kid =>
    { s.setInstance i ((s.instances i).setStatus kid .rotated) with
      rows := setRowStatus s.rows kid .rotated }
  | .insert i =>
    let key : SigningKey := ⟨kidOf s.drawn, s.drawn⟩
    { s.setInstance i ((s.instances i).setActive key) with
      rows := ⟨key.kid, key.key, .active⟩ :: s.rows
      drawn := s.drawn + 1 }
  | .drawKey => { s with drawn := s.drawn + 1 }
  | .setGlobals i key =>
    s.setInstance i
      { s.instances i with state := .serving, jwtPrivateKey := some key, writer := none }
  | .revoke i kid =>
    { s.setInstance i ((s.instances i).setStatus kid .revoked) with
      rows := setRowStatus s.rows kid .revoked
      revocations := s.revocations ++ if s.rows.any (·.kid = kid) then [kid] else [] }
  | .issue access refresh => { s with issued := s.issued ++ [access, refresh] }

/-- The key drawn next can be stored: `kid` is UNIQUE. -/
def canInsert (s : Store) (ok : Bool) : Bool := ok && !s.rows.any (·.kid = kidOf s.drawn)

end Store

/-! ## Calls -/

/-- `Initialize` -/
inductive InitializePc where
  | query
  | generateAndStore
  | globals (key : Key)
  | abort
  | ended
  deriving DecidableEq, Repr

/-- `GenerateTokenPairWithEpoch`: the key and the time it has read, and the
kids. -/
inductive GeneratePc where
  | copyKey
  | accessKid (privKey : Key) (now : Nat)
  | refreshKid (privKey : Key) (now : Nat) (accessKid : Kid)
  | sign (privKey : Key) (now : Nat) (accessKid refreshKid : Kid)
  | returned
  deriving DecidableEq, Repr

/-- `RotateKey` -/
inductive RotatePc where
  | lock
  | markRotated
  | generateAndStore
  | globals (key : Key)
  | abort
  | ended
  deriving DecidableEq, Repr

/-- `RevokeKey` -/
inductive RevokePc where
  | lock
  | ended
  deriving DecidableEq, Repr

inductive Call where
  | initializeKeys (i : InstanceID) (pc : InitializePc)
  | generate (i : InstanceID) (pc : GeneratePc)
  | rotate (i : InstanceID) (pc : RotatePc)
  | revoke (i : InstanceID) (kid : Kid) (pc : RevokePc)
  deriving DecidableEq, Repr

def execInitialize (s : Store) (i : InstanceID) : InitializePc → Bool → Command × InitializePc
  | .query, ok =>
    if ok then
      match ((s.instances i).loadKeys s.rows).activeKey with
      | some active => (.load i, .globals active.key)
      | none => (.load i, .generateAndStore)
    else (.crash i, .ended)
  | .generateAndStore, ok =>
    if s.canInsert kidOf ok then (.insert i, .globals s.drawn) else (.drawKey, .abort)
  | .globals key, _ => (.setGlobals i key, .ended)
  | .abort, _ => (.crash i, .ended)
  | .ended, _ => (.nothing, .ended)

def execGenerate (s : Store) (i : InstanceID) : GeneratePc → Command × GeneratePc
  | .copyKey =>
    match (s.instances i).jwtPrivateKey with
    | some privKey => (.nothing, .accessKid privKey s.now)
    | none => (.nothing, .copyKey)
  | .accessKid privKey now =>
    match (s.instances i).getActiveKID with
    | some kid => (.nothing, .refreshKid privKey now kid)
    | none => (.nothing, .accessKid privKey now)
  | .refreshKid privKey now accessKid =>
    match (s.instances i).getActiveKID with
    | some kid => (.nothing, .sign privKey now accessKid kid)
    | none => (.nothing, .refreshKid privKey now accessKid)
  | .sign privKey now accessKid refreshKid =>
    (.issue ⟨accessKid, privKey, numericDate (now + accessTokenTTL)⟩
        ⟨refreshKid, privKey, numericDate (now + refreshTokenTTL)⟩, .returned)
  | .returned => (.nothing, .returned)

def execRotate (s : Store) (call : Nat) (i : InstanceID) : RotatePc → Bool → Command × RotatePc
  | .lock, _ =>
    if (s.instances i).writer.isSome then (.nothing, .lock) else (.lock i call, .markRotated)
  | .markRotated, ok =>
    match (s.instances i).activeKey with
    | some active =>
      if ok then (.markRotated i active.kid, .generateAndStore) else (.nothing, .abort)
    | none => (.nothing, .generateAndStore)
  | .generateAndStore, ok =>
    if s.canInsert kidOf ok then (.insert i, .globals s.drawn) else (.drawKey, .abort)
  | .globals key, _ => (.setGlobals i key, .ended)
  | .abort, _ => (.unlock i, .ended)
  | .ended, _ => (.nothing, .ended)

def execRevoke (s : Store) (i : InstanceID) (kid : Kid) : RevokePc → Bool → Command × RevokePc
  | .lock, ok =>
    if (s.instances i).writer.isSome then (.nothing, .lock)
    else (if ok then .revoke i kid else .nothing, .ended)
  | .ended, _ => (.nothing, .ended)

/-- A call of an instance that does not serve stands still; `Initialize` runs
while the instance starts. -/
def Call.exec (s : Store) (call : Nat) : Call → Bool → Command × Call
  | .initializeKeys i pc, ok =>
    if (s.instances i).state = (if pc = .query then .started else .loading) then
      let r := execInitialize kidOf s i pc ok
      (r.1, .initializeKeys i r.2)
    else (.nothing, .initializeKeys i pc)
  | .generate i pc, _ =>
    if (s.instances i).state = .serving then
      let r := execGenerate s i pc
      (r.1, .generate i r.2)
    else (.nothing, .generate i pc)
  | .rotate i pc, ok =>
    if (s.instances i).state = .serving then
      let r := execRotate kidOf s call i pc ok
      (r.1, .rotate i r.2)
    else (.nothing, .rotate i pc)
  | .revoke i kid pc, ok =>
    if (s.instances i).state = .serving then
      let r := execRevoke s i kid pc ok
      (r.1, .revoke i kid r.2)
    else (.nothing, .revoke i kid pc)

/-- What the world does: time passes; an instance is launched, or stops; an
instance is asked for a token pair, a rotation or a revocation. -/
inductive Event where
  | tick (nanoseconds : Nat)
  | launch
  | stop (i : InstanceID)
  | generate (i : InstanceID)
  | rotate (i : InstanceID)
  | revoke (i : InstanceID) (kid : Kid)
  deriving DecidableEq, Repr

def world (s : Store) : Event → Store × Option Call
  | .tick nanoseconds => ({ s with now := s.now + nanoseconds }, none)
  | .launch =>
    ({ s.setInstance s.launched { Instance.down with state := .started } with
        launched := s.launched + 1 }, some (.initializeKeys s.launched .query))
  | .stop i => (s.setInstance i { s.instances i with state := .down }, none)
  | .generate i => (s, some (.generate i .copyKey))
  | .rotate i => (s, some (.rotate i .lock))
  | .revoke i kid => (s, some (.revoke i kid .lock))

abbrev Servers := Calls.State Store Call
abbrev Action := Calls.Action Event Bool

def service : Calls.Service Store Call Event Bool where
  world := world
  exec call s c ok := (s.apply kidOf (c.exec kidOf s call ok).1, (c.exec kidOf s call ok).2)

def start : Servers := ⟨.empty, []⟩

end

end UsbVault.Auth.Signing
