import Mathlib.Logic.Function.Basic
import UsbVault.Lib.Calls
import UsbVault.Lib.Digits
import UsbVault.Lib.JsonData
import UsbVault.Lib.Utf8

/-!
# The client rate limiter

The limiter keeps one state object in memory, which all calls share and change,
and a signed copy of it in `localStorage`. `saveState` computes the HMAC of the
state, awaits, and then writes the state as it is by now beside that HMAC. A
call that changes the state in between makes a record that does not verify, and
the next start takes it for tampered.

While no call changes a state that another has signed and not yet stored, every
record verifies and the tamper lockout is never raised (`verifies_run`).
-/

namespace UsbVault.App.RateLimiter

open Wire Json Calls

/-! ## Configuration -/

structure Threshold where
  attempts : Nat
  durationMs : Nat

def MAX_ATTEMPTS_PER_WINDOW : Nat := 5

def WINDOW_MS : Nat := 15 * 60 * 1000

def LOCKOUT_THRESHOLDS : List Threshold :=
  [⟨5, 1 * 60 * 1000⟩, ⟨10, 5 * 60 * 1000⟩, ⟨15, 15 * 60 * 1000⟩, ⟨20, 60 * 60 * 1000⟩]

/-- `LOCKOUT_THRESHOLDS[LOCKOUT_THRESHOLDS.length - 1]` -/
def lastThreshold : Threshold := LOCKOUT_THRESHOLDS.getLast (by simp [LOCKOUT_THRESHOLDS])

def RATE_LIMIT_VERSION : Nat := 1

def HMAC_APP_CONSTANT : String := "usbvault-rate-limiter-integrity-v1"

/-! ## The state -/

structure RateLimitState where
  attempts : List Nat
  consecutiveFailures : Nat
  lockoutUntil : Nat
  deriving DecidableEq, Repr

namespace RateLimitState

/-- `DEFAULT_STATE` -/
def default : RateLimitState := ⟨[], 0, 0⟩

/-- `TAMPERED_LOCKOUT_STATE`, from now on. -/
def tampered (now : Nat) : RateLimitState :=
  ⟨[], lastThreshold.attempts, now + lastThreshold.durationMs⟩

def recordAttempt (now : Nat) (state : RateLimitState) : RateLimitState :=
  { state with attempts := (state.attempts.filter fun ts => now - ts < WINDOW_MS) ++ [now] }

/-- The lockout for a number of failures: the thresholds are gone through from
the last to the first. -/
def lockout (failures : Nat) : Option Threshold :=
  LOCKOUT_THRESHOLDS.reverse.find? fun t => t.attempts ≤ failures

def recordFailure (now : Nat) (state : RateLimitState) : RateLimitState :=
  { state with
    consecutiveFailures := state.consecutiveFailures + 1
    lockoutUntil :=
      match lockout (state.consecutiveFailures + 1) with
      | some t => now + t.durationMs
      | none => state.lockoutUntil }

def recordSuccess (state : RateLimitState) : RateLimitState :=
  { state with consecutiveFailures := 0, lockoutUntil := 0 }

def toData (state : RateLimitState) : Data :=
  .object
    [("attempts", .array (state.attempts.map .number)),
      ("consecutiveFailures", .number state.consecutiveFailures),
      ("lockoutUntil", .number state.lockoutUntil)]

/-- `{ ...DEFAULT_STATE, ...signed.state }` -/
def ofData (d : Data) : RateLimitState where
  attempts := (Data.required (fun a => a.asArray.bind fun l => l.mapM Data.asNumber)
    "attempts" d).getD default.attempts
  consecutiveFailures :=
    (Data.required Data.asNumber "consecutiveFailures" d).getD default.consecutiveFailures
  lockoutUntil := (Data.required Data.asNumber "lockoutUntil" d).getD default.lockoutUntil

end RateLimitState

/-- `checkAllowed`, without what it says to the user. -/
def allowed (now : Nat) (state : RateLimitState) : Bool :=
  state.lockoutUntil ≤ now
    ∧ (state.attempts.filter fun ts => now - ts < WINDOW_MS).length < MAX_ATTEMPTS_PER_WINDOW

/-! ## Signing -/

/-- HMAC-SHA256, with its key and message. -/
structure Hmac where
  sign : Bytes → Bytes → Bytes
  length_sign : ∀ key message, (sign key message).length = 32

/-- The key material. -/
def hmacKey (installId : String) : Bytes :=
  Utf8.encode (HMAC_APP_CONSTANT ++ ":" ++ installId).toList

/-- `JSON.stringify` of what has been parsed. A state with a number that is not
whole, or with half a character, has a text too, but none that was signed. A
script also keeps one of the properties of one name, puts names that are
integers first and rounds numbers to doubles; here all stand as in the text. -/
def stringify (state : Option Value) : Option (List Char) :=
  match state with
  | none => some "undefined".toList
  | some v => (Data.ofValue v.canonical).map Data.text

def computeHmac (H : Hmac) (key : Bytes) (text : List Char) (version : Nat) : List Char :=
  Digits.encodeHex (H.sign key (Utf8.encode (text ++ '|' :: JsonText.decimal version)))

def verifyHmac (H : Hmac) (key : Bytes) (state : Option Value) (version : Nat)
    (hmac : Option Value) : Bool :=
  (stringify state).any fun text =>
    match hmac with
    | some (.string us) => us = units (String.ofList (computeHmac H key text version))
    | _ => false

/-- `JSON.stringify(signed)` -/
def signedText (state : RateLimitState) (hmac : List Char) : List Char :=
  (Data.object [("state", state.toData), ("version", .number RATE_LIMIT_VERSION),
    ("hmac", .string (String.ofList hmac))]).text

/-- What `loadState` makes of the stored text before it verifies the HMAC. -/
inductive Reading where
  | first
  | tampered
  | throws
  | signed (state hmac : Option Value)

/-- `null` has no property `hmac`, and to ask for it throws. -/
def reading (raw : Option (List Char)) : Reading :=
  match raw with
  | none | some [] => .first
  | some text =>
    match parse text with
    | none => .tampered
    | some .null => .throws
    | some parsed =>
      if Value.truthy (parsed.get "hmac") = false then .tampered
      else
        match parsed.get "version" with
        | some (.number version) =>
          if wholeNumber version = some RATE_LIMIT_VERSION then
            .signed (parsed.get "state") (parsed.get "hmac")
          else .tampered
        | _ => .tampered

/-! ## The limiter -/

/-- The state objects, of which `cache` is `_stateCache`; the install id that
`_hmacKeyCache` was made from; what is in `localStorage`; and the time. A page
that is loaded again begins a session with no cache. The code knows nothing of
`signed`, the states whose HMAC was stored, and of the number of times the
tamper lockout was raised. -/
structure Store where
  objects : Nat → RateLimitState
  created : Nat
  cache : Option Nat
  keyCache : Option String
  installId : Option String
  record : Option (List Char)
  clock : Nat
  session : Nat
  signed : List RateLimitState
  lockouts : Nat

def Store.initial : Store := ⟨fun _ => .default, 0, none, none, none, none, 0, 0, [], 0⟩

inductive Job where
  | checkAllowed
  | recordAttempt
  | recordFailure
  | recordSuccess
  | reset
  deriving DecidableEq, Repr

/-- What follows `saveState`. -/
inductive Next where
  | returnState (job : Job) (obj : Nat)
  | returnCache (job : Job)
  | finish
  deriving DecidableEq, Repr

/-- A call at an await, by what comes next. -/
inductive Pc where
  | called (job : Job)
  | importing (job : Job) (key : String) (state hmac : Option Value)
  | verifying (job : Job) (key : String) (state hmac : Option Value)
  | loaded (job : Job) (obj : Nat)
  | keyed (key : String) (obj : Nat) (next : Next)
  | signing (key : String) (obj : Nat) (state : RateLimitState) (next : Next)
  | finished

structure Call where
  session : Nat
  pc : Pc

/-- Whether what the call awaits, reads or writes ends well; whether
`localStorage` has the install id or takes it; and the random id. -/
structure Outcome where
  works : Bool
  idKept : Bool
  randomId : String
  deriving DecidableEq, Repr

namespace Store

def create (state : RateLimitState) (st : Store) : Store × Nat :=
  ({ st with objects := Function.update st.objects st.created state, created := st.created + 1 },
    st.created)

def getInstallId (o : Outcome) (st : Store) : Store × String :=
  if o.idKept then
    match st.installId with
    | some id => (st, id)
    | none => ({ st with installId := some o.randomId }, o.randomId)
  else (st, "fallback-install-id")

/-- `getHmacKey` up to its await. -/
def getHmacKey (o : Outcome) (st : Store) : Store × String :=
  match st.keyCache with
  | some key => (st, key)
  | none => st.getInstallId o

/-- `saveState` up to its first await. -/
def saveState (obj : Nat) (next : Next) (o : Outcome) (st : Store) : Store × Pc :=
  let (st, key) := { st with cache := some obj }.getHmacKey o
  (st, .keyed key obj next)

/-- A new object becomes the cached state and is returned. -/
def cacheState (state : RateLimitState) (job : Job) (st : Store) : Store × Pc :=
  let (st, obj) := st.create state
  ({ st with cache := some obj }, .loaded job obj)

def lockOut (job : Job) (o : Outcome) (st : Store) : Store × Pc :=
  let (st, obj) := { st with lockouts := st.lockouts + 1 }.create (.tampered st.clock)
  st.saveState obj (.returnCache job) o

def loadState (job : Job) (o : Outcome) (st : Store) : Store × Pc :=
  match st.cache with
  | some obj => (st, .loaded job obj)
  | none =>
    if o.works = false then st.cacheState .default job
    else
      match reading st.record with
      | .first =>
        let (st, fresh) := st.create .default
        st.saveState fresh (.returnState job fresh) o
      | .tampered => st.lockOut job o
      | .throws => st.cacheState .default job
      | .signed state hmac =>
        let (st, key) := st.getHmacKey o
        (st, .importing job key state hmac)

/-- The new state for a job, or none if it changes nothing. -/
def jobState (job : Job) (obj : Nat) (st : Store) : Option RateLimitState :=
  match job with
  | .checkAllowed => none
  | .recordAttempt => some ((st.objects obj).recordAttempt st.clock)
  | .recordFailure => some ((st.objects obj).recordFailure st.clock)
  | .recordSuccess => some (st.objects obj).recordSuccess
  | .reset => none

/-- What was awaited in `saveState` is over. -/
def proceed (next : Next) (st : Store) : Store × Pc :=
  match next with
  | .returnState job obj => (st, .loaded job obj)
  | .returnCache job =>
    match st.cache with
    | some obj => (st, .loaded job obj)
    | none => (st, .finished)
  | .finish => (st, .finished)

end Store

def resume (H : Hmac) (st : Store) (pc : Pc) (o : Outcome) : Store × Pc :=
  match pc with
  | .called .reset =>
    let (st, obj) := { st with keyCache := none }.create .default
    st.saveState obj .finish o
  | .called job => st.loadState job o
  -- an error while verifying is taken for a first launch
  | .importing job key state hmac =>
    if o.works = false then st.cacheState .default job
    else ({ st with keyCache := some key }, .verifying job key state hmac)
  | .verifying job key state hmac =>
    if o.works = false then st.cacheState .default job
    else if verifyHmac H (hmacKey key) state RATE_LIMIT_VERSION hmac then
      st.cacheState (((state.bind fun v => Data.ofValue v.canonical).map
        RateLimitState.ofData).getD .default) job
    else st.lockOut job o
  | .loaded job obj =>
    match st.jobState job obj with
    | none => (st, .finished)
    | some state =>
      { st with objects := Function.update st.objects obj state }.saveState obj .finish o
  | .keyed key obj next =>
    if o.works = false then st.proceed next
    else ({ st with keyCache := some key }, .signing key obj (st.objects obj) next)
  | .signing key obj state next =>
    if o.works = false then st.proceed next
    else
      { st with
        record := some (signedText (st.objects obj)
          (computeHmac H (hmacKey key) state.toData.text RATE_LIMIT_VERSION))
        signed := st.signed ++ [state] }.proceed next
  | .finished => (st, .finished)

/-- The calls of an earlier session are gone with their page. -/
def exec (H : Hmac) (_ : Nat) (st : Store) (call : Call) (o : Outcome) : Store × Call :=
  if call.session = st.session then
    ((resume H st call.pc o).1, ⟨call.session, (resume H st call.pc o).2⟩)
  else (st, call)

inductive Event where
  | call (job : Job)
  | advance (ms : Nat)
  | reload
  | modify (raw : Option (List Char))

def world (st : Store) : Event → Store × Option Call
  | .call job => (st, some ⟨st.session, .called job⟩)
  | .advance ms => ({ st with clock := st.clock + ms }, none)
  | .reload => ({ st with cache := none, keyCache := none, session := st.session + 1 }, none)
  | .modify raw => ({ st with record := raw }, none)

def service (H : Hmac) : Service Store Call Event Outcome := ⟨world, exec H⟩

theorem exec_live (H : Hmac) (k : Nat) {st : Store} {call : Call} (h : call.session = st.session)
    (o : Outcome) : (service H).exec k st call o
      = ((resume H st call.pc o).1, ⟨call.session, (resume H st call.pc o).2⟩) :=
  if_pos h

theorem exec_dead (H : Hmac) (k : Nat) {st : Store} {call : Call} (h : call.session ≠ st.session)
    (o : Outcome) : (service H).exec k st call o = (st, call) :=
  if_neg h

/-! ## The property -/

/-- The record, if there is one, verifies when it is read back. -/
def Verifies (H : Hmac) (st : Store) : Prop :=
  st.record = none ∨ ∃ id state hmac, st.installId = some id
    ∧ reading st.record = .signed state hmac
    ∧ verifyHmac H (hmacKey id) state RATE_LIMIT_VERSION hmac = true

/-- The object that the next statement of a call changes. -/
def changes (st : Store) (call : Call) : Option Nat :=
  if call.session = st.session then
    match call.pc with
    | .loaded job obj =>
      match st.jobState job obj with
      | some state => if state = st.objects obj then none else some obj
      | none => none
    | _ => none
  else none

/-- The object that a call has signed and not yet stored. -/
def signs (st : Store) (call : Call) : Option Nat :=
  if call.session = st.session then
    match call.pc with
    | .signing _ obj _ _ => some obj
    | _ => none
  else none

/-- Nothing else writes the record, the install id is kept, and no call changes
a state that another has signed and not yet stored. -/
def Careful (s : State Store Call) : Action Event Outcome → Prop
  | .world (.modify _) => False
  | .world _ => True
  | .exec k o =>
    o.idKept = true ∧ ∀ obj ∈ (s.calls[k]?).bind (changes s.store),
      ∀ call ∈ s.calls, signs s.store call ≠ some obj

instance (s : State Store Call) (a : Action Event Outcome) : Decidable (Careful s a) :=
  match a with
  | .world (.modify _) => inferInstanceAs (Decidable False)
  | .world (.call _) | .world (.advance _) | .world .reload => inferInstanceAs (Decidable True)
  | .exec _ _ => inferInstanceAs (Decidable (_ ∧ _))

/-! ## Reading back -/

theorem computeHmac_ne_nil (H : Hmac) (key : Bytes) (text : List Char) (version : Nat) :
    computeHmac H key text version ≠ [] := by
  intro h
  have hsign : H.sign key (Utf8.encode (text ++ '|' :: JsonText.decimal version)) = [] := by
    rw [← Digits.decodeHex_encodeHex (H.sign key _)]
    exact congrArg Digits.decodeHex h
  have hlength := H.length_sign key (Utf8.encode (text ++ '|' :: JsonText.decimal version))
  rw [hsign] at hlength
  cases hlength

theorem units_ne_nil {cs : List Char} (h : cs ≠ []) : units (String.ofList cs) ≠ [] := by
  obtain ⟨c, cs, rfl⟩ := List.exists_cons_of_ne_nil h
  rw [units, String.toList_ofList, List.flatMap_cons, codeUnits]
  split
  · exact List.cons_ne_nil _ _
  · exact List.cons_ne_nil _ _

theorem record_properties (state hmac : Data) :
    (Data.object [("state", state), ("version", .number RATE_LIMIT_VERSION),
        ("hmac", hmac)]).value.get "hmac" = some hmac.value
      ∧ (Data.object [("state", state), ("version", .number RATE_LIMIT_VERSION),
        ("hmac", hmac)]).value.get "version"
          = some (.number (JsonText.decimal RATE_LIMIT_VERSION))
      ∧ (Data.object [("state", state), ("version", .number RATE_LIMIT_VERSION),
        ("hmac", hmac)]).value.get "state" = some state.value :=
  ⟨rfl, rfl, rfl⟩

theorem reading_of_parse {text : List Char} {parsed : Value} {version : List Char}
    (hparse : parse text = some parsed) (hne : text ≠ []) (hnull : parsed ≠ .null)
    (hhmac : Value.truthy (parsed.get "hmac") = true)
    (hversion : parsed.get "version" = some (.number version))
    (hone : wholeNumber version = some RATE_LIMIT_VERSION) :
    reading (some text) = .signed (parsed.get "state") (parsed.get "hmac") := by
  obtain ⟨c, cs, rfl⟩ := List.exists_cons_of_ne_nil hne
  cases parsed with
  | null => exact absurd rfl hnull
  | bool b => cases hversion
  | number numeral => cases hversion
  | string us => cases hversion
  | array items => cases hversion
  | object members =>
    simp only [reading, hparse, hhmac, hversion, hone, Bool.true_eq_false, if_true, if_false]

theorem reading_signedText (state : RateLimitState) {hmac : List Char} (h : hmac ≠ []) :
    reading (some (signedText state hmac))
      = .signed (some state.toData.value) (some (.string (units (String.ofList hmac)))) := by
  obtain ⟨hmac', hversion, hstate⟩ :=
    record_properties state.toData (.string (String.ofList hmac))
  have hread := reading_of_parse (parse_text _) (List.cons_ne_nil _ _) (by rintro ⟨⟩)
    (by
      rw [hmac']
      obtain ⟨u, us, hunits⟩ := List.exists_cons_of_ne_nil (units_ne_nil h)
      rw [Data.value, hunits]
      rfl) hversion (wholeNumber_decimal _)
  rw [hmac', hstate] at hread
  exact hread

theorem stringify_value (d : Data) : stringify (some d.value) = some d.text := by
  rw [stringify, Value.canonical_value, Data.ofValue_value]
  rfl

theorem verify_computeHmac (H : Hmac) (key : Bytes) (d : Data) :
    verifyHmac H key (some d.value) RATE_LIMIT_VERSION
      (some (.string (units (String.ofList
        (computeHmac H key d.text RATE_LIMIT_VERSION))))) = true := by
  rw [verifyHmac, stringify_value]
  exact decide_eq_true rfl

/-- **A record whose state is the one that was signed** verifies. -/
theorem verifies_signed (H : Hmac) {st : Store} {id : String} {state : RateLimitState}
    (hid : st.installId = some id) (hrecord : st.record = some (signedText state
      (computeHmac H (hmacKey id) state.toData.text RATE_LIMIT_VERSION))) : Verifies H st := by
  right
  refine ⟨id, _, _, hid, ?_, verify_computeHmac H (hmacKey id) state.toData⟩
  rw [hrecord]
  exact reading_signedText state (computeHmac_ne_nil H _ _ _)

/-! ## The invariant -/

structure Sound (H : Hmac) (st : Store) : Prop where
  cache : ∀ obj, st.cache = some obj → obj < st.created
  key : ∀ id, st.keyCache = some id → st.installId = some id
  record : Verifies H st
  lockouts : st.lockouts = 0

def NextOk (st : Store) : Next → Prop
  | .returnState _ obj => obj < st.created
  | _ => True

/-- Keys are made from the install id, what is verified verifies, and what is
signed is the state as it is. -/
def PcOk (H : Hmac) (st : Store) : Pc → Prop
  | .called _ | .finished => True
  | .importing _ key state hmac | .verifying _ key state hmac =>
    st.installId = some key ∧ verifyHmac H (hmacKey key) state RATE_LIMIT_VERSION hmac = true
  | .loaded _ obj => obj < st.created
  | .keyed key obj next => st.installId = some key ∧ obj < st.created ∧ NextOk st next
  | .signing key obj state next =>
    st.installId = some key ∧ obj < st.created ∧ st.objects obj = state ∧ NextOk st next

def CallOk (H : Hmac) (st : Store) (_ : Nat) (call : Call) : Prop :=
  call.session ≤ st.session ∧ (call.session = st.session → PcOk H st call.pc)

/-- What a statement that changes no state leaves alone. -/
structure Grows (st st' : Store) : Prop where
  session : st'.session = st.session
  created : st.created ≤ st'.created
  installId : ∀ id, st.installId = some id → st'.installId = some id
  objects : ∀ obj, obj < st.created → st'.objects obj = st.objects obj

theorem Grows.refl (st : Store) : Grows st st := ⟨rfl, le_rfl, fun _ h => h, fun _ _ => rfl⟩

theorem Grows.trans {a b c : Store} (h : Grows a b) (h' : Grows b c) : Grows a c where
  session := h'.session.trans h.session
  created := h.created.trans h'.created
  installId := fun id hid => h'.installId id (h.installId id hid)
  objects := fun obj hobj =>
    (h'.objects obj (hobj.trans_le h.created)).trans (h.objects obj hobj)

theorem NextOk.grows {st st' : Store} {next : Next} (h : NextOk st next) (hgrows : Grows st st') :
    NextOk st' next := by
  cases next with
  | returnState job obj => exact lt_of_lt_of_le h hgrows.created
  | returnCache job => trivial
  | finish => trivial

theorem PcOk.grows {H : Hmac} {st st' : Store} {pc : Pc} (h : PcOk H st pc)
    (hgrows : Grows st st') : PcOk H st' pc := by
  cases pc with
  | called job => trivial
  | importing job key state hmac => exact ⟨hgrows.installId key h.1, h.2⟩
  | verifying job key state hmac => exact ⟨hgrows.installId key h.1, h.2⟩
  | loaded job obj => exact lt_of_lt_of_le h hgrows.created
  | keyed key obj next =>
    obtain ⟨hkey, hobj, hnext⟩ := h
    exact ⟨hgrows.installId key hkey, hobj.trans_le hgrows.created, hnext.grows hgrows⟩
  | signing key obj state next =>
    obtain ⟨hkey, hobj, hstate, hnext⟩ := h
    exact ⟨hgrows.installId key hkey, hobj.trans_le hgrows.created,
      (hgrows.objects obj hobj).trans hstate, hnext.grows hgrows⟩
  | finished => trivial

/-! ## The parts of a statement -/

/-- The store and the next await of a call after a statement. -/
structure Keeps (H : Hmac) (st : Store) (next : Store × Pc) : Prop where
  sound : Sound H next.1
  pc : PcOk H next.1 next.2
  grows : Grows st next.1

variable {H : Hmac} {st : Store} {o : Outcome}

theorem Keeps.after {st' : Store} {next : Store × Pc} (h : Keeps H st' next)
    (hgrows : Grows st st') : Keeps H st next :=
  ⟨h.sound, h.pc, hgrows.trans h.grows⟩

theorem Verifies.installId {st' : Store} (h : Verifies H st) (hrecord : st'.record = st.record)
    (hid : ∀ id, st.installId = some id → st'.installId = some id) : Verifies H st' := by
  rcases h with hnone | ⟨id, state, hmac, hinstall, hread, hverify⟩
  · exact .inl (hrecord.trans hnone)
  · exact .inr ⟨id, state, hmac, hid id hinstall, by rw [hrecord]; exact hread, hverify⟩

theorem create_sound (h : Sound H st) (state : RateLimitState) :
    Sound H (st.create state).1 ∧ Grows st (st.create state).1 where
  left :=
    { cache := fun obj hobj => Nat.lt_succ_of_lt (h.cache obj hobj)
      key := h.key
      record := h.record
      lockouts := h.lockouts }
  right :=
    { session := rfl
      created := Nat.le_succ _
      installId := fun _ hid => hid
      objects := fun _ hobj => Function.update_of_ne (Nat.ne_of_lt hobj) _ _ }

theorem getHmacKey_sound (h : Sound H st) (ho : o.idKept = true) :
    Sound H (st.getHmacKey o).1 ∧ Grows st (st.getHmacKey o).1
      ∧ (st.getHmacKey o).1.installId = some (st.getHmacKey o).2 := by
  rw [Store.getHmacKey]
  cases hkey : st.keyCache with
  | some key => exact ⟨h, .refl st, h.key key hkey⟩
  | none =>
    dsimp only
    rw [Store.getInstallId, if_pos ho]
    cases hid : st.installId with
    | some id => exact ⟨h, .refl st, hid⟩
    | none =>
      have hnew : ∀ id, st.installId = some id → some o.randomId = some id := by
        intro id hsome
        rw [hid] at hsome
        cases hsome
      refine ⟨⟨h.cache, ?_, h.record.installId rfl hnew, h.lockouts⟩,
        ⟨rfl, le_rfl, hnew, fun _ _ => rfl⟩, rfl⟩
      intro id hid'
      rw [hkey] at hid'
      cases hid'

theorem saveState_keeps (h : Sound H st) (ho : o.idKept = true) {obj : Nat}
    (hobj : obj < st.created) {next : Next} (hnext : NextOk st next) :
    Keeps H st (st.saveState obj next o) := by
  have hcached : Sound H { st with cache := some obj } :=
    ⟨fun _ hobj' => Option.some.inj hobj' ▸ hobj, h.key, h.record, h.lockouts⟩
  obtain ⟨hsound, hgrows, hid⟩ := getHmacKey_sound hcached ho
  have hfrom : Grows st { st with cache := some obj } := ⟨rfl, le_rfl, fun _ h => h, fun _ _ => rfl⟩
  have hgrows' := hfrom.trans hgrows
  exact ⟨hsound, ⟨hid, hobj.trans_le hgrows'.created, hnext.grows hgrows'⟩, hgrows'⟩

theorem cacheState_keeps (h : Sound H st) (state : RateLimitState) (job : Job) :
    Keeps H st (st.cacheState state job) := by
  obtain ⟨hsound, hgrows⟩ := create_sound h state
  refine ⟨⟨?_, hsound.key, hsound.record, hsound.lockouts⟩, Nat.lt_succ_self _,
    hgrows.session, hgrows.created, hgrows.installId, hgrows.objects⟩
  intro obj hobj
  rw [← Option.some.inj hobj]
  exact Nat.lt_succ_self _

theorem proceed_keeps (h : Sound H st) {next : Next} (hnext : NextOk st next) :
    Keeps H st (st.proceed next) := by
  cases next with
  | returnState job obj => exact ⟨h, hnext, .refl st⟩
  | returnCache job =>
    rw [Store.proceed]
    cases hcache : st.cache with
    | some obj => exact ⟨h, h.cache obj hcache, .refl st⟩
    | none => exact ⟨h, trivial, .refl st⟩
  | finish => exact ⟨h, trivial, .refl st⟩

theorem loadState_keeps (h : Sound H st) (ho : o.idKept = true) (job : Job) :
    Keeps H st (st.loadState job o) := by
  rw [Store.loadState]
  cases hcache : st.cache with
  | some obj => exact ⟨h, h.cache obj hcache, .refl st⟩
  | none =>
    dsimp only
    split
    · exact cacheState_keeps h .default job
    · rcases h.record with hnone | ⟨id, state, hmac, hid, hread, hverify⟩
      · have hfirst : reading st.record = .first := by rw [hnone]; rfl
        rw [hfirst]
        obtain ⟨hsound, hgrows⟩ := create_sound h .default
        have hnew : st.created < (st.create .default).1.created := Nat.lt_succ_self _
        have hnext : NextOk (st.create .default).1 (.returnState job st.created) := hnew
        exact (saveState_keeps hsound ho hnew hnext).after hgrows
      · rw [hread]
        obtain ⟨hsound, hgrows, hkey⟩ := getHmacKey_sound h ho
        have hsame := (hgrows.installId id hid).symm.trans hkey
        refine ⟨hsound, ⟨hkey, ?_⟩, hgrows⟩
        rw [← Option.some.inj hsame]
        exact hverify

theorem keyCache_keeps (h : Sound H st) {key : String} (hkey : st.installId = some key) {pc : Pc}
    (hpc : PcOk H { st with keyCache := some key } pc) :
    Keeps H st ({ st with keyCache := some key }, pc) where
  sound := ⟨h.cache, fun _ hid => Option.some.inj hid ▸ hkey, h.record, h.lockouts⟩
  pc := hpc
  grows := ⟨rfl, le_rfl, fun _ hid => hid, fun _ _ => rfl⟩

/-- What a call changes before it saves the state. -/
inductive Changed (st : Store) : Pc → Store → Prop
  | nothing (pc : Pc) : Changed st pc st
  | object {job : Job} {obj : Nat} {state : RateLimitState}
      (hjob : st.jobState job obj = some state) :
      Changed st (.loaded job obj) { st with objects := Function.update st.objects obj state }

/-- **One statement** changes one object at most, and apart from that keeps
everything. -/
theorem resume_keeps {pc : Pc} (h : Sound H st) (hpc : PcOk H st pc) (ho : o.idKept = true) :
    ∃ st', Changed st pc st' ∧ Keeps H st' (resume H st pc o) := by
  cases pc with
  | called job =>
    refine ⟨st, .nothing _, ?_⟩
    cases job with
    | reset =>
      have hnoKey : Sound H { st with keyCache := none } :=
        ⟨h.cache, (by rintro _ ⟨⟩), h.record, h.lockouts⟩
      obtain ⟨hsound, hgrows⟩ := create_sound hnoKey .default
      have hnext : NextOk ({ st with keyCache := none }.create .default).1 .finish := trivial
      have hsave := saveState_keeps hsound ho (Nat.lt_succ_self st.created) hnext
      exact (hsave.after hgrows).after ⟨rfl, le_rfl, fun _ h => h, fun _ _ => rfl⟩
    | checkAllowed => exact loadState_keeps h ho _
    | recordAttempt => exact loadState_keeps h ho _
    | recordFailure => exact loadState_keeps h ho _
    | recordSuccess => exact loadState_keeps h ho _
  | importing job key state hmac =>
    refine ⟨st, .nothing _, ?_⟩
    rw [resume]
    split
    · exact cacheState_keeps h .default job
    · exact keyCache_keeps h hpc.1 hpc
  | verifying job key state hmac =>
    refine ⟨st, .nothing _, ?_⟩
    rw [resume, if_pos hpc.2]
    split
    · exact cacheState_keeps h .default job
    · exact cacheState_keeps h _ job
  | loaded job obj =>
    rw [resume]
    cases hjob : st.jobState job obj with
    | none => exact ⟨st, .nothing _, h, trivial, .refl st⟩
    | some state =>
      refine ⟨_, .object hjob, ?_⟩
      have hsound : Sound H { st with objects := Function.update st.objects obj state } :=
        ⟨h.cache, h.key, h.record, h.lockouts⟩
      exact saveState_keeps hsound ho hpc trivial
  | keyed key obj next =>
    obtain ⟨hkey, hobj, hnext⟩ := hpc
    refine ⟨st, .nothing _, ?_⟩
    rw [resume]
    split
    · exact proceed_keeps h hnext
    · exact keyCache_keeps h hkey ⟨hkey, hobj, rfl, hnext⟩
  | signing key obj state next =>
    obtain ⟨hkey, hobj, hstate, hnext⟩ := hpc
    refine ⟨st, .nothing _, ?_⟩
    rw [resume]
    split
    · exact proceed_keeps h hnext
    · have hsound : Sound H { st with
          record := some (signedText (st.objects obj)
            (computeHmac H (hmacKey key) state.toData.text RATE_LIMIT_VERSION))
          signed := st.signed ++ [state] } :=
        ⟨h.cache, h.key, verifies_signed H hkey (by rw [hstate]), h.lockouts⟩
      exact (proceed_keeps hsound hnext).after ⟨rfl, le_rfl, fun _ h => h, fun _ _ => rfl⟩
  | finished => exact ⟨st, .nothing _, h, trivial, .refl st⟩

/-! ## Runs -/

/-- A change of one object leaves a call alone that has not signed it. -/
theorem PcOk.changed {H : Hmac} {st st' : Store} {pc q : Pc} (hchanged : Changed st pc st')
    {session : Nat} (hlive : session = st.session) (hq : PcOk H st q)
    (hsigns : ∀ obj, changes st ⟨session, pc⟩ = some obj →
      signs st ⟨session, q⟩ ≠ some obj) : PcOk H st' q := by
  cases hchanged with
  | nothing => exact hq
  | @object job obj state hjob =>
    cases q with
    | signing key obj' signed next =>
      obtain ⟨hkey, hobj, hsame, hnext⟩ := hq
      refine ⟨hkey, hobj, ?_, hnext⟩
      show Function.update st.objects obj state obj' = signed
      by_cases heq : obj' = obj
      · subst heq
        rw [Function.update_self, ← hsame]
        by_contra hne
        refine hsigns obj' ?_ ?_
        · rw [changes, if_pos hlive]
          dsimp only
          rw [hjob]
          exact if_neg hne
        · rw [signs, if_pos hlive]
      · rw [Function.update_of_ne heq, hsame]
    | called job' => trivial
    | importing job' key state' hmac => exact hq
    | verifying job' key state' hmac => exact hq
    | loaded job' obj' => exact hq
    | keyed key obj' next => exact hq
    | finished => trivial

theorem Changed.session {st st' : Store} {pc : Pc} (h : Changed st pc st') :
    st'.session = st.session := by
  cases h <;> rfl

theorem holds_run {H : Hmac} {actions : List (Action Event Outcome)}
    (hrun : Run.Each (service H).step Careful ⟨Store.initial, []⟩ actions) :
    Calls.Holds (Sound H) (CallOk H) ((service H).run ⟨Store.initial, []⟩ actions) := by
  have hinitial : Sound H Store.initial :=
    ⟨(by rintro _ ⟨⟩), (by rintro _ ⟨⟩), .inl rfl, rfl⟩
  refine Calls.Holds.run ?_ ?_ hrun (Calls.Holds.initial hinitial)
  · intro s e hs hcareful
    cases e with
    | call job =>
      refine ⟨hs.store, fun k p _ hp => hp, ?_⟩
      rintro _ ⟨⟩
      exact ⟨le_rfl, fun _ => trivial⟩
    | advance ms =>
      refine ⟨⟨hs.store.cache, hs.store.key, hs.store.record, hs.store.lockouts⟩, ?_, ?_⟩
      · intro k p _ hp
        have hgrows : Grows s.store { s.store with clock := s.store.clock + ms } :=
          ⟨rfl, le_rfl, fun _ h => h, fun _ _ => rfl⟩
        exact ⟨hp.1, fun hlive => (hp.2 hlive).grows hgrows⟩
      · rintro _ ⟨⟩
    | reload =>
      refine ⟨⟨(by rintro _ ⟨⟩), (by rintro _ ⟨⟩), hs.store.record, hs.store.lockouts⟩, ?_, ?_⟩
      · intro k p _ hp
        refine ⟨Nat.le_succ_of_le hp.1, fun hlive => ?_⟩
        have hdead : p.session = s.store.session + 1 := hlive
        have hold := hp.1
        omega
      · rintro _ ⟨⟩
    | modify raw => exact hcareful.elim
  · intro s k p o hs hcareful hk
    obtain ⟨hkept, hapart⟩ := hcareful
    rw [hk, Option.bind_some] at hapart
    obtain ⟨hle, hpc⟩ := hs.call k p hk
    by_cases hlive : p.session = s.store.session
    · rw [exec_live H k hlive]
      obtain ⟨st', hchanged, hkeeps⟩ := resume_keeps hs.store (hpc hlive) hkept
      have hsession : (resume H s.store p.pc o).1.session = s.store.session :=
        hkeeps.grows.session.trans hchanged.session
      refine ⟨hkeeps.sound, ⟨?_, fun _ => hkeeps.pc⟩, ?_⟩
      · show p.session ≤ (resume H s.store p.pc o).1.session
        rw [hsession]
        exact hle
      · intro j q hj hq hcall
        refine ⟨hcall.1.trans_eq hsession.symm, fun hqlive => ?_⟩
        replace hqlive : q.session = s.store.session := hqlive.trans hsession
        have hmem : q ∈ s.calls := List.mem_of_getElem? hq
        have hsame : q.session = p.session := hqlive.trans hlive.symm
        have hbefore := (hcall.2 hqlive).changed hchanged hlive fun obj hobj => by
          rw [← hsame]
          exact hapart obj hobj q hmem
        exact hbefore.grows hkeeps.grows
    · rw [exec_dead H k hlive]
      exact ⟨hs.store, ⟨hle, fun h => absurd h hlive⟩, fun j q _ _ hq => hq⟩

/-- **The limiter never locks itself out**: after every careful run the record
verifies, and the tamper lockout has not been raised. -/
theorem verifies_run (H : Hmac) {actions : List (Action Event Outcome)}
    (hrun : Run.Each (service H).step Careful ⟨Store.initial, []⟩ actions) :
    Verifies H ((service H).run ⟨Store.initial, []⟩ actions).store
      ∧ ((service H).run ⟨Store.initial, []⟩ actions).store.lockouts = 0 := by
  have hsound := (holds_run hrun).store
  exact ⟨hsound.record, hsound.lockouts⟩

/-- A sum in place of the hash. -/
def byteSum : Hmac where
  sign key message :=
    (key.foldl (· + ·) 0 + message.foldl (· + ·) 0) :: List.replicate 31 0
  length_sign _ _ := rfl

def fine : Outcome := ⟨true, true, "id"⟩

/-- A failure is recorded on the first launch, and an attempt behind it. -/
def oneByOne : List (Action Event Outcome) :=
  [.world (.call .recordFailure), .exec 0 fine, .exec 0 fine, .exec 0 fine, .exec 0 fine,
   .exec 0 fine, .world (.call .recordAttempt), .exec 1 fine, .exec 0 fine, .exec 1 fine,
   .exec 1 fine, .exec 1 fine]

theorem verifies_oneByOne :
    Verifies byteSum ((service byteSum).run ⟨Store.initial, []⟩ oneByOne).store
      ∧ ((service byteSum).run ⟨Store.initial, []⟩ oneByOne).store.lockouts = 0 :=
  verifies_run byteSum (by decide)

/-- A failure is recorded while the state of a first launch is being signed;
then the page is loaded again. -/
def skewed : List (Action Event Outcome) :=
  [.world (.call .recordAttempt), .exec 0 fine, .world (.call .recordFailure), .exec 1 fine,
   .exec 0 fine, .exec 1 fine, .exec 0 fine]

theorem skewed_record :
    ((service byteSum).run ⟨Store.initial, []⟩ skewed).store.record
      = some (signedText ⟨[], 1, 0⟩ (computeHmac byteSum (hmacKey "id")
          RateLimitState.default.toData.text RATE_LIMIT_VERSION)) := rfl

theorem skewed_verify :
    verifyHmac byteSum (hmacKey "id") (some (RateLimitState.toData ⟨[], 1, 0⟩).value)
      RATE_LIMIT_VERSION (some (.string (units (String.ofList (computeHmac byteSum (hmacKey "id")
        RateLimitState.default.toData.text RATE_LIMIT_VERSION))))) = false := by
  rw [verifyHmac, stringify_value]
  decide +kernel

/-- The record that the limiter has made locks it out. -/
theorem skewed_locks_out :
    ¬Verifies byteSum ((service byteSum).run ⟨Store.initial, []⟩ skewed).store
      ∧ ((service byteSum).run ⟨Store.initial, []⟩ (skewed ++ [.world .reload,
          .world (.call .checkAllowed), .exec 2 fine, .exec 2 fine, .exec 2 fine])).store.lockouts
        = 1 := by
  constructor
  · rintro (hnone | ⟨id, state, hmac, hid, hread, hverify⟩)
    · rw [skewed_record] at hnone
      cases hnone
    · obtain rfl : "id" = id := Option.some.inj hid
      rw [skewed_record, reading_signedText _ (computeHmac_ne_nil _ _ _ _)] at hread
      cases hread
      rw [skewed_verify] at hverify
      cases hverify
  · decide +kernel

end UsbVault.App.RateLimiter
