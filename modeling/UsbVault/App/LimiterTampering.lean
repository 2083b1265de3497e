import UsbVault.App.RateLimiter

/-!
# Tampering with the rate limiter

What becomes of a lockout when the record in `localStorage` is changed by
someone without the HMAC key and the page is loaded again. Text that does not
verify is answered with twenty failures and an hour. But no text is taken for a
first launch, so is the text `null`, and an older record verifies like the
last one.

`nextStart_atLeast_iff` says which texts leave the limiter at least as
restrictive as it was.
-/

namespace UsbVault.App.RateLimiter

open Wire Json Calls

/-! ## The property -/

/-- The state that is cached. -/
def current (st : Store) : Option RateLimitState := st.cache.map st.objects

/-- As restrictive as another one, at this time. -/
structure AtLeast (now : Nat) (loaded limit : RateLimitState) : Prop where
  lockout : now < limit.lockoutUntil → limit.lockoutUntil ≤ loaded.lockoutUntil
  failures : limit.consecutiveFailures ≤ loaded.consecutiveFailures

instance (now : Nat) (loaded limit : RateLimitState) : Decidable (AtLeast now loaded limit) :=
  decidable_of_iff
    ((now < limit.lockoutUntil → limit.lockoutUntil ≤ loaded.lockoutUntil)
      ∧ limit.consecutiveFailures ≤ loaded.consecutiveFailures)
    ⟨fun h => ⟨h.1, h.2⟩, fun h => ⟨h.lockout, h.failures⟩⟩

/-- The record is replaced, and the page is loaded again after some time. The
outcomes are those of the read, of the import of the key, and of the HMAC. -/
def nextStart (H : Hmac) (s : State Store Call) (raw : Option (List Char)) (ms : Nat)
    (read imported signed : Outcome) : State Store Call :=
  (service H).run s
    [.world (.modify raw), .world .reload, .world (.advance ms), .world (.call .checkAllowed),
      .exec s.calls.length read, .exec s.calls.length imported, .exec s.calls.length signed]

def stateData (state : Option Value) : Option Data := state.bind fun v => Data.ofValue v.canonical

/-- A state that the limiter has signed. -/
def Signed (st : Store) (state : Option Value) (old : RateLimitState) : Prop :=
  old ∈ st.signed ∧ stateData state = some old.toData

/-- Without the key, what verifies is a state that the limiter has signed. -/
def Unforged (H : Hmac) (s : State Store Call) : Action Event Outcome → Prop
  | .world _ => True
  | .exec k _ => ∀ call job key state hmac, s.calls[k]? = some call →
      call.pc = .verifying job key state hmac →
      verifyHmac H (hmacKey key) state RATE_LIMIT_VERSION hmac = true →
      ∃ old, Signed s.store state old

/-- The text can be read and is neither missing nor `null`. Either it has the
HMAC of a state that is at least as restrictive, or it does not verify and there
are no more failures than a tampered record counts. -/
def Kept (H : Hmac) (st : Store) (limit : RateLimitState) (raw : Option (List Char)) (now : Nat)
    (read imported signed : Outcome) : Prop :=
  read.works = true ∧
    match reading raw with
    | .first | .throws => False
    | .tampered => limit.consecutiveFailures ≤ lastThreshold.attempts
    | .signed state hmac =>
      imported.works = true ∧ signed.works = true ∧
        if verifyHmac H (hmacKey (st.getInstallId read).2) state RATE_LIMIT_VERSION hmac then
          ∃ old, Signed st state old ∧ AtLeast now old limit
        else limit.consecutiveFailures ≤ lastThreshold.attempts

/-! ## Reachable states -/

/-- Who has no failures is not locked, and no lockout is longer than the last
threshold's. -/
structure Fair (clock : Nat) (state : RateLimitState) : Prop where
  failures : state.consecutiveFailures = 0 → state.lockoutUntil = 0
  lockout : state.lockoutUntil ≤ clock + lastThreshold.durationMs

theorem Fair.mono {now later : Nat} {state : RateLimitState} (h : Fair now state)
    (hle : now ≤ later) : Fair later state :=
  ⟨h.failures, h.lockout.trans (Nat.add_le_add_right hle _)⟩

theorem fair_default (clock : Nat) : Fair clock .default := ⟨fun _ => rfl, Nat.zero_le _⟩

theorem fair_tampered (clock : Nat) : Fair clock (.tampered clock) :=
  ⟨(by rintro ⟨⟩), le_rfl⟩

theorem duration_le {t : Threshold} (h : t ∈ LOCKOUT_THRESHOLDS) :
    t.durationMs ≤ lastThreshold.durationMs := by
  simp only [LOCKOUT_THRESHOLDS, List.mem_cons, List.not_mem_nil, or_false] at h
  rcases h with rfl | rfl | rfl | rfl
  all_goals decide

theorem fair_recordFailure {clock : Nat} {state : RateLimitState} (h : Fair clock state) :
    Fair clock (state.recordFailure clock) where
  failures := fun hzero => by cases hzero
  lockout := by
    rw [RateLimitState.recordFailure]
    dsimp only
    split
    · rename_i t ht
      have hmem : t ∈ LOCKOUT_THRESHOLDS := List.mem_reverse.mp (List.mem_of_find?_eq_some ht)
      exact Nat.add_le_add_left (duration_le hmem) _
    · exact h.lockout

theorem fair_jobState {st : Store} {job : Job} {obj : Nat} {state : RateLimitState}
    (h : Fair st.clock (st.objects obj)) (hjob : st.jobState job obj = some state) :
    Fair st.clock state := by
  cases job with
  | checkAllowed => cases hjob
  | recordAttempt =>
    cases hjob
    exact ⟨h.failures, h.lockout⟩
  | recordFailure =>
    cases hjob
    exact fair_recordFailure h
  | recordSuccess =>
    cases hjob
    exact ⟨fun _ => rfl, Nat.zero_le _⟩
  | reset => cases hjob

theorem ofData_toData (state : RateLimitState) :
    RateLimitState.ofData state.toData = state := by
  have hnumber : ∀ n : Nat, (Data.number n).asNumber = some (id n) := fun _ => rfl
  have hattempts : (state.attempts.map Data.number).mapM Data.asNumber = some state.attempts := by
    rw [Data.mapM_map hnumber, List.map_id]
  simp [RateLimitState.ofData, RateLimitState.toData, hattempts]

/-! ## What a statement keeps -/

/-- Every state in memory, and every state that was signed, is fair. -/
structure AllFair (st : Store) : Prop where
  objects : ∀ obj, Fair st.clock (st.objects obj)
  signed : ∀ old ∈ st.signed, Fair st.clock old

def PcFair (st : Store) : Pc → Prop
  | .signing _ _ state _ => Fair st.clock state
  | _ => True

/-- A statement of a call: the session and the time stay. -/
structure Advances (st : Store) (next : Store × Pc) : Prop where
  fair : AllFair next.1
  pc : PcFair next.1 next.2
  session : next.1.session = st.session
  clock : next.1.clock = st.clock

variable {H : Hmac} {st : Store} {o : Outcome}

/-- What comes before the statement may leave the session and the time alone. -/
theorem Advances.after {st' : Store} {next : Store × Pc} (h : Advances st' next)
    (hsession : st'.session = st.session) (hclock : st'.clock = st.clock) : Advances st next :=
  ⟨h.fair, h.pc, h.session.trans hsession, h.clock.trans hclock⟩

theorem AllFair.set (h : AllFair st) {state : RateLimitState} (hstate : Fair st.clock state)
    (obj : Nat) : AllFair { st with objects := Function.update st.objects obj state } := by
  refine ⟨fun obj' => ?_, h.signed⟩
  show Fair st.clock (Function.update st.objects obj state obj')
  by_cases hobj : obj' = obj
  · rw [hobj, Function.update_self]
    exact hstate
  · rw [Function.update_of_ne hobj]
    exact h.objects obj'

theorem AllFair.sign (h : AllFair st) {state : RateLimitState} (hstate : Fair st.clock state)
    (record : Option (List Char)) :
    AllFair { st with record := record, signed := st.signed ++ [state] } := by
  refine ⟨h.objects, fun old hold => ?_⟩
  rcases List.mem_append.mp hold with hbefore | hnew
  · exact h.signed old hbefore
  · rw [List.mem_singleton.mp hnew]
    exact hstate

theorem create_fair (h : AllFair st) {state : RateLimitState} (hstate : Fair st.clock state) :
    AllFair (st.create state).1 :=
  have hset := h.set hstate st.created
  ⟨hset.objects, hset.signed⟩

theorem cacheState_advances (h : AllFair st) {state : RateLimitState}
    (hstate : Fair st.clock state) (job : Job) : Advances st (st.cacheState state job) := by
  have hfair := create_fair h hstate
  exact ⟨⟨hfair.objects, hfair.signed⟩, trivial, rfl, rfl⟩

theorem getHmacKey_eq (st : Store) (o : Outcome) :
    ∃ id, (st.getHmacKey o).1 = { st with installId := id } := by
  obtain ⟨objects, created, cache, keyCache, installId, record, clock, session, signed,
    lockouts⟩ := st
  obtain ⟨works, idKept, randomId⟩ := o
  cases keyCache with
  | some key => exact ⟨installId, rfl⟩
  | none =>
    cases idKept with
    | false => exact ⟨installId, rfl⟩
    | true =>
      cases installId with
      | some id => exact ⟨some id, rfl⟩
      | none => exact ⟨some randomId, rfl⟩

theorem saveState_advances (h : AllFair st) (obj : Nat) (next : Next) (o : Outcome) :
    Advances st (st.saveState obj next o) := by
  obtain ⟨id, hkey⟩ := getHmacKey_eq { st with cache := some obj } o
  rw [Store.saveState]
  dsimp only
  rw [hkey]
  exact ⟨⟨h.objects, h.signed⟩, trivial, rfl, rfl⟩

theorem lockOut_advances (h : AllFair st) (job : Job) (o : Outcome) :
    Advances st (st.lockOut job o) := by
  have hcounted : AllFair { st with lockouts := st.lockouts + 1 } := ⟨h.objects, h.signed⟩
  have hsave := saveState_advances (create_fair hcounted (fair_tampered st.clock)) st.created
    (.returnCache job) o
  exact hsave.after rfl rfl

theorem loadState_advances (h : AllFair st) (job : Job) (o : Outcome) :
    Advances st (st.loadState job o) := by
  rw [Store.loadState]
  cases st.cache with
  | some obj => exact ⟨h, trivial, rfl, rfl⟩
  | none =>
    dsimp only
    split
    · exact cacheState_advances h (fair_default _) job
    · cases reading st.record with
      | first =>
        have hsave := saveState_advances (create_fair h (fair_default _)) st.created
          (.returnState job st.created) o
        exact hsave.after rfl rfl
      | tampered => exact lockOut_advances h job o
      | throws => exact cacheState_advances h (fair_default _) job
      | signed state hmac =>
        obtain ⟨id, hkey⟩ := getHmacKey_eq st o
        dsimp only
        rw [hkey]
        exact ⟨⟨h.objects, h.signed⟩, trivial, rfl, rfl⟩

theorem proceed_advances (h : AllFair st) (next : Next) : Advances st (st.proceed next) := by
  cases next with
  | returnState job obj => exact ⟨h, trivial, rfl, rfl⟩
  | returnCache job =>
    rw [Store.proceed]
    cases st.cache with
    | some obj => exact ⟨h, trivial, rfl, rfl⟩
    | none => exact ⟨h, trivial, rfl, rfl⟩
  | finish => exact ⟨h, trivial, rfl, rfl⟩

/-- A state that verifies was signed before. -/
def Genuine (H : Hmac) (st : Store) (pc : Pc) : Prop :=
  ∀ job key state hmac, pc = .verifying job key state hmac →
    verifyHmac H (hmacKey key) state RATE_LIMIT_VERSION hmac = true → ∃ old, Signed st state old

/-- **One statement** of a call makes fair states from fair ones. -/
theorem resume_advances {pc : Pc} (h : AllFair st) (hpc : PcFair st pc)
    (hgenuine : Genuine H st pc) : Advances st (resume H st pc o) := by
  cases pc with
  | called job =>
    cases job with
    | reset =>
      have hnoKey : AllFair { st with keyCache := none } := ⟨h.objects, h.signed⟩
      have hnew := create_fair hnoKey (fair_default _)
      have hsave := saveState_advances hnew st.created .finish o
      exact hsave.after rfl rfl
    | checkAllowed => exact loadState_advances h _ o
    | recordAttempt => exact loadState_advances h _ o
    | recordFailure => exact loadState_advances h _ o
    | recordSuccess => exact loadState_advances h _ o
  | importing job key state hmac =>
    rw [resume]
    split
    · exact cacheState_advances h (fair_default _) job
    · exact ⟨⟨h.objects, h.signed⟩, trivial, rfl, rfl⟩
  | verifying job key state hmac =>
    rw [resume]
    split
    · exact cacheState_advances h (fair_default _) job
    · split
      · rename_i hverify
        obtain ⟨old, hold, hdata⟩ := hgenuine job key state hmac rfl hverify
        rw [stateData] at hdata
        rw [hdata, Option.map_some, Option.getD_some, ofData_toData]
        exact cacheState_advances h (h.signed old hold) job
      · exact lockOut_advances h job o
  | loaded job obj =>
    rw [resume]
    cases hjob : st.jobState job obj with
    | none => exact ⟨h, trivial, rfl, rfl⟩
    | some state =>
      have hfair := h.set (fair_jobState (h.objects obj) hjob) obj
      have hsave := saveState_advances hfair obj .finish o
      exact hsave.after rfl rfl
  | keyed key obj next =>
    rw [resume]
    split
    · exact proceed_advances h next
    · exact ⟨⟨h.objects, h.signed⟩, h.objects obj, rfl, rfl⟩
  | signing key obj state next =>
    rw [resume]
    split
    · exact proceed_advances h next
    · have hsigned := h.sign hpc (some (signedText (st.objects obj)
        (computeHmac H (hmacKey key) state.toData.text RATE_LIMIT_VERSION)))
      have hnext := proceed_advances hsigned next
      exact hnext.after rfl rfl
  | finished => exact ⟨h, trivial, rfl, rfl⟩

/-- **Every reachable state is fair**, as is every state that was signed. -/
theorem fair_run {actions : List (Action Event Outcome)}
    (hrun : Run.Each (service H).step (Unforged H) ⟨Store.initial, []⟩ actions) :
    AllFair ((service H).run ⟨Store.initial, []⟩ actions).store := by
  have hinitial : AllFair Store.initial := ⟨fun _ => fair_default _, List.forall_mem_nil _⟩
  suffices hholds : Calls.Holds AllFair (fun st _ call => PcFair st call.pc)
      ((service H).run ⟨Store.initial, []⟩ actions) from hholds.store
  refine Calls.Holds.run ?_ ?_ hrun (Calls.Holds.initial hinitial)
  · intro s e hs _
    cases e with
    | call job =>
      refine ⟨hs.store, fun k p _ hp => hp, ?_⟩
      rintro _ ⟨⟩
      trivial
    | advance ms =>
      refine ⟨⟨?_, ?_⟩, ?_, (by rintro _ ⟨⟩)⟩
      · exact fun obj => (hs.store.objects obj).mono (Nat.le_add_right _ _)
      · exact fun old hold => (hs.store.signed old hold).mono (Nat.le_add_right _ _)
      · intro k p _ hp
        cases hpc : p.pc with
        | signing key obj state next =>
          rw [hpc] at hp
          exact Fair.mono hp (Nat.le_add_right _ _)
        | _ => trivial
    | reload => exact ⟨⟨hs.store.objects, hs.store.signed⟩, fun k p _ hp => hp, (by rintro _ ⟨⟩)⟩
    | modify raw =>
      exact ⟨⟨hs.store.objects, hs.store.signed⟩, fun k p _ hp => hp, (by rintro _ ⟨⟩)⟩
  · intro s k p o hs hunforged hk
    have hgenuine : Genuine H s.store p.pc :=
      fun job key state hmac hpc => hunforged p job key state hmac hk hpc
    by_cases hlive : p.session = s.store.session
    · rw [exec_live H k hlive]
      have hadvances := resume_advances (o := o) hs.store (hs.call k p hk) hgenuine
      refine ⟨hadvances.fair, hadvances.pc, fun j q _ _ hq => ?_⟩
      cases hpc : q.pc with
      | signing key obj state next =>
        rw [hpc] at hq
        show Fair (resume H s.store p.pc o).1.clock state
        rw [hadvances.clock]
        exact hq
      | _ => trivial
    · rw [exec_dead H k hlive]
      exact ⟨hs.store, hs.call k p hk, fun j q _ _ hq => hq⟩

/-! ## The next start -/

/-- The store when the page has been loaded again. -/
def started (st : Store) (raw : Option (List Char)) (ms : Nat) : Store :=
  { st with
    record := raw, cache := none, keyCache := none, session := st.session + 1,
    clock := st.clock + ms }

/-- What `loadState` returns then. -/
def loadedState (H : Hmac) (st : Store) (raw : Option (List Char)) (now : Nat)
    (read imported signed : Outcome) : RateLimitState :=
  if read.works = false then .default
  else
    match reading raw with
    | .first | .throws => .default
    | .tampered => .tampered now
    | .signed state hmac =>
      if imported.works = false ∨ signed.works = false then .default
      else if verifyHmac H (hmacKey (st.getInstallId read).2) state RATE_LIMIT_VERSION hmac then
        ((stateData state).map RateLimitState.ofData).getD .default
      else .tampered now

def QuietNext : Next → Prop
  | .returnState job _ | .returnCache job => job = .checkAllowed
  | .finish => True

/-- A check that has its state writes it at most. -/
def Quiet : Pc → Prop
  | .loaded job _ => job = .checkAllowed
  | .keyed _ _ next | .signing _ _ _ next => QuietNext next
  | .finished => True
  | _ => False

/-- The cached state and the session stay. -/
structure Rests (st : Store) (next : Store × Pc) : Prop where
  quiet : Quiet next.2
  current : current next.1 = current st
  session : next.1.session = st.session

theorem proceed_rests (st : Store) {next : Next} (h : QuietNext next) :
    Rests st (st.proceed next) := by
  cases next with
  | returnState job obj => exact ⟨h, rfl, rfl⟩
  | returnCache job =>
    rw [Store.proceed]
    cases st.cache with
    | some obj => exact ⟨h, rfl, rfl⟩
    | none => exact ⟨trivial, rfl, rfl⟩
  | finish => exact ⟨trivial, rfl, rfl⟩

theorem resume_rests {pc : Pc} (h : Quiet pc) : Rests st (resume H st pc o) := by
  cases pc with
  | loaded job obj =>
    obtain rfl : job = .checkAllowed := h
    exact ⟨trivial, rfl, rfl⟩
  | keyed key obj next =>
    rw [resume]
    split
    · exact proceed_rests st h
    · exact ⟨h, rfl, rfl⟩
  | signing key obj state next =>
    rw [resume]
    split
    · exact proceed_rests st h
    · have hnext := proceed_rests { st with
          record := some (signedText (st.objects obj)
            (computeHmac H (hmacKey key) state.toData.text RATE_LIMIT_VERSION))
          signed := st.signed ++ [state] } h
      exact ⟨hnext.quiet, hnext.current, hnext.session⟩
  | finished => exact ⟨trivial, rfl, rfl⟩
  | called job => exact h.elim
  | importing job key state hmac => exact h.elim
  | verifying job key state hmac => exact h.elim

/-- A check has got this state, which is cached now. -/
structure Loads (st : Store) (next : Store × Pc) (state : RateLimitState) : Prop where
  quiet : Quiet next.2
  current : current next.1 = some state
  session : next.1.session = st.session

theorem cacheState_loads (st : Store) (state : RateLimitState) :
    Loads st (st.cacheState state .checkAllowed) state where
  quiet := rfl
  current := congrArg some (Function.update_self _ _ _)
  session := rfl

theorem saveState_loads (st : Store) (obj : Nat) {next : Next} (h : QuietNext next) (o : Outcome) :
    Loads st (st.saveState obj next o) (st.objects obj) := by
  obtain ⟨id, hkey⟩ := getHmacKey_eq { st with cache := some obj } o
  rw [Store.saveState]
  dsimp only
  rw [hkey]
  exact ⟨h, rfl, rfl⟩

theorem lockOut_loads (st : Store) (o : Outcome) :
    Loads st (st.lockOut .checkAllowed o) (.tampered st.clock) := by
  have hnext : QuietNext (.returnCache .checkAllowed) := rfl
  have hsave := saveState_loads ({ st with lockouts := st.lockouts + 1 }.create
    (.tampered st.clock)).1 st.created hnext o
  refine ⟨hsave.quiet, hsave.current.trans ?_, hsave.session⟩
  exact congrArg some (Function.update_self _ _ _)

theorem called_loads {st : Store} (hcache : st.cache = none) {o : Outcome} {state : RateLimitState}
    (h : o.works = false ∧ state = .default ∨ o.works = true ∧
      ((reading st.record = .first ∨ reading st.record = .throws) ∧ state = .default
        ∨ reading st.record = .tampered ∧ state = .tampered st.clock)) :
    Loads st (resume H st (.called .checkAllowed) o) state := by
  show Loads st (st.loadState .checkAllowed o) state
  rw [Store.loadState, hcache]
  rcases h with ⟨hfails, rfl⟩ | ⟨hworks, ⟨hread | hread, rfl⟩ | ⟨hread, rfl⟩⟩
  · simp only [hfails, if_true]
    exact cacheState_loads st .default
  · simp only [hworks, hread, Bool.true_eq_false, if_false]
    have hnext : QuietNext (.returnState .checkAllowed st.created) := rfl
    have hsave := saveState_loads (st.create .default).1 st.created hnext o
    exact ⟨hsave.quiet, hsave.current.trans (congrArg some (Function.update_self _ _ _)),
      hsave.session⟩
  · simp only [hworks, hread, Bool.true_eq_false, if_false]
    exact cacheState_loads st .default
  · simp only [hworks, hread, Bool.true_eq_false, if_false]
    exact lockOut_loads st o

theorem called_imports {st : Store} (hcache : st.cache = none) (hkey : st.keyCache = none)
    {o : Outcome} (hworks : o.works = true) {state hmac : Option Value}
    (hread : reading st.record = .signed state hmac) :
    ∃ id, resume H st (.called .checkAllowed) o = ({ st with installId := id },
      .importing .checkAllowed (st.getInstallId o).2 state hmac) := by
  obtain ⟨id, hid⟩ := getHmacKey_eq st o
  have hinstall : (st.getHmacKey o).2 = (st.getInstallId o).2 := by
    rw [Store.getHmacKey, hkey]
  have hload : st.loadState .checkAllowed o
      = ((st.getHmacKey o).1, .importing .checkAllowed (st.getHmacKey o).2 state hmac) := by
    rw [Store.loadState, hcache]
    simp only [hworks, hread, Bool.true_eq_false, if_false]
  exact ⟨id, by rw [← hid, ← hinstall]; exact hload⟩

variable {s : State Store Call} {n : Nat}

theorem exec_alone {pc : Pc} (hk : s.calls[n]? = some ⟨s.store.session, pc⟩) (o : Outcome)
    (hsession : (resume H s.store pc o).1.session = s.store.session) :
    ((service H).step s (.exec n o)).store = (resume H s.store pc o).1
      ∧ ((service H).step s (.exec n o)).calls[n]?
        = some ⟨((service H).step s (.exec n o)).store.session, (resume H s.store pc o).2⟩ := by
  have hlive : (service H).exec n s.store ⟨s.store.session, pc⟩ o
      = ((resume H s.store pc o).1, ⟨s.store.session, (resume H s.store pc o).2⟩) :=
    exec_live H n rfl o
  have hstore : ((service H).step s (.exec n o)).store = (resume H s.store pc o).1 := by
    rw [Service.step_exec_store hk, hlive]
  refine ⟨hstore, ?_⟩
  rw [Service.step_exec_self hk, hlive, hstore, hsession]

theorem rests_run {pc : Pc} (hk : s.calls[n]? = some ⟨s.store.session, pc⟩) (hquiet : Quiet pc)
    (os : List Outcome) :
    current ((service H).run s (os.map (.exec n))).store = current s.store := by
  induction os generalizing s pc with
  | nil => rfl
  | cons o os ih =>
    have hrests : Rests s.store (resume H s.store pc o) := resume_rests hquiet
    obtain ⟨hstore, hnext⟩ := exec_alone hk o hrests.session
    rw [List.map_cons, Service.run_cons, ih hnext hrests.quiet, hstore, hrests.current]

theorem loads_run {pc : Pc} (hk : s.calls[n]? = some ⟨s.store.session, pc⟩) {o : Outcome}
    {state : RateLimitState} (hloads : Loads s.store (resume H s.store pc o) state)
    (os : List Outcome) :
    current ((service H).run s ((o :: os).map (.exec n))).store = some state := by
  obtain ⟨hstore, hnext⟩ := exec_alone hk o hloads.session
  rw [List.map_cons, Service.run_cons, rests_run hnext hloads.quiet, hstore, hloads.current]

theorem verifying_loads (st : Store) (key : String) (state hmac : Option Value) (o : Outcome) :
    Loads st (resume H st (.verifying .checkAllowed key state hmac) o)
      (if o.works = false then .default
      else if verifyHmac H (hmacKey key) state RATE_LIMIT_VERSION hmac then
        ((stateData state).map RateLimitState.ofData).getD .default
      else .tampered st.clock) := by
  rw [resume]
  split
  · exact cacheState_loads st _
  · split
    · exact cacheState_loads st _
    · exact lockOut_loads st o

theorem importing_run {key : String} {state hmac : Option Value}
    (hk : s.calls[n]? = some ⟨s.store.session, .importing .checkAllowed key state hmac⟩)
    (imported signed : Outcome) :
    current ((service H).run s ([imported, signed].map (.exec n))).store
      = some (if imported.works = false ∨ signed.works = false then .default
        else if verifyHmac H (hmacKey key) state RATE_LIMIT_VERSION hmac then
          ((stateData state).map RateLimitState.ofData).getD .default
        else .tampered s.store.clock) := by
  by_cases himport : imported.works = false
  · rw [if_pos (.inl himport)]
    refine loads_run hk ?_ [signed]
    rw [resume, if_pos himport]
    exact cacheState_loads s.store .default
  · have himported : resume H s.store (.importing .checkAllowed key state hmac) imported
        = ({ s.store with keyCache := some key }, .verifying .checkAllowed key state hmac) := by
      rw [resume, if_neg himport]
    obtain ⟨hafter, hnext⟩ := exec_alone (H := H) hk imported (by rw [himported])
    rw [himported] at hafter hnext
    have hloads := loads_run hnext (verifying_loads (H := H) _ key state hmac signed) []
    rw [List.map_cons, Service.run_cons]
    refine hloads.trans (congrArg some ?_)
    rw [hafter]
    by_cases hsigned : signed.works = false
    · rw [if_pos hsigned, if_pos (.inr hsigned)]
    · rw [if_neg hsigned, if_neg (not_or_intro himport hsigned)]

/-- The next start loads `loadedState`. -/
theorem current_nextStart (H : Hmac) (s : State Store Call) (raw : Option (List Char)) (ms : Nat)
    (read imported signed : Outcome) :
    current (nextStart H s raw ms read imported signed).store
      = some (loadedState H s.store raw (s.store.clock + ms) read imported signed) := by
  generalize hs : (service H).run s [.world (.modify raw), .world .reload,
    .world (.advance ms), .world (.call .checkAllowed)] = s₀
  have hstore : s₀.store = started s.store raw ms := by rw [← hs]; rfl
  have hcall : s₀.calls[s.calls.length]? = some ⟨s₀.store.session, .called .checkAllowed⟩ := by
    rw [hstore, ← hs]
    simp [service, Service.step, world, started]
  have hsplit : nextStart H s raw ms read imported signed
      = (service H).run s₀ ([read, imported, signed].map (.exec s.calls.length)) := by
    rw [← hs, ← Service.run_append]
    rfl
  rw [hsplit]
  have hcache : s₀.store.cache = none := by rw [hstore]; rfl
  have hkey : s₀.store.keyCache = none := by rw [hstore]; rfl
  have hrecord : s₀.store.record = raw := by rw [hstore]; rfl
  have hclock : s₀.store.clock = s.store.clock + ms := by rw [hstore]; rfl
  have hinstall : (s₀.store.getInstallId read).2 = (s.store.getInstallId read).2 := by
    rw [hstore, Store.getInstallId, Store.getInstallId]
    split
    · have hid : (started s.store raw ms).installId = s.store.installId := rfl
      rw [hid]
      cases s.store.installId with
      | some id => rfl
      | none => rfl
    · rfl
  rw [loadedState]
  by_cases hworks : read.works = false
  · rw [if_pos hworks]
    exact loads_run hcall (called_loads hcache (.inl ⟨hworks, rfl⟩)) [imported, signed]
  · rw [if_neg hworks]
    replace hworks : read.works = true := Bool.eq_true_of_not_eq_false hworks
    cases hread : reading raw with
    | first =>
      refine loads_run hcall (called_loads hcache (.inr ⟨hworks, .inl ⟨.inl ?_, rfl⟩⟩)) _
      rw [hrecord, hread]
    | throws =>
      refine loads_run hcall (called_loads hcache (.inr ⟨hworks, .inl ⟨.inr ?_, rfl⟩⟩)) _
      rw [hrecord, hread]
    | tampered =>
      refine loads_run hcall (called_loads hcache (.inr ⟨hworks, .inr ⟨?_, ?_⟩⟩)) _
      · rw [hrecord, hread]
      · rw [hclock]
    | signed state hmac =>
      obtain ⟨id, hfirst⟩ := called_imports (H := H) hcache hkey hworks (by rw [hrecord, hread])
      obtain ⟨hafter, hnext⟩ := exec_alone (H := H) hcall read (by rw [hfirst])
      rw [hfirst] at hafter hnext
      rw [List.map_cons, Service.run_cons, importing_run hnext, hafter, hinstall]
      dsimp only
      rw [hclock]

/-! ## What keeps the limit -/

theorem Fair.failures_pos {clock : Nat} {limit : RateLimitState} (h : Fair clock limit)
    (hlimit : clock < limit.lockoutUntil ∨ 0 < limit.consecutiveFailures) :
    0 < limit.consecutiveFailures := by
  rcases hlimit with hlocked | hfailures
  · refine Nat.pos_of_ne_zero fun hzero => ?_
    rw [h.failures hzero] at hlocked
    exact Nat.not_lt_zero _ hlocked
  · exact hfailures

theorem not_atLeast_default {now : Nat} {limit : RateLimitState}
    (h : 0 < limit.consecutiveFailures) : ¬AtLeast now .default limit :=
  fun hleast => absurd h (Nat.not_lt_of_le hleast.failures)

theorem atLeast_tampered_iff {clock now : Nat} {limit : RateLimitState} (h : Fair clock limit)
    (hle : clock ≤ now) :
    AtLeast now (.tampered now) limit ↔ limit.consecutiveFailures ≤ lastThreshold.attempts := by
  constructor
  · exact fun hleast => hleast.failures
  · exact fun hfailures => ⟨fun _ => (h.mono hle).lockout, hfailures⟩

theorem toData_inj {a b : RateLimitState} (h : a.toData = b.toData) : a = b := by
  rw [← ofData_toData a, h, ofData_toData]

theorem atLeast_loadedState_iff {clock now : Nat} {limit : RateLimitState}
    (hfair : Fair clock limit) (hle : clock ≤ now) (hfailures : 0 < limit.consecutiveFailures)
    {raw : Option (List Char)} {read imported signed : Outcome}
    (hraw : ∀ state hmac, reading raw = .signed state hmac →
      verifyHmac H (hmacKey (st.getInstallId read).2) state RATE_LIMIT_VERSION hmac = true →
      ∃ old, Signed st state old) :
    AtLeast now (loadedState H st raw now read imported signed) limit
      ↔ Kept H st limit raw now read imported signed := by
  have hdefault : ¬AtLeast now .default limit := not_atLeast_default hfailures
  rw [loadedState, Kept]
  by_cases hread : read.works = false
  · rw [if_pos hread, hread]
    exact iff_of_false hdefault fun h => by cases h.1
  · rw [if_neg hread, eq_true (Bool.eq_true_of_not_eq_false hread), true_and]
    cases hreading : reading raw with
    | first => exact iff_of_false hdefault id
    | throws => exact iff_of_false hdefault id
    | tampered => exact atLeast_tampered_iff hfair hle
    | signed state hmac =>
      dsimp only
      by_cases himported : imported.works = false
      · rw [if_pos (.inl himported), himported]
        exact iff_of_false hdefault fun h => by cases h.1
      by_cases hsigned : signed.works = false
      · rw [if_pos (.inr hsigned), hsigned]
        exact iff_of_false hdefault fun h => by cases h.2.1
      rw [if_neg (not_or_intro himported hsigned),
        eq_true (Bool.eq_true_of_not_eq_false himported),
        eq_true (Bool.eq_true_of_not_eq_false hsigned), true_and, true_and]
      split
      · rename_i hverify
        obtain ⟨old, hold⟩ := hraw state hmac hreading hverify
        rw [hold.2, Option.map_some, Option.getD_some, ofData_toData]
        constructor
        · exact fun hleast => ⟨old, hold, hleast⟩
        · rintro ⟨old', hold', hleast⟩
          rw [toData_inj (Option.some.inj (hold.2.symm.trans hold'.2))]
          exact hleast
      · exact atLeast_tampered_iff hfair hle

/-- **What editing the record does**: after every run, the next start is at
least as restrictive just when the text is one that keeps the limit. -/
theorem nextStart_atLeast_iff {actions : List (Action Event Outcome)} {s : State Store Call}
    {limit : RateLimitState} {raw : Option (List Char)} {ms : Nat} {read imported signed : Outcome}
    (hrun : Run.Each (service H).step (Unforged H) ⟨Store.initial, []⟩ actions)
    (hs : s = (service H).run ⟨Store.initial, []⟩ actions)
    (hcurrent : current s.store = some limit)
    (hlimit : s.store.clock < limit.lockoutUntil ∨ 0 < limit.consecutiveFailures)
    (hraw : ∀ state hmac, reading raw = .signed state hmac →
      verifyHmac H (hmacKey (s.store.getInstallId read).2) state RATE_LIMIT_VERSION hmac = true →
      ∃ old, Signed s.store state old) :
    (∃ loaded, current (nextStart H s raw ms read imported signed).store = some loaded
        ∧ AtLeast (s.store.clock + ms) loaded limit)
      ↔ Kept H s.store limit raw (s.store.clock + ms) read imported signed := by
  have hall : AllFair s.store := by
    rw [hs]
    exact fair_run hrun
  obtain ⟨obj, -, rfl⟩ := Option.map_eq_some_iff.mp hcurrent
  have hfair := hall.objects obj
  rw [← atLeast_loadedState_iff hfair (Nat.le_add_right _ _) (hfair.failures_pos hlimit) hraw,
    current_nextStart]
  simp

theorem unforged_of_pc {s : State Store Call} {k : Nat} {call : Call} {o : Outcome}
    (hk : s.calls[k]? = some call)
    (hpc : ∀ job key state hmac, call.pc ≠ .verifying job key state hmac) :
    Unforged H s (.exec k o) := by
  intro call' job key state hmac hk' hverifying
  rw [hk] at hk'
  obtain rfl := Option.some.inj hk'
  exact absurd hverifying (hpc job key state hmac)

/-- A failure is recorded on the first launch. -/
def oneFailure : List (Action Event Outcome) :=
  [.world (.call .recordFailure), .exec 0 fine, .exec 0 fine, .exec 0 fine, .exec 0 fine,
   .exec 0 fine, .exec 0 fine]

theorem oneFailure_unforged :
    Run.Each (service byteSum).step (Unforged byteSum) ⟨Store.initial, []⟩ oneFailure := by
  refine ⟨trivial, unforged_of_pc rfl ?_, unforged_of_pc rfl ?_, unforged_of_pc rfl ?_,
    unforged_of_pc rfl ?_, unforged_of_pc rfl ?_, unforged_of_pc rfl ?_, trivial⟩
  all_goals rintro _ _ _ _ ⟨⟩

theorem garbage_keeps :
    ∃ loaded, current (nextStart byteSum ((service byteSum).run ⟨Store.initial, []⟩ oneFailure)
        (some "garbage".toList) 0 fine fine fine).store = some loaded
      ∧ AtLeast (0 + 0) loaded ⟨[], 1, 0⟩ := by
  have hreading : reading (some "garbage".toList) = .tampered := by rfl
  refine (nextStart_atLeast_iff oneFailure_unforged rfl rfl (.inr (by decide)) ?_).mpr ⟨rfl, ?_⟩
  · intro state hmac hsigned
    rw [hreading] at hsigned
    cases hsigned
  · rw [hreading]
    decide

/-- After five failures, with the user locked out for a minute, the record is
deleted. -/
theorem deleted_record_unlocks :
    let s := (service byteSum).run ⟨Store.initial, []⟩ ((List.range 5).flatMap fun k =>
      .world (.call .recordFailure) :: List.replicate 6 (.exec k fine))
    current s.store = some ⟨[], 5, 60000⟩
      ∧ current (nextStart byteSum s none 0 fine fine fine).store = some .default
      ∧ ¬AtLeast s.store.clock .default ⟨[], 5, 60000⟩ := by
  decide +kernel

end UsbVault.App.RateLimiter
