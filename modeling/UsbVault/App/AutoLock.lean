import Mathlib.Data.Rat.Floor
import Mathlib.Tactic.Linarith
import Mathlib.Tactic.Push
import UsbVault.Lib.Run

/-!
# Auto-lock

The auto-lock service of `services/security/autoLock.ts`, and beside it the
absences of the app: when it stopped being active, whether auto-lock was on
ever since, and how often the lock callback was called. An absence that has
lasted as long as the timeout is locked once when the app returns
(`Return.Locked`), unless the service forgets during the absence when it
began.

Times are in milliseconds and numbers are exact. The log and the settings
that `setConfig` saves are left out.
-/

namespace UsbVault.AutoLock

structure AutoLockConfig where
  enabled : Bool
  timeoutMinutes : ℚ
  deriving DecidableEq

def DEFAULT_CONFIG : AutoLockConfig := ⟨true, 5⟩

def AutoLockConfig.timeoutMs (config : AutoLockConfig) : ℚ := config.timeoutMinutes * 60 * 1000

/-- What the service reads of the security settings. -/
structure SecuritySettings where
  autoLockEnabled : Bool
  autoLockTimeoutMs : ℚ

/-- Loading may throw. -/
def loadPersistedConfig : Option SecuritySettings → AutoLockConfig
  | some stored => ⟨stored.autoLockEnabled, ⌊stored.autoLockTimeoutMs / 60000 + 1 / 2⌋⟩
  | none => DEFAULT_CONFIG

/-- The service; `timer` is whether a timer is pending. The listener and the
callback are there while it is started. -/
structure AutoLockService where
  timer : Bool
  backgroundTimestamp : Option Int
  config : AutoLockConfig
  started : Bool
  deriving DecidableEq

namespace AutoLockService

def construct (stored : Option SecuritySettings) : AutoLockService :=
  ⟨false, none, loadPersistedConfig stored, false⟩

def clearTimer (self : AutoLockService) : AutoLockService := { self with timer := false }

/-- A pending timer is replaced. -/
def startTimer (self : AutoLockService) : AutoLockService := { self.clearTimer with timer := true }

/-- The service, and how often the callback is called. -/
def triggerLock (self : AutoLockService) : AutoLockService × Nat :=
  ({ self.clearTimer with backgroundTimestamp := none }, if self.started then 1 else 0)

def start (self : AutoLockService) : AutoLockService :=
  if self.started then self else { self with started := true }

def stop (self : AutoLockService) : AutoLockService :=
  { self.clearTimer with started := false }

def recordActivity (self : AutoLockService) : AutoLockService :=
  { self with backgroundTimestamp := none }

def checkLock (self : AutoLockService) (now : Int) : Bool :=
  match self.backgroundTimestamp with
  | none => false
  | some timestamp =>
    self.config.enabled && decide (timestamp ≠ 0)  -- zero is falsy
      && decide (self.config.timeoutMs ≤ ((now - timestamp : Int) : ℚ))

def setConfig (self : AutoLockService) (enabled : Option Bool) (timeoutMinutes : Option ℚ) :
    AutoLockService :=
  let config : AutoLockConfig :=
    ⟨enabled.getD self.config.enabled, timeoutMinutes.getD self.config.timeoutMinutes⟩
  let self := { self with config := config }
  if !config.enabled then self.clearTimer else self

/-- What both handlers tell apart. -/
inductive Change where
  | away
  | back
  deriving DecidableEq, Repr

/-- What both handlers do. -/
def handleChange (self : AutoLockService) (now : Int) (change : Change) : AutoLockService × Nat :=
  if !self.config.enabled then (self, 0)
  else
    match change with
    | .away => ({ self with backgroundTimestamp := some now }.startTimer, 0)
    | .back =>
      if self.checkLock now then self.triggerLock
      else ({ self.clearTimer with backgroundTimestamp := none }, 0)

end AutoLockService

inductive AppStateStatus where
  | active
  | background
  | inactive
  | unknown
  | extension
  deriving DecidableEq, Repr

def AppStateStatus.change : AppStateStatus → Option AutoLockService.Change
  | background => some .away
  | inactive => some .away
  | active => some .back
  | unknown => none
  | extension => none

inductive VisibilityState where
  | visible
  | hidden
  deriving DecidableEq, Repr

def VisibilityState.change : VisibilityState → AutoLockService.Change
  | hidden => .away
  | visible => .back

namespace AutoLockService

def handleNativeAppState (self : AutoLockService) (now : Int) (state : AppStateStatus) :
    AutoLockService × Nat :=
  match state.change with
  | some change => self.handleChange now change
  | none => (self, 0)

def handleWebVisibility (self : AutoLockService) (now : Int) (state : VisibilityState) :
    AutoLockService × Nat :=
  self.handleChange now state.change

end AutoLockService

/-! ## Runs -/

inductive Platform where
  | native
  | web
  deriving DecidableEq, Repr

/-- What can happen; each change has its reading of the clock. -/
inductive Event where
  | appState (now : Int) (state : AppStateStatus)
  | visibility (now : Int) (state : VisibilityState)
  | timer
  | recordActivity
  | setConfig (enabled : Option Bool) (timeoutMinutes : Option ℚ)
  | start
  | stop
  deriving DecidableEq

/-- The app leaves or comes back, as its platform has it. -/
def Event.change (platform : Platform) : Event → Option (Int × AutoLockService.Change)
  | .appState now state =>
    if platform = .native then state.change.map (now, ·) else none
  | .visibility now state => if platform = .web then some (now, state.change) else none
  | _ => none

namespace AutoLockService

/-- Auto-lock is on. -/
def watching (self : AutoLockService) : Bool := self.started && self.config.enabled

/-- What an event does to the service, and how often the callback is called.
A pending timer fires when it likes. -/
def receive (platform : Platform) (self : AutoLockService) : Event → AutoLockService × Nat
  | .appState now state =>
    if platform = .native ∧ self.started then self.handleNativeAppState now state else (self, 0)
  | .visibility now state =>
    if platform = .web ∧ self.started then self.handleWebVisibility now state else (self, 0)
  | .timer => if self.timer then self.triggerLock else (self, 0)
  | .recordActivity => (self.recordActivity, 0)
  | .setConfig enabled timeoutMinutes => (self.setConfig enabled timeoutMinutes, 0)
  | .start => (self.start, 0)
  | .stop => (self.stop, 0)

end AutoLockService

/-- The time since the app was last active: whether auto-lock was on
throughout, and the calls of the callback. -/
structure Absence where
  since : Int
  enabled : Bool
  locks : Nat
  deriving DecidableEq

/-- The absence with one more event of it. -/
def Absence.watch (service : AutoLockService) (locks : Nat) (a : Absence) : Absence :=
  { a with
    enabled := a.enabled && service.watching
    locks := a.locks + locks }

/-- The end of an absence, with what the configuration says then. -/
structure Return where
  absence : Absence
  time : Int
  timeoutMs : ℚ
  deriving DecidableEq

/-- A long absence is locked once. -/
def Return.Locked (r : Return) : Prop :=
  r.absence.enabled = true → r.timeoutMs ≤ ((r.time - r.absence.since : Int) : ℚ) →
    r.absence.locks = 1

instance (r : Return) : Decidable r.Locked := inferInstanceAs (Decidable (_ → _ → _))

structure State where
  service : AutoLockService
  absence : Option Absence
  returns : List Return

def begin (stored : Option SecuritySettings) : State := ⟨.construct stored, none, []⟩

def step (platform : Platform) (s : State) (event : Event) : State :=
  let received := s.service.receive platform event
  let absence := s.absence.map (Absence.watch received.1 received.2)
  match event.change platform with
  | some (now, .away) =>
    ⟨received.1, some (absence.getD ⟨now, received.1.watching, 0⟩), s.returns⟩
  | some (now, .back) =>
    ⟨received.1, none, (absence.map (⟨·, now, received.1.config.timeoutMs⟩)).toList
      ++ s.returns⟩
  | none => ⟨received.1, absence, s.returns⟩

/-! ## Absences that the service keeps track of -/

/-- The service keeps the beginning of an absence: no second change to
inactive or background when the clock has moved or the lock has been called,
no activity that is recorded before the lock is called, and no clock at
zero. -/
def Steady (platform : Platform) (s : State) (event : Event) : Prop :=
  match s.absence with
  | none => ∀ now, event.change platform = some (now, .away) → s.service.watching = true → now ≠ 0
  | some a => a.enabled = true →
      (∀ now, event.change platform = some (now, .away) → now = a.since ∧ a.locks = 0)
        ∧ (event = .recordActivity → a.locks ≠ 0)

/-- What the service knows of an absence: when it began, until it has called
the lock. -/
structure Tracked (service : AutoLockService) (a : Absence) : Prop where
  watching : service.watching = true
  since_ne : a.since ≠ 0
  known : a.locks = 0 ∧ service.backgroundTimestamp = some a.since
    ∨ a.locks = 1 ∧ service.backgroundTimestamp = none ∧ service.timer = false

variable {platform : Platform} {service : AutoLockService} {a : Absence} {now : Int}

theorem watching_iff :
    service.watching = true ↔ service.started = true ∧ service.config.enabled = true := by
  rw [AutoLockService.watching, Bool.and_eq_true]

theorem checkLock_iff {timestamp : Int} (h : service.backgroundTimestamp = some timestamp) :
    service.checkLock now = true ↔ service.config.enabled = true ∧ timestamp ≠ 0
      ∧ service.config.timeoutMs ≤ ((now - timestamp : Int) : ℚ) := by
  rw [AutoLockService.checkLock, h]
  dsimp only
  rw [Bool.and_eq_true, Bool.and_eq_true, decide_eq_true_iff, decide_eq_true_iff, and_assoc]

theorem checkLock_none (h : service.backgroundTimestamp = none) :
    service.checkLock now = false := by
  rw [AutoLockService.checkLock, h]

theorem receive_change {event : Event} {change : AutoLockService.Change}
    (h : event.change platform = some (now, change)) :
    service.receive platform event
      = if service.started = true then service.handleChange now change else (service, 0) := by
  cases event with
  | appState time state =>
    rw [Event.change] at h
    split at h
    · rename_i hnative
      obtain ⟨change', hchange, heq⟩ := Option.map_eq_some_iff.mp h
      cases heq
      rw [AutoLockService.receive, AutoLockService.handleNativeAppState, hchange]
      simp only [hnative, true_and]
    · cases h
  | visibility time state =>
    rw [Event.change] at h
    split at h
    · rename_i hweb
      cases h
      rw [AutoLockService.receive, AutoLockService.handleWebVisibility]
      simp only [hweb, true_and]
    · cases h
  | timer => cases h
  | recordActivity => cases h
  | setConfig enabled timeoutMinutes => cases h
  | start => cases h
  | stop => cases h

theorem receive_watching {event : Event} {change : AutoLockService.Change}
    (h : event.change platform = some (now, change)) :
    (service.receive platform event).1.watching = service.watching := by
  rw [receive_change h]
  split
  · cases change with
    | away =>
      rw [AutoLockService.handleChange]
      split <;> rfl
    | back =>
      rw [AutoLockService.handleChange]
      split
      · rfl
      · dsimp only
        split <;> rfl
  · rfl

theorem handleChange_away (h : service.watching = true) :
    service.handleChange now .away
      = ({ service with
            backgroundTimestamp := some now
            timer := true }, 0) := by
  rw [AutoLockService.handleChange, (watching_iff.mp h).2]
  rfl

theorem handleChange_back (h : service.watching = true) :
    service.handleChange now .back
      = ({ service with
            backgroundTimestamp := none
            timer := false }, if service.checkLock now then 1 else 0) := by
  obtain ⟨hstarted, henabled⟩ := watching_iff.mp h
  rw [AutoLockService.handleChange, henabled]
  cases hcheck : service.checkLock now with
  | true =>
    rw [AutoLockService.triggerLock, if_pos hstarted]
    rfl
  | false => rfl

theorem receive_away {event : Event} (hchange : event.change platform = some (now, .away))
    (h : service.watching = true) :
    service.receive platform event
      = ({ service with
            backgroundTimestamp := some now
            timer := true }, 0) := by
  rw [receive_change hchange, if_pos (watching_iff.mp h).1, handleChange_away h]

theorem receive_back {event : Event} (hchange : event.change platform = some (now, .back))
    (h : service.watching = true) :
    service.receive platform event
      = ({ service with
            backgroundTimestamp := none
            timer := false }, if service.checkLock now then 1 else 0) := by
  rw [receive_change hchange, if_pos (watching_iff.mp h).1, handleChange_back h]

/-- What an event leaves of the service that is no change of the app. -/
theorem receive_other {event : Event} (hother : event.change platform = none)
    (h : Tracked service a) (hactivity : event = .recordActivity → a.locks ≠ 0)
    (hwatching : (service.receive platform event).1.watching = true) :
    Tracked (service.receive platform event).1
      (a.watch (service.receive platform event).1 (service.receive platform event).2) := by
  have hunhandled : service.receive platform event = (service, 0) →
      Tracked (service.receive platform event).1
        (a.watch (service.receive platform event).1 (service.receive platform event).2) := by
    intro heq
    rw [heq]
    exact ⟨h.watching, h.since_ne, h.known⟩
  cases event with
  | appState time state =>
    refine hunhandled ?_
    rw [AutoLockService.receive]
    split
    · rename_i hnative
      rw [Event.change, if_pos hnative.1, Option.map_eq_none_iff] at hother
      rw [AutoLockService.handleNativeAppState, hother]
    · rfl
  | visibility time state =>
    refine hunhandled ?_
    rw [AutoLockService.receive]
    split
    · rename_i hweb
      rw [Event.change, if_pos hweb.1] at hother
      cases hother
    · rfl
  | timer =>
    by_cases htimer : service.timer = true
    · rcases h.known with ⟨hlocks, -⟩ | ⟨-, -, hnone⟩
      · refine ⟨hwatching, h.since_ne, .inr ?_⟩
        rw [AutoLockService.receive, if_pos htimer, AutoLockService.triggerLock,
          if_pos (watching_iff.mp h.watching).1]
        exact ⟨congrArg (· + 1) hlocks, rfl, rfl⟩
      · exact absurd (htimer.symm.trans hnone) (by decide)
    · exact hunhandled (by rw [AutoLockService.receive, if_neg htimer])
  | recordActivity =>
    refine ⟨hwatching, h.since_ne, ?_⟩
    rcases h.known with ⟨hlocks, -⟩ | hlocked
    · exact absurd hlocks (hactivity rfl)
    · exact .inr ⟨hlocked.1, rfl, hlocked.2.2⟩
  | setConfig enabled timeoutMinutes =>
    refine ⟨hwatching, h.since_ne, ?_⟩
    rw [AutoLockService.receive, AutoLockService.setConfig]
    dsimp only
    split
    · exact h.known.imp id fun hlocked => ⟨hlocked.1, hlocked.2.1, rfl⟩
    · exact h.known
  | start =>
    refine hunhandled ?_
    rw [AutoLockService.receive, AutoLockService.start, if_pos (watching_iff.mp h.watching).1]
  | stop => exact absurd (watching_iff.mp hwatching).1 Bool.false_ne_true

/-- The invariant. -/
structure Good (s : State) : Prop where
  tracked : ∀ a, s.absence = some a → a.enabled = true → Tracked s.service a
  locked : ∀ r ∈ s.returns, r.Locked

theorem good_begin (stored : Option SecuritySettings) : Good (begin stored) where
  tracked := by rintro a ⟨⟩
  locked := fun _ hr => absurd hr List.not_mem_nil

theorem good_away {s : State} {event : Event} (h : Good s) (hsteady : Steady platform s event)
    (hchange : event.change platform = some (now, .away)) : Good (step platform s event) := by
  have hwatching := @receive_watching platform s.service now event .away hchange
  rw [step, hchange]
  refine ⟨fun a ha hon => ?_, h.locked⟩
  rw [Steady] at hsteady
  cases habsence : s.absence with
  | none =>
    rw [habsence] at ha hsteady
    obtain rfl := Option.some.inj ha
    have hon' : s.service.watching = true := hwatching ▸ hon
    rw [receive_away hchange hon']
    exact ⟨hon', hsteady now hchange hon', .inl ⟨rfl, rfl⟩⟩
  | some a' =>
    rw [habsence] at ha hsteady
    obtain rfl := Option.some.inj ha
    have henabled : a'.enabled = true := (Bool.and_eq_true_iff.mp hon).1
    have htracked := h.tracked a' habsence henabled
    obtain ⟨hnow, hlocks⟩ := (hsteady henabled).1 now hchange
    dsimp only
    rw [receive_away hchange htracked.watching]
    exact ⟨htracked.watching, htracked.since_ne, .inl ⟨hlocks, congrArg some hnow⟩⟩

theorem good_back {s : State} {event : Event} (h : Good s)
    (hchange : event.change platform = some (now, .back)) : Good (step platform s event) := by
  rw [step, hchange]
  refine ⟨by rintro a ⟨⟩, fun r hr => ?_⟩
  rcases List.mem_append.mp hr with hnew | hold
  · obtain ⟨a', ha', rfl⟩ := Option.map_eq_some_iff.mp (Option.mem_toList.mp hnew)
    obtain ⟨a, ha, rfl⟩ := Option.map_eq_some_iff.mp ha'
    intro hon hlong
    have htracked := h.tracked a ha (Bool.and_eq_true_iff.mp hon).1
    rw [receive_back hchange htracked.watching] at hlong ⊢
    rcases htracked.known with ⟨hlocks, htimestamp⟩ | ⟨hlocks, htimestamp, -⟩
    · have hcheck : s.service.checkLock now = true :=
        (checkLock_iff htimestamp).mpr
          ⟨(watching_iff.mp htracked.watching).2, htracked.since_ne, hlong⟩
      rw [hcheck]
      exact congrArg (· + 1) hlocks
    · rw [checkLock_none htimestamp]
      exact hlocks
  · exact h.locked r hold

/-- **One steady event** keeps the service on track. -/
theorem good_step {s : State} {event : Event} (hsteady : Steady platform s event) (h : Good s) :
    Good (step platform s event) := by
  cases hchange : event.change platform with
  | none =>
    rw [step, hchange]
    refine ⟨fun a ha hon => ?_, h.locked⟩
    obtain ⟨a', ha', rfl⟩ := Option.map_eq_some_iff.mp ha
    obtain ⟨henabled, hwatching⟩ := Bool.and_eq_true_iff.mp hon
    rw [Steady, ha'] at hsteady
    exact receive_other hchange (h.tracked a' ha' henabled) (hsteady henabled).2 hwatching
  | some change =>
    obtain ⟨now, change⟩ := change
    cases change with
    | away => exact good_away h hsteady hchange
    | back => exact good_back h hchange

/-! ## What goes wrong otherwise -/

/-- The event of a return. -/
def Event.back : Platform → Int → Event
  | .native, now => .appState now .active
  | .web, now => .visibility now .visible

theorem back_change (platform : Platform) (now : Int) :
    (Event.back platform now).change platform = some (now, .back) := by
  cases platform <;> rfl

/-- A long absence at whose end the lock is not called, and was not called
once. -/
theorem unlocked_back {s : State} (ha : s.absence = some a) (henabled : a.enabled = true)
    (hon : s.service.watching = true)
    (hlong : s.service.config.timeoutMs ≤ ((now - a.since : Int) : ℚ))
    (hcheck : s.service.checkLock now = false) (hlocks : a.locks ≠ 1) :
    ∃ r ∈ (step platform s (.back platform now)).returns, ¬r.Locked := by
  rw [step, back_change, ha, receive_back (back_change platform now) hon, hcheck]
  refine ⟨_, List.mem_append_left _ (Option.mem_toList.mpr rfl), fun hlocked => hlocks ?_⟩
  exact hlocked (Bool.and_eq_true_iff.mpr ⟨henabled, hon⟩) hlong

/-- A return that ends a long absence, and comes soon enough after the
timestamp. -/
theorem exists_late {since now : Int} {timeoutMs : ℚ} (h : since < now) (hpos : 0 < timeoutMs) :
    ∃ time : Int, now ≤ time ∧ timeoutMs ≤ ((time - since : Int) : ℚ)
      ∧ ((time - now : Int) : ℚ) < timeoutMs := by
  have hceil := Int.le_ceil ((since : ℚ) + timeoutMs)
  have hceil' := Int.ceil_lt_add_one ((since : ℚ) + timeoutMs)
  have hlt : (since : ℚ) + 1 ≤ now := by exact_mod_cast h
  refine ⟨max now ⌈(since : ℚ) + timeoutMs⌉, le_max_left _ _, ?_, ?_⟩
  · have hle : ((⌈(since : ℚ) + timeoutMs⌉ : Int) : ℚ)
        ≤ (max now ⌈(since : ℚ) + timeoutMs⌉ : Int) := by
      exact_mod_cast le_max_right now ⌈(since : ℚ) + timeoutMs⌉
    push_cast at hle ⊢
    linarith
  · rcases max_choice now ⌈(since : ℚ) + timeoutMs⌉ with heq | heq
    · rw [heq, sub_self]
      exact_mod_cast hpos
    · rw [heq]
      push_cast
      linarith

/-- The events that read the clock read this time or a later one. -/
def NotBefore (platform : Platform) (last : Int) (events : List Event) : Prop :=
  ∀ event ∈ events, ∀ now change, event.change platform = some (now, change) → last ≤ now

theorem notBefore_back {last time : Int} (h : last ≤ time) :
    NotBefore platform last [.back platform time] := by
  intro event hevent now change hchange
  rw [List.mem_singleton.mp hevent, back_change] at hchange
  cases hchange
  exact h

/-- **An event that is not steady can be followed by a long absence that is
not locked once**, at readings of the clock that do not decrease. -/
theorem unlocked_of_unsteady {s : State} {event : Event} {last : Int} (h : Good s)
    (hunsteady : ¬Steady platform s event)
    (hclock : ∀ a now, s.absence = some a → event.change platform = some (now, .away) →
      a.since ≤ now)
    (hlast : ∀ now change, event.change platform = some (now, change) → now = last)
    (hpos : 0 < s.service.config.timeoutMs) :
    ∃ rest : List Event, NotBefore platform last rest
      ∧ ∃ r ∈ (rest.foldl (step platform) (step platform s event)).returns, ¬r.Locked := by
  rw [Steady] at hunsteady
  cases habsence : s.absence with
  | none =>
    rw [habsence] at hunsteady
    push Not at hunsteady
    obtain ⟨now, hchange, hon, rfl⟩ := hunsteady
    obtain ⟨time, hafter, hlong, -⟩ := exists_late Int.zero_lt_one hpos
    have htime : last ≤ time := by
      rw [← hlast 0 _ hchange]
      omega
    refine ⟨[.back platform time], notBefore_back htime, ?_⟩
    have hnext : step platform s event
        = ⟨{ s.service with
              backgroundTimestamp := some 0
              timer := true }, some ⟨0, s.service.watching, 0⟩, s.returns⟩ := by
      rw [step, hchange, habsence, receive_away hchange hon]
      rfl
    rw [hnext]
    refine unlocked_back rfl hon hon hlong ?_ Nat.zero_ne_one
    exact Bool.eq_false_iff.mpr fun hcheck => ((checkLock_iff rfl).mp hcheck).2.1 rfl
  | some a =>
    rw [habsence] at hunsteady
    push Not at hunsteady
    obtain ⟨henabled, hforgets⟩ := hunsteady
    have htracked := h.tracked a habsence henabled
    have hon := htracked.watching
    have henabled' : (a.enabled && s.service.watching) = true :=
      Bool.and_eq_true_iff.mpr ⟨henabled, hon⟩
    -- a return late enough, unless it has to be early
    obtain ⟨late, hafter, hlonglate, -⟩ := exists_late
      (lt_max_of_lt_right (Int.lt_add_one_iff.mpr (le_refl a.since)) : _ < max last _) hpos
    have hlate : last ≤ late := (le_max_left _ _).trans hafter
    by_cases hchanges : ∀ now, event.change platform = some (now, .away) →
        now = a.since ∧ a.locks = 0
    · obtain ⟨rfl, hlocks⟩ := hforgets hchanges
      refine ⟨[.back platform late], notBefore_back hlate, ?_⟩
      have hnext : step platform s .recordActivity
          = ⟨s.service.recordActivity, some (a.watch s.service.recordActivity 0),
            s.returns⟩ := by
        rw [step, habsence]
        rfl
      rw [hnext]
      refine unlocked_back rfl henabled' hon hlonglate (checkLock_none rfl) ?_
      exact fun hone => absurd (hlocks.symm.trans hone) Nat.zero_ne_one
    · push Not at hchanges
      obtain ⟨now, hchange, hmoved⟩ := hchanges
      have hnext : step platform s event
          = ⟨{ s.service with
                backgroundTimestamp := some now
                timer := true }, some ⟨a.since, a.enabled && s.service.watching, a.locks⟩,
              s.returns⟩ := by
        rw [step, hchange, habsence, receive_away hchange hon]
        rfl
      have hle := hclock a now habsence hchange
      rw [hnext]
      rcases htracked.known with ⟨hlocks, -⟩ | ⟨hlocks, -, -⟩
      · -- the lock is missed: the return is early for the new timestamp
        have hlt : a.since < now := lt_of_le_of_ne hle fun heq => hmoved heq.symm hlocks
        obtain ⟨time, hafter, hlong, hearly⟩ := exists_late hlt hpos
        refine ⟨[.back platform time], notBefore_back (hlast now _ hchange ▸ hafter), ?_⟩
        refine unlocked_back rfl henabled' hon hlong (Bool.eq_false_iff.mpr fun hcheck => ?_) ?_
        · exact absurd ((checkLock_iff rfl).mp hcheck).2.2 (not_le.mpr hearly)
        · exact fun hone => absurd (hlocks.symm.trans hone) Nat.zero_ne_one
      · -- the new timer calls the lock again
        have hreads : NotBefore platform last [.timer, .back platform late] :=
          List.forall_mem_cons.mpr ⟨nofun, notBefore_back hlate⟩
        refine ⟨[.timer, .back platform late], hreads, ?_⟩
        rw [List.foldl_cons, step, AutoLockService.receive, if_pos rfl,
          AutoLockService.triggerLock, if_pos (watching_iff.mp hon).1]
        refine unlocked_back rfl (Bool.and_eq_true_iff.mpr ⟨henabled', hon⟩) hon hlonglate
          (checkLock_none rfl) ?_
        exact fun hone => absurd ((congrArg (· + 1) hlocks).symm.trans hone) (by decide)

/-- Six minutes in the background, with a timeout of five. -/
def steadyAbsence : List Event :=
  [.start, .appState 1000 .background, .appState 361000 .active]

/-- Six minutes away, the first three of them inactive. -/
def interruptedAbsence : List Event :=
  [.start, .appState 1000 .inactive, .appState 181000 .background, .appState 361000 .active]

/-- Five minutes in the background until the timer fires, and as long
again inactive. -/
def prolongedAbsence : List Event :=
  [.start, .appState 1000 .background, .timer, .appState 301000 .inactive, .timer,
    .appState 601000 .active]

end UsbVault.AutoLock
