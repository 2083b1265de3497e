import UsbVault.Lib.Run

/-!
# The circuit breaker

`CircuitBreaker.Execute` and `Reset` (`internal/resilience/circuit_breaker.go`).
The mutex is held while the wrapped function runs, so the calls of a breaker
follow one another; a call has its clock readings and the outcome of the
function, a panic among them.

Beside the breaker stands what a client has seen of it: how many failures
there were since the last success, whether a success was passed over by the
counter, and when the breaker was last opened.
-/

namespace UsbVault.Resilience

inductive CircuitBreakerState where
  | stateClosed
  | stateOpen
  | stateHalfOpen
  deriving DecidableEq, Repr

/-- Times and durations are in nanoseconds. -/
structure CircuitBreaker where
  state : CircuitBreakerState
  failureCount : ℕ
  failureThreshold : ℤ
  resetTimeout : ℤ
  lastFailureTime : Option ℤ
  lastStateChangeTime : ℤ
  name : String
  deriving DecidableEq, Repr

def newCircuitBreakerWithConfig (name : String) (threshold resetTimeout now : ℤ) :
    CircuitBreaker :=
  { state := .stateClosed
    failureCount := 0
    failureThreshold := threshold
    resetTimeout := resetTimeout
    lastFailureTime := none
    lastStateChangeTime := now
    name := name }

def newCircuitBreaker (name : String) (now : ℤ) : CircuitBreaker :=
  newCircuitBreakerWithConfig name 5 (30 * 10 ^ 9) now

variable {ε : Type}

/-- How the wrapped function ends. -/
inductive Outcome (ε : Type) where
  | ok
  | err (e : ε)
  | panics
  deriving DecidableEq, Repr

inductive ExecuteError (ε : Type) where
  /-- `circuit breaker %s is open` -/
  | isOpen (name : String)
  /-- `circuit breaker %s is open after failed recovery: %w` -/
  | failedRecovery (name : String) (err : ε)
  /-- `circuit breaker %s is open: failure threshold exceeded (%d/%d): %w` -/
  | thresholdExceeded (name : String) (failureCount : ℕ) (failureThreshold : ℤ) (err : ε)
  /-- `circuit breaker %s error: %w` -/
  | error (name : String) (err : ε)
  deriving DecidableEq, Repr

inductive Response (ε : Type) where
  | returned (err : Option (ExecuteError ε))
  | panicked
  deriving DecidableEq, Repr

/-- A call of `Execute`: the clock when the timeout is checked, what the
function does, and the clock when its failure is recorded. -/
structure Call (ε : Type) where
  now : ℤ
  outcome : Outcome ε
  failedAt : ℤ
  changedAt : ℤ
  deriving DecidableEq, Repr

namespace CircuitBreaker

variable (cb : CircuitBreaker)

/-- The breaker in which the function runs; none when the call is rejected. -/
def beforeCall (now : ℤ) : Option CircuitBreaker :=
  if cb.state = .stateOpen then
    if cb.resetTimeout < now - cb.lastStateChangeTime then
      some { cb with state := .stateHalfOpen, failureCount := 0 }
    else none
  else some cb

/-- After the function has run. -/
def handle (call : Call ε) : CircuitBreaker × Response ε :=
  match call.outcome with
  | .ok =>
    if cb.state = .stateHalfOpen then
      ({ cb with state := .stateClosed, failureCount := 0 }, .returned none)
    else (cb, .returned none)
  | .panics => (cb, .panicked)
  | .err e =>
    let cb :=
      { cb with failureCount := cb.failureCount + 1, lastFailureTime := some call.failedAt }
    if cb.state = .stateHalfOpen then
      ({ cb with state := .stateOpen, lastStateChangeTime := call.changedAt },
        .returned (some (.failedRecovery cb.name e)))
    else if cb.failureThreshold ≤ cb.failureCount then
      ({ cb with state := .stateOpen, lastStateChangeTime := call.changedAt },
        .returned (some (.thresholdExceeded cb.name cb.failureCount cb.failureThreshold e)))
    else (cb, .returned (some (.error cb.name e)))

def execute (call : Call ε) : CircuitBreaker × Response ε :=
  match cb.beforeCall call.now with
  | none => (cb, .returned (some (.isOpen cb.name)))
  | some cb => cb.handle call

def reset (now : ℤ) : CircuitBreaker :=
  { cb with state := .stateClosed, failureCount := 0, lastStateChangeTime := now }

end CircuitBreaker

inductive Op (ε : Type) where
  | execute (call : Call ε)
  | reset (now : ℤ)
  deriving DecidableEq, Repr

/-! ## What is seen of a run -/

/-- The failures since the last success or reset; whether a success came while
failures were counted and left them counted; the clock when the breaker was
last opened. -/
structure Seen where
  streak : ℕ
  passedOver : Bool
  openedAt : ℤ
  deriving DecidableEq, Repr

/-- A breaker, and what is seen of its run. -/
structure Watched where
  breaker : CircuitBreaker
  seen : Seen
  deriving DecidableEq, Repr

namespace Seen

/-- `cb` is the breaker the function ran in, `next` the one after it. -/
def after (seen : Seen) (cb next : CircuitBreaker) (call : Call ε) : Seen where
  streak :=
    match call.outcome with
    | .ok => 0
    | .err _ => seen.streak + 1
    | .panics => seen.streak
  passedOver :=
    match call.outcome with
    | .ok => 0 < next.failureCount
    | _ => seen.passedOver && 0 < cb.failureCount
  openedAt := if next.state = .stateOpen then call.changedAt else seen.openedAt

end Seen

namespace Watched

variable (w : Watched)

def execute (call : Call ε) : Watched :=
  match w.breaker.beforeCall call.now with
  | none => w
  | some cb => ⟨(cb.handle call).1, w.seen.after cb (cb.handle call).1 call⟩

def step : Op ε → Watched
  | .execute call => w.execute call
  | .reset now => ⟨w.breaker.reset now, { w.seen with streak := 0, passedOver := false }⟩

def start (cb : CircuitBreaker) : Watched := ⟨cb, ⟨0, false, 0⟩⟩

/-- The breaker's law for one operation. -/
structure Lawful (call : Call ε) : Prop where
  /-- It is opened by failures in a row. -/
  opens : ∀ cb, w.breaker.beforeCall call.now = some cb → cb.state = .stateClosed →
    (w.execute call).breaker.state = .stateOpen →
      cb.failureThreshold ≤ (w.execute call).seen.streak
  /-- Open, it does not run the function within the timeout. -/
  protects : w.breaker.state = .stateOpen →
    call.now - w.seen.openedAt ≤ w.breaker.resetTimeout → w.breaker.beforeCall call.now = none
  /-- Half-open, it is closed by a success only. -/
  closes : ∀ cb, w.breaker.beforeCall call.now = some cb → cb.state = .stateHalfOpen →
    (w.execute call).breaker.state = .stateClosed → call.outcome = .ok
  /-- Half-open, it is opened by every failure. -/
  reopens : ∀ cb e, w.breaker.beforeCall call.now = some cb → cb.state = .stateHalfOpen →
    call.outcome = .err e → (w.execute call).breaker.state = .stateOpen

def LawfulOp : Op ε → Prop
  | .execute call => w.Lawful call
  | .reset _ => True

/-- The failure that would open the closed breaker does not come after a
success that the counter has passed over. -/
def InARow : Op ε → Prop
  | .execute call =>
    ∀ e, w.breaker.state = .stateClosed → call.outcome = .err e →
      w.breaker.failureThreshold ≤ w.breaker.failureCount + 1 → w.seen.passedOver = false
  | .reset _ => True

/-- What the counters say of the history. -/
structure Counted : Prop where
  streak : w.breaker.state = .stateClosed → w.seen.passedOver = false →
    w.breaker.failureCount ≤ w.seen.streak
  passedOver : w.breaker.state = .stateClosed → w.seen.passedOver = true →
    w.seen.streak < w.breaker.failureCount
  below : w.breaker.state = .stateClosed → 0 < w.breaker.failureCount →
    (w.breaker.failureCount : ℤ) < w.breaker.failureThreshold
  fresh : w.breaker.state = .stateHalfOpen → w.breaker.failureCount = 0
  openedAt : w.breaker.state = .stateOpen → w.breaker.lastStateChangeTime = w.seen.openedAt

end Watched

/-! ## One call -/

namespace CircuitBreaker

variable {cb c : CircuitBreaker} {now : ℤ} {call : Call ε}

theorem beforeCall_cases (h : cb.beforeCall now = some c) :
    cb.state ≠ .stateOpen ∧ c = cb
      ∨ cb.state = .stateOpen ∧ cb.resetTimeout < now - cb.lastStateChangeTime
        ∧ c = { cb with state := .stateHalfOpen, failureCount := 0 } := by
  rw [beforeCall] at h
  split at h
  · next hopen =>
    split at h
    · next hlate => exact .inr ⟨hopen, hlate, (Option.some.inj h).symm⟩
    · cases h
  · next hopen => exact .inl ⟨hopen, (Option.some.inj h).symm⟩

theorem beforeCall_of_not_open (h : cb.state ≠ .stateOpen) (now : ℤ) :
    cb.beforeCall now = some cb := by
  rw [beforeCall, if_neg h]

theorem beforeCall_state (h : cb.beforeCall now = some c) : c.state ≠ .stateOpen := by
  rcases beforeCall_cases h with ⟨hopen, rfl⟩ | ⟨-, -, rfl⟩
  · exact hopen
  · simp

theorem beforeCall_closed (h : cb.beforeCall now = some c) (hclosed : c.state = .stateClosed) :
    c = cb := by
  rcases beforeCall_cases h with ⟨-, rfl⟩ | ⟨-, -, rfl⟩
  · rfl
  · cases hclosed

/-- **A failure** opens a half-open breaker, and a closed one at the threshold. -/
theorem handle_err {e : ε} (h : call.outcome = .err e) :
    (cb.handle call).1 =
      if cb.state = .stateHalfOpen ∨ cb.failureThreshold ≤ (cb.failureCount + 1 : ℕ) then
        { cb with
          state := .stateOpen
          failureCount := cb.failureCount + 1
          lastFailureTime := some call.failedAt
          lastStateChangeTime := call.changedAt }
      else
        { cb with
          failureCount := cb.failureCount + 1
          lastFailureTime := some call.failedAt } := by
  simp only [handle, h]
  by_cases hhalf : cb.state = .stateHalfOpen
  · simp only [hhalf, if_true, true_or]
  · simp only [hhalf, if_false, false_or]
    split <;> rfl

theorem handle_ok (h : call.outcome = .ok) :
    (cb.handle call).1 =
      if cb.state = .stateHalfOpen then { cb with state := .stateClosed, failureCount := 0 }
      else cb := by
  simp only [handle, h]
  split <;> rfl

theorem handle_panics (h : call.outcome = .panics) : (cb.handle call).1 = cb := by
  simp only [handle, h]

/-- A call that runs the function opens the breaker by failing only. -/
theorem handle_opens (hcb : cb.state ≠ .stateOpen)
    (h : (cb.handle call).1.state = .stateOpen) : ∃ e, call.outcome = .err e := by
  cases hout : call.outcome with
  | err e => exact ⟨e, rfl⟩
  | ok =>
    rw [handle_ok hout] at h
    split at h
    · cases h
    · exact absurd h hcb
  | panics =>
    rw [handle_panics hout] at h
    exact absurd h hcb

end CircuitBreaker

namespace Watched

open CircuitBreaker

variable {w : Watched} {call : Call ε} {cb : CircuitBreaker}

theorem execute_admitted (h : w.breaker.beforeCall call.now = some cb) :
    w.execute call = ⟨(cb.handle call).1, w.seen.after cb (cb.handle call).1 call⟩ := by
  simp only [execute, h]

theorem execute_rejected (h : w.breaker.beforeCall call.now = none) : w.execute call = w := by
  simp only [execute, h]

theorem Counted.start (name : String) (threshold resetTimeout now : ℤ) :
    (Watched.start (newCircuitBreakerWithConfig name threshold resetTimeout now)).Counted := by
  constructor <;> simp [Watched.start, newCircuitBreakerWithConfig]

/-- The breaker in which a function runs is counted as the one before. -/
theorem Counted.admitted (hw : w.Counted) (h : w.breaker.beforeCall call.now = some cb) :
    (⟨cb, w.seen⟩ : Watched).Counted := by
  rcases beforeCall_cases h with ⟨-, rfl⟩ | ⟨-, -, rfl⟩
  · exact hw
  · constructor <;> simp

theorem Counted.handle (hw : (⟨cb, w.seen⟩ : Watched).Counted) (hcb : cb.state ≠ .stateOpen) :
    (⟨(cb.handle call).1, w.seen.after cb (cb.handle call).1 call⟩ : Watched).Counted := by
  have hstreak := hw.streak
  have hpassed := hw.passedOver
  have hbelow := hw.below
  have hfresh := hw.fresh
  cases hout : call.outcome with
  | ok =>
    rw [handle_ok hout]
    split
    · constructor <;> simp [Seen.after, hout]
    · next hhalf =>
      constructor <;> simp_all [Seen.after]
  | panics =>
    rw [handle_panics hout]
    constructor
    · intro hclosed hseen
      simp only [Seen.after, hout, Bool.and_eq_false_iff, decide_eq_false_iff_not] at hseen ⊢
      rcases hseen with hseen | hseen
      · exact hstreak hclosed hseen
      · show cb.failureCount ≤ _
        omega
    · intro hclosed hseen
      simp only [Seen.after, hout, Bool.and_eq_true] at hseen ⊢
      exact hpassed hclosed hseen.1
    · exact hbelow
    · exact hfresh
    · intro hopen
      exact absurd hopen hcb
  | err e =>
    rw [handle_err hout]
    split
    · constructor <;> simp [Seen.after]
    · next hstill =>
      obtain ⟨hhalf, hless⟩ := not_or.mp hstill
      have hclosed : cb.state = .stateClosed := by
        cases hstate : cb.state <;> simp_all
      constructor
      · intro _ hseen
        simp only [Seen.after, hout, Bool.and_eq_false_iff, decide_eq_false_iff_not] at hseen ⊢
        rcases hseen with hseen | hseen
        · have := hstreak hclosed hseen
          simp only at this
          omega
        · omega
      · intro _ hseen
        simp only [Seen.after, hout, Bool.and_eq_true] at hseen ⊢
        have := hpassed hclosed hseen.1
        simp only at this
        omega
      · intro _ _
        exact Int.not_le.mp hless
      · intro h
        exact absurd h hhalf
      · intro h
        exact absurd h hcb

/-- **Every operation** keeps the counters and the history together. -/
theorem Counted.step (hw : w.Counted) (op : Op ε) : (w.step op).Counted := by
  cases op with
  | reset now => constructor <;> simp [Watched.step, CircuitBreaker.reset]
  | execute call =>
    rw [Watched.step]
    cases hbefore : w.breaker.beforeCall call.now with
    | none =>
      rw [execute_rejected hbefore]
      exact hw
    | some cb =>
      rw [execute_admitted hbefore]
      exact (hw.admitted hbefore).handle (beforeCall_state hbefore)

theorem Counted.protects (hw : w.Counted) (hopen : w.breaker.state = .stateOpen)
    (hwithin : call.now - w.seen.openedAt ≤ w.breaker.resetTimeout) :
    w.breaker.beforeCall call.now = none := by
  rw [beforeCall, if_pos hopen, if_neg]
  rw [hw.openedAt hopen]
  omega

/-- **The exact condition for one operation.** -/
theorem Counted.lawful_iff (hw : w.Counted) (op : Op ε) : w.LawfulOp op ↔ w.InARow op := by
  cases op with
  | reset now => exact Iff.rfl
  | execute call =>
    constructor
    · intro hlaw e hclosed hout hreached
      have hbefore : w.breaker.beforeCall call.now = some w.breaker :=
        beforeCall_of_not_open (by simp [hclosed]) call.now
      have hopen : (w.execute call).breaker.state = .stateOpen := by
        rw [execute_admitted hbefore, handle_err hout, if_pos (.inr (by exact_mod_cast hreached))]
      have hle := hlaw.opens w.breaker hbefore hclosed hopen
      rw [execute_admitted hbefore] at hle
      simp only [Seen.after, hout] at hle
      cases hpassed : w.seen.passedOver with
      | false => rfl
      | true =>
        have hlt := hw.passedOver hclosed hpassed
        have hbelow := hw.below hclosed (by omega)
        omega
    · intro hrow
      constructor
      · intro cb hbefore hclosed hopen
        obtain rfl := beforeCall_closed hbefore hclosed
        rw [execute_admitted hbefore] at hopen ⊢
        obtain ⟨e, hout⟩ := handle_opens (beforeCall_state hbefore) hopen
        have hreached : w.breaker.failureThreshold ≤ (w.breaker.failureCount + 1 : ℕ) := by
          by_contra hless
          rw [handle_err hout, if_neg (by simp only [hclosed, hless]; simp)] at hopen
          simp [hclosed] at hopen
        have hstreak := hw.streak hclosed (hrow e hclosed hout (by exact_mod_cast hreached))
        simp only [Seen.after, hout]
        omega
      · exact hw.protects
      · intro cb hbefore hhalf hclosed
        rw [execute_admitted hbefore] at hclosed
        cases hout : call.outcome with
        | ok => rfl
        | panics =>
          rw [handle_panics hout, hhalf] at hclosed
          cases hclosed
        | err e =>
          rw [handle_err hout, if_pos (.inl hhalf)] at hclosed
          cases hclosed
      · intro cb e hbefore hhalf hout
        rw [execute_admitted hbefore, handle_err hout, if_pos (.inl hhalf)]

end Watched

/-! ## Runs -/

/-- **The breaker keeps its law** in exactly the runs in which no failure opens
it after a success that left the counted failures counted. -/
theorem breaker_lawful (name : String) (threshold resetTimeout now : ℤ) (ops : List (Op ε)) :
    Run.Each Watched.step Watched.LawfulOp
        (.start (newCircuitBreakerWithConfig name threshold resetTimeout now)) ops
      ↔ Run.Each Watched.step Watched.InARow
        (.start (newCircuitBreakerWithConfig name threshold resetTimeout now)) ops :=
  Run.Each.iff_each (fun w op (hw : w.Counted) => hw.lawful_iff op) (fun _ op hw _ => hw.step op)
    (Watched.Counted.start name threshold resetTimeout now)

/-- Two failures and a success, again and again, open a breaker whose threshold
is five: one call in three succeeds. -/
theorem opens_between_successes :
    ¬Run.Each Watched.step Watched.LawfulOp (.start (newCircuitBreaker "s3" 0))
        ([.err (), .err (), .ok, .err (), .err (), .ok, .err ()].map fun outcome =>
          Op.execute ⟨1, outcome, 1, 1⟩) := by
  intro h
  obtain ⟨-, -, -, -, -, -, hlast, -⟩ := h
  have hle := hlast.opens _ rfl rfl rfl
  exact absurd hle (by decide)

end UsbVault.Resilience
