import UsbVault.Lib.Run
import Mathlib.Tactic.SplitIfs

/-!
# The unlock back-off

`unlock` and `lock` calls on one orchestrator, any number of them in
flight, against a clock with arbitrary readings. The failure count and the
timestamp of the last failure are shared by all calls: `unlock` looks at
them once, before its first `await`, and changes them when its password
turns out wrong; `lock` resets both.

The log of a run is its history: every password evaluation, and every
unlock that completed. While no unlock starts before the last one's
password is evaluated and `lock` is called with no failure counted, the
evaluation after the `k`-th failure in a row starts
`getBackoffDelay k` milliseconds after that failure
(`backoff_enforced`).
-/

namespace UsbVault.App

/-- Maximum failed unlock attempts before self-destruct. -/
def MAX_FAIL_ATTEMPTS : Nat := 10

/-- Maximum backoff delay: 1 hour -/
def MAX_BACKOFF_MS : Nat := 3600000

/-- `getBackoffDelay`: 2^failCount seconds, capped. -/
def getBackoffDelay (failCount : Nat) : Nat :=
  if failCount = 0 then 0 else min (2 ^ failCount * 1000) MAX_BACKOFF_MS

/-! ## The failure count -/

/-- The orchestrator's count of failures and the time of the last one. -/
structure FailTracking where
  sessionFailCount : Nat
  lastFailTimestamp : Int
  deriving DecidableEq, Repr

/-- Of a new orchestrator, and after `lock`. -/
def FailTracking.reset : FailTracking := ⟨0, 0⟩

/-- What a refused attempt is told. -/
structure RateLimitError where
  remainingSec : Int
  sessionFailCount : Nat
  deriving DecidableEq, Repr

def RateLimitError.message (e : RateLimitError) : String :=
  "Too many failed attempts. Please wait " ++ toString e.remainingSec
    ++ " seconds before trying again."

/-- Step 0 of `unlock`, at a clock reading. -/
def FailTracking.check (t : FailTracking) (now : Int) : Except RateLimitError Unit :=
  if 0 < t.sessionFailCount then
    let backoffMs : Int := getBackoffDelay t.sessionFailCount
    let elapsed := now - t.lastFailTimestamp
    -- the seconds left, rounded up
    if elapsed < backoffMs then .error ⟨-((elapsed - backoffMs) / 1000), t.sessionFailCount⟩
    else .ok ()
  else .ok ()

/-- A password was wrong. -/
def FailTracking.fail (t : FailTracking) (now : Int) : FailTracking :=
  ⟨t.sessionFailCount + 1, now⟩

/-- An unlock completed. -/
def FailTracking.succeed (t : FailTracking) : FailTracking := { t with sessionFailCount := 0 }

theorem FailTracking.delay_le {t : FailTracking} {now : Int} (h : t.check now = .ok ())
    (hfails : 0 < t.sessionFailCount) :
    t.lastFailTimestamp + getBackoffDelay t.sessionFailCount ≤ now := by
  rw [check, if_pos hfails] at h
  simp only at h
  split at h
  · cases h
  · omega

theorem FailTracking.check_delayed (t : FailTracking) :
    t.check (t.lastFailTimestamp + getBackoffDelay t.sessionFailCount) = .ok () := by
  rw [check]
  split
  · exact if_neg (by omega)
  · rfl

/-! ## Calls in flight -/

/-- Where an `unlock` call is. The reading of its check goes along as
history. -/
inductive UnlockCall where
  /-- `await usbService.readVaultHeader`, and the checks of what it returns -/
  | reading (checkedAt : Int)
  /-- `await unlockVault` -/
  | evaluating (checkedAt : Int)
  /-- the password was right; counter, header and index are in progress -/
  | opening
  | ended
  deriving DecidableEq, Repr

/-- The reading of the check of a call whose password is not evaluated
yet. -/
def UnlockCall.waiting : UnlockCall → Option Int
  | .reading checkedAt => some checkedAt
  | .evaluating checkedAt => some checkedAt
  | .opening => none
  | .ended => none

/-- History: an evaluation, with the reading of the check that let it
through and, of a failure, the reading it was recorded at; or an unlock
that completed. -/
inductive LogEntry where
  | evaluated (checkedAt : Int) (failedAt : Option Int)
  | unlocked
  deriving DecidableEq, Repr

/-- The orchestrator, the `unlock` calls made so far, and the history,
latest first. -/
structure Orchestrator where
  tracking : FailTracking
  calls : List UnlockCall
  log : List LogEntry
  deriving DecidableEq, Repr

def Orchestrator.start : Orchestrator := ⟨.reset, [], []⟩

/-- What happens next: a call to `unlock`; the header of a call arrives and
passes its checks, or does not; a password proves right or wrong; the rest
of an unlock completes or throws; a call to `lock`. -/
inductive SessionEvent where
  | unlock (now : Int)
  | header (call : Nat) (accepted : Bool)
  | evaluated (call : Nat) (opened : Bool) (now : Int)
  | settled (call : Nat) (completed : Bool)
  | lock
  deriving DecidableEq, Repr

/-- An event of a call that is not there yet, or elsewhere, does nothing. -/
def Orchestrator.step (o : Orchestrator) : SessionEvent → Orchestrator
  | .unlock now =>
    match o.tracking.check now with
    | .error _ => { o with calls := o.calls ++ [.ended] }
    | .ok () => { o with calls := o.calls ++ [.reading now] }
  | .header call accepted =>
    match o.calls[call]? with
    | some (.reading checkedAt) =>
      { o with calls := o.calls.set call (if accepted then .evaluating checkedAt else .ended) }
    | _ => o
  | .evaluated call opened now =>
    match o.calls[call]? with
    | some (.evaluating checkedAt) =>
      if opened then
        { o with
          calls := o.calls.set call .opening
          log := .evaluated checkedAt none :: o.log }
      else
        { tracking := o.tracking.fail now
          calls := o.calls.set call .ended
          log := .evaluated checkedAt (some now) :: o.log }
    | _ => o
  | .settled call completed =>
    match o.calls[call]? with
    | some .opening =>
      if completed then
        { tracking := o.tracking.succeed
          calls := o.calls.set call .ended
          log := .unlocked :: o.log }
      else { o with calls := o.calls.set call .ended }
    | _ => o
  | .lock => { o with tracking := .reset }

def Orchestrator.run (events : List SessionEvent) : Orchestrator :=
  events.foldl Orchestrator.step .start

/-! ## The back-off -/

/-- Failures since the last completed unlock. -/
def failures : List LogEntry → Nat
  | [] => 0
  | .evaluated _ (some _) :: log => failures log + 1
  | .evaluated _ none :: log => failures log
  | .unlocked :: _ => 0

/-- When the last entry is a failure: the reading it was recorded at. -/
def failedLast : List LogEntry → Option Int
  | .evaluated _ failedAt :: _ => failedAt
  | _ => none

/-- An attempt let through at this reading keeps the delay of the failure
before it. -/
def KeepsDelay (log : List LogEntry) (checkedAt : Int) : Prop :=
  ∀ failedAt, failedLast log = some failedAt →
    failedAt + getBackoffDelay (failures log) ≤ checkedAt

/-- **No evaluation comes before the delay of the failure before it is
over.** -/
def BacksOff : List LogEntry → Prop
  | [] => True
  | .evaluated checkedAt _ :: log => KeepsDelay log checkedAt ∧ BacksOff log
  | .unlocked :: log => BacksOff log

/-- An unlock starts when every other has its password evaluated, and
`lock` is called with no failure counted. -/
def Orderly (o : Orchestrator) : SessionEvent → Prop
  | .unlock _ => ∀ call ∈ o.calls, call.waiting = none
  | .lock => o.tracking.sessionFailCount = 0
  | _ => True

instance (o : Orchestrator) : (e : SessionEvent) → Decidable (Orderly o e)
  | .unlock _ => inferInstanceAs (Decidable (∀ call ∈ o.calls, call.waiting = none))
  | .lock => inferInstanceAs (Decidable (o.tracking.sessionFailCount = 0))
  | .header _ _ => isTrue trivial
  | .evaluated _ _ _ => isTrue trivial
  | .settled _ _ => isTrue trivial

/-- The counter is the number of failures, and the one call that may be
waiting keeps the delay. -/
structure Orchestrator.Enforces (o : Orchestrator) : Prop where
  count : o.tracking.sessionFailCount = failures o.log
  time : ∀ failedAt, failedLast o.log = some failedAt → o.tracking.lastFailTimestamp = failedAt
  keeps : ∀ call ∈ o.calls, ∀ checkedAt, call.waiting = some checkedAt →
    KeepsDelay o.log checkedAt
  alone : ∀ i j : Nat, ∀ a b : UnlockCall, o.calls[i]? = some a → o.calls[j]? = some b →
    a.waiting ≠ none → b.waiting ≠ none → i = j
  log : BacksOff o.log

variable {o : Orchestrator} {call i : Nat} {old new : UnlockCall}

theorem mem_of_getElem? (h : o.calls[i]? = some old) : old ∈ o.calls :=
  List.mem_of_getElem? h

/-- A call that moves on and waits no longer than before leaves the others
waiting alone. -/
theorem Orchestrator.Enforces.set_calls (h : o.Enforces) (hold : o.calls[call]? = some old)
    (hwaits : ∀ checkedAt, new.waiting = some checkedAt → old.waiting = some checkedAt) :
    Orchestrator.Enforces { o with calls := o.calls.set call new } where
  count := h.count
  time := h.time
  keeps := by
    intro c hc checkedAt hwaiting
    rcases List.mem_or_eq_of_mem_set hc with hmem | rfl
    · exact h.keeps c hmem checkedAt hwaiting
    · exact h.keeps old (mem_of_getElem? hold) checkedAt (hwaits checkedAt hwaiting)
  alone := by
    have hcall : ∀ (i : Nat) (a : UnlockCall), (o.calls.set call new)[i]? = some a →
        a.waiting ≠ none → ∃ a', o.calls[i]? = some a' ∧ a'.waiting ≠ none := by
      intro i a hi ha
      rw [List.getElem?_set] at hi
      split_ifs at hi with heq hlt
      · subst heq
        cases hi
        obtain ⟨checkedAt, hsome⟩ := Option.ne_none_iff_exists'.mp ha
        exact ⟨old, hold, by rw [hwaits checkedAt hsome]; exact Option.some_ne_none _⟩
      · exact ⟨a, hi, ha⟩
    intro i j a b hi hj ha hb
    obtain ⟨a', hi', ha'⟩ := hcall i a hi ha
    obtain ⟨b', hj', hb'⟩ := hcall j b hj hb
    exact h.alone i j a' b' hi' hj' ha' hb'
  log := h.log

/-- Once the only call that may wait has its password evaluated, none
waits. -/
theorem Orchestrator.Enforces.none_waiting (h : o.Enforces) (hold : o.calls[call]? = some old)
    (hwaiting : old.waiting ≠ none) (hnew : new.waiting = none) :
    ∀ c ∈ o.calls.set call new, c.waiting = none := by
  intro c hc
  obtain ⟨i, hi⟩ := List.mem_iff_getElem?.mp hc
  by_contra hne
  rw [List.getElem?_set] at hi
  split_ifs at hi with heq hlt
  · cases hi
    exact hne hnew
  · exact heq (h.alone i call c old hi hold hne hwaiting).symm

theorem Orchestrator.Enforces.append_call (h : o.Enforces)
    (hnone : ∀ c ∈ o.calls, c.waiting = none)
    (hkeeps : ∀ checkedAt, new.waiting = some checkedAt → KeepsDelay o.log checkedAt) :
    Orchestrator.Enforces { o with calls := o.calls ++ [new] } where
  count := h.count
  time := h.time
  keeps := by
    intro c hc checkedAt hwaiting
    rcases List.mem_append.mp hc with hold | hlast
    · rw [hnone c hold] at hwaiting
      cases hwaiting
    · rw [List.mem_singleton.mp hlast] at hwaiting
      exact hkeeps checkedAt hwaiting
  alone := by
    have hlast : ∀ (i : Nat) (a : UnlockCall), (o.calls ++ [new])[i]? = some a →
        a.waiting ≠ none → i = o.calls.length := by
      intro i a hi ha
      rcases Nat.lt_trichotomy i o.calls.length with hlt | heq | hgt
      · rw [List.getElem?_append_left hlt] at hi
        exact absurd (hnone a (mem_of_getElem? hi)) ha
      · exact heq
      · rw [List.getElem?_eq_none (by rw [List.length_append, List.length_singleton]; omega)] at hi
        cases hi
    intro i j a b hi hj ha hb
    rw [hlast i a hi ha, hlast j b hj hb]
  log := h.log

theorem failures_pos {log : List LogEntry} {failedAt : Int} (h : failedLast log = some failedAt) :
    0 < failures log := by
  match log, h with
  | .evaluated _ (some _) :: log, _ => exact Nat.succ_pos _

theorem KeepsDelay.of_none {log : List LogEntry} (h : failedLast log = none) (checkedAt : Int) :
    KeepsDelay log checkedAt := by
  intro failedAt hfailed
  rw [h] at hfailed
  cases hfailed

/-- **One event** of an orderly run keeps the back-off enforced. -/
theorem Orchestrator.Enforces.step (h : o.Enforces) (e : SessionEvent) (horderly : Orderly o e) :
    (o.step e).Enforces := by
  cases e with
  | unlock now =>
    rw [Orchestrator.step]
    cases hcheck : o.tracking.check now with
    | error e => exact h.append_call horderly fun _ hwaiting => by cases hwaiting
    | ok _ =>
      refine h.append_call horderly fun checkedAt hwaiting => ?_
      cases hwaiting
      intro failedAt hfailed
      have hpos := failures_pos hfailed
      rw [← h.count] at hpos
      rw [← h.count, ← h.time failedAt hfailed]
      exact FailTracking.delay_le hcheck hpos
  | header call accepted =>
    rw [Orchestrator.step]
    split
    · rename_i checkedAt hcall
      refine h.set_calls hcall fun t ht => ?_
      cases accepted with
      | true => exact ht
      | false => cases ht
    · exact h
  | evaluated call opened now =>
    rw [Orchestrator.step]
    split
    · rename_i checkedAt hcall
      have hmem := h.keeps _ (mem_of_getElem? hcall) checkedAt rfl
      cases opened with
      | true =>
        have hset : Orchestrator.Enforces { o with calls := o.calls.set call .opening } :=
          h.set_calls hcall fun _ ht => by cases ht
        exact ⟨h.count, fun _ hfailed => (by cases hfailed),
          fun _ _ t _ => .of_none rfl t, hset.alone, hmem, h.log⟩
      | false =>
        have hset : Orchestrator.Enforces { o with calls := o.calls.set call .ended } :=
          h.set_calls hcall fun _ ht => by cases ht
        have hnone : ∀ c ∈ o.calls.set call .ended, c.waiting = none :=
          h.none_waiting hcall (by simp [UnlockCall.waiting]) rfl
        refine ⟨congrArg (· + 1) h.count, ?_, fun c hc t ht => ?_, hset.alone, hmem, h.log⟩
        · intro failedAt hfailed
          exact Option.some.inj hfailed
        · rw [hnone c hc] at ht
          cases ht
    · exact h
  | settled call completed =>
    rw [Orchestrator.step]
    split
    · rename_i hcall
      have hset : Orchestrator.Enforces { o with calls := o.calls.set call .ended } :=
        h.set_calls hcall fun _ ht => by cases ht
      cases completed with
      | true =>
        exact ⟨rfl, fun _ hfailed => (by cases hfailed), fun _ _ t _ => .of_none rfl t,
          hset.alone, h.log⟩
      | false => exact hset
    · exact h
  | lock =>
    have hzero : failures o.log = 0 := by
      rw [← h.count]
      exact horderly
    refine ⟨hzero.symm, fun failedAt hfailed => ?_, h.keeps, h.alone, h.log⟩
    have hpos : 0 < failures o.log := failures_pos hfailed
    omega

theorem Orchestrator.start_enforces : Orchestrator.start.Enforces where
  count := rfl
  time := fun _ hfailed => by cases hfailed
  keeps := fun _ hc => by cases hc
  alone := fun _ _ _ _ hi => by cases hi
  log := trivial

/-! ## Every run -/

/-- **The back-off is enforced** in every run of orderly calls: the
evaluation after the `k`-th failure in a row was let through at least
`getBackoffDelay k` milliseconds after it. -/
theorem backoff_enforced {events : List SessionEvent}
    (h : Run.Each Orchestrator.step Orderly .start events) :
    BacksOff (Orchestrator.run events).log :=
  (h.preserves (fun _ e horderly hinv => hinv.step e horderly) Orchestrator.start_enforces).log

theorem backoff_enforced_sample :
    BacksOff (Orchestrator.run [.unlock 0, .header 0 true, .evaluated 0 false 10, .unlock 500,
      .unlock 2010, .header 2 true, .evaluated 2 true 2020, .settled 2 true, .lock]).log :=
  backoff_enforced (by decide)

/-- After a wrong password `lock` lets the next attempt through at once;
two attempts started together are both let through. -/
theorem backoff_skipped :
    ¬ BacksOff (Orchestrator.run [.unlock 0, .header 0 true, .evaluated 0 false 10, .lock,
        .unlock 11, .header 1 true, .evaluated 1 false 20]).log
      ∧ ¬ BacksOff (Orchestrator.run [.unlock 0, .unlock 1, .header 0 true, .header 1 true,
        .evaluated 0 false 10, .evaluated 1 false 20]).log := by
  constructor
  · intro h
    exact absurd (h.1 10 rfl) (by decide)
  · intro h
    exact absurd (h.1 10 rfl) (by decide)

end UsbVault.App
