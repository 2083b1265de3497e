import Mathlib.Data.List.Infix
import UsbVault.Lib.Run
import UsbVault.Lib.SlidingWindow

/-!
# The rate limit without Redis

`checkRateLimit` of `internal/middleware/ratelimit.go` for requests whose
script has failed: the keys of authentication are refused, the others counted
in the process, in one bucket for each key and a share of the limit
(`memoryRateLimiter`). A bucket is replaced when its window has passed.
Another goroutine removes stale buckets every now and then.

The removal changes no answer, as long as it spares what is younger than the
windows in use (`cleanup_unseen`). A bucket counts its own window only, so
that one less than twice the share may be admitted in a window, and no more
(`window_within_twice`); keys of authentication have none.

Readings of the clock are numbers of nanoseconds and do not go back.
-/

namespace UsbVault.FallbackLimit

open SlidingWindow

abbrev Key := String

structure Bucket where
  count : Nat
  windowStart : Nat
  deriving DecidableEq, Repr

abbrev Buckets := Key → Option Bucket

/-- `expectedInstanceCount` -/
def expectedInstanceCount : Int := 5

def fallbackLimit (limit : Int) : Int :=
  if limit.tdiv expectedInstanceCount < 1 then 1 else limit.tdiv expectedInstanceCount

/-- `strings.Contains(key, "auth")` -/
def isAuthCriticalPath (key : Key) : Bool := ['a', 'u', 't', 'h'] <:+: key.toList

def check (buckets : Buckets) (key : Key) (limit : Int) (window now : Nat) : Bool × Buckets :=
  match buckets key with
  | none => (true, Function.update buckets key (some ⟨1, now⟩))
  | some b =>
    if window < now - b.windowStart then (true, Function.update buckets key (some ⟨1, now⟩))
    else (b.count + 1 ≤ limit, Function.update buckets key (some { b with count := b.count + 1 }))

def cleanupStale (buckets : Buckets) (maxAge now : Nat) : Buckets :=
  fun key => (buckets key).filter fun b => ¬maxAge < now - b.windowStart

/-! ## Runs -/

inductive Op where
  /-- A request whose script fails. -/
  | request (key : Key) (limit : Int) (window : Nat)
  | cleanupStale (maxAge : Nat)
  deriving DecidableEq, Repr

structure Call where
  now : Nat
  op : Op
  deriving DecidableEq, Repr

/-- The limiter, and when requests of a key have been admitted, the latest
first. -/
structure State where
  buckets : Buckets
  admitted : Key → List Nat

def start : State := ⟨fun _ => none, fun _ => []⟩

/-- `checkRateLimit`, once the script has failed. -/
def request (s : State) (key : Key) (limit : Int) (window now : Nat) : State :=
  if isAuthCriticalPath key then s
  else
    ⟨(check s.buckets key (fallbackLimit limit) window now).2,
      if (check s.buckets key (fallbackLimit limit) window now).1 then
        Function.update s.admitted key (now :: s.admitted key)
      else s.admitted⟩

def step (s : State) (c : Call) : State :=
  match c.op with
  | .request key limit window => request s key limit window c.now
  | .cleanupStale maxAge => { s with buckets := cleanupStale s.buckets maxAge c.now }

def run (calls : List Call) : State := calls.foldl step start

def Call.isRequest (c : Call) : Bool :=
  match c.op with
  | .request _ _ _ => true
  | .cleanupStale _ => false

/-- Requests have windows of `maxAge` at most, and clean-ups spare what is not
older. -/
def Call.Spares (maxAge : Nat) (c : Call) : Prop :=
  match c.op with
  | .request _ _ window => window ≤ maxAge
  | .cleanupStale age => maxAge ≤ age

instance (maxAge : Nat) (c : Call) : Decidable (c.Spares maxAge) := by
  unfold Call.Spares
  split
  · infer_instance
  · infer_instance

variable {s s' : State} {key k : Key} {limit : Int} {window now maxAge last n : Nat}

/-! ## Removed buckets -/

/-- What has been removed would be replaced. -/
structure Alike (maxAge last : Nat) (s s' : State) : Prop where
  admitted : s.admitted = s'.admitted
  buckets : ∀ k, s.buckets k = s'.buckets k
    ∨ s.buckets k = none ∧ ∃ b, s'.buckets k = some b ∧ maxAge < last - b.windowStart

theorem Alike.later (h : Alike maxAge last s s') (hlast : last ≤ now) :
    Alike maxAge now s s' := by
  refine ⟨h.admitted, fun k => ?_⟩
  rcases h.buckets k with hsame | ⟨hgone, b, hb, hold⟩
  · exact .inl hsame
  · exact .inr ⟨hgone, b, hb, by omega⟩

/-- A request is answered the same, and its bucket is the same again. -/
theorem Alike.check (h : Alike maxAge now s s') (hwindow : window ≤ maxAge) :
    (check s.buckets key limit window now).1 = (check s'.buckets key limit window now).1
      ∧ (check s.buckets key limit window now).2 key
        = (check s'.buckets key limit window now).2 key := by
  rcases h.buckets key with hsame | ⟨hgone, b, hb, hold⟩
  · simp only [FallbackLimit.check, hsame]
    split
    · simp only [Function.update_self, and_self]
    · split
      · simp only [Function.update_self, and_self]
      · simp only [Function.update_self, and_self]
  · have hexpired : window < now - b.windowStart := by omega
    simp only [FallbackLimit.check, hgone, hb, if_pos hexpired, Function.update_self, and_self]

theorem check_ne {buckets : Buckets} (h : k ≠ key) :
    (check buckets key limit window now).2 k = buckets k := by
  rw [check]
  split
  · exact Function.update_of_ne h _ _
  · split
    · exact Function.update_of_ne h _ _
    · exact Function.update_of_ne h _ _

theorem Alike.request (h : Alike maxAge now s s') (hwindow : window ≤ maxAge) :
    Alike maxAge now (request s key limit window now) (request s' key limit window now) := by
  rw [FallbackLimit.request, FallbackLimit.request]
  split
  · exact h
  · have hcheck := @Alike.check s s' key (fallbackLimit limit) window now maxAge h hwindow
    obtain ⟨hanswer, hbucket⟩ := hcheck
    refine ⟨?_, fun k => ?_⟩
    · simp only [hanswer, h.admitted]
    · by_cases hk : k = key
      · subst hk
        exact .inl hbucket
      · simp only [check_ne hk]
        exact h.buckets k

theorem Alike.cleanup {age : Nat} (h : Alike maxAge now s s') (hage : maxAge ≤ age) :
    Alike maxAge now { s with buckets := cleanupStale s.buckets age now } s' := by
  refine ⟨h.admitted, fun k => ?_⟩
  rcases h.buckets k with hsame | ⟨hgone, hb⟩
  · cases hb : s.buckets k with
    | none =>
      left
      rw [← hsame, hb]
      simp only [cleanupStale, hb, Option.filter_none]
    | some b =>
      by_cases hold : age < now - b.windowStart
      · refine .inr ⟨?_, b, by rw [← hsame, hb], by omega⟩
        simp only [cleanupStale, hb]
        exact Option.filter_some_neg (decide_eq_false (not_not.mpr hold))
      · left
        rw [← hsame, hb]
        simp only [cleanupStale, hb]
        exact Option.filter_some_pos (decide_eq_true hold)
  · refine .inr ⟨?_, hb⟩
    simp only [cleanupStale, hgone, Option.filter_none]

theorem alike_run {calls : List Call} :
    ∀ {s s' : State} {last : Nat}, Alike maxAge last s s' → (∀ c ∈ calls, last ≤ c.now) →
      (calls.map (·.now)).Pairwise (· ≤ ·) → (∀ c ∈ calls, c.Spares maxAge) →
      (calls.foldl step s).admitted
        = ((calls.filter Call.isRequest).foldl step s').admitted := by
  induction calls with
  | nil => intro s s' last h _ _ _; exact h.admitted
  | cons c calls ih =>
    intro s s' last h hlast hmono hspares
    rw [List.map_cons, List.pairwise_cons] at hmono
    have hnow : ∀ c' ∈ calls, c.now ≤ c'.now :=
      fun c' hc' => hmono.1 c'.now (List.mem_map_of_mem hc')
    have hrest : ∀ c' ∈ calls, c'.Spares maxAge :=
      fun c' hc' => hspares c' (List.mem_cons_of_mem c hc')
    have hfirst := hspares c List.mem_cons_self
    have hlater := h.later (hlast c List.mem_cons_self)
    obtain ⟨now, op⟩ := c
    cases op with
    | request key limit window =>
      rw [List.filter_cons_of_pos rfl, List.foldl_cons, List.foldl_cons]
      exact ih (hlater.request hfirst) hnow hmono.2 hrest
    | cleanupStale age =>
      rw [List.filter_cons_of_neg Bool.false_ne_true, List.foldl_cons]
      exact ih (hlater.cleanup hfirst) hnow hmono.2 hrest

/-- **The clean-up is not seen**: the same requests are admitted as without
it, whatever they are and whenever it runs, as long as it spares what is not
older than the windows in use. -/
theorem cleanup_unseen (maxAge : Nat) (calls : List Call)
    (hmono : (calls.map (·.now)).Pairwise (· ≤ ·)) (hspares : ∀ c ∈ calls, c.Spares maxAge) :
    (run calls).admitted = (run (calls.filter Call.isRequest)).admitted := by
  have hstart : Alike maxAge 0 start start := ⟨rfl, fun _ => .inl rfl⟩
  exact alike_run hstart (fun _ _ => Nat.zero_le _) hmono hspares

/-- The clean-up of `init`, ten minutes, among requests of a minute. -/
def sampleCalls : List Call :=
  [⟨1000000000, .request "ratelimit:ip:10.0.0.7" 10 60000000000⟩,
    ⟨2000000000, .request "ratelimit:ip:10.0.0.7" 10 60000000000⟩,
    ⟨2000000001, .request "ratelimit:ip:10.0.0.7" 10 60000000000⟩,
    ⟨2000000002, .request "ratelimit:auth:10.0.0.7" 10 60000000000⟩,
    ⟨700000000000, .cleanupStale 600000000000⟩,
    ⟨700000000001, .request "ratelimit:ip:10.0.0.7" 10 60000000000⟩]

theorem cleanup_unseen_sample :
    (run sampleCalls).admitted = (run (sampleCalls.filter Call.isRequest)).admitted :=
  cleanup_unseen 600000000000 sampleCalls (by decide) (by decide)

/-! ## How many are admitted -/

/-- What a bucket says of the requests admitted: the first of its own window and
the others, and those of the last one before it, whose first is long past. -/
structure Counts (n window : Nat) (b : Bucket) (times : List Nat) : Prop where
  counted : times.countP (b.windowStart ≤ ·) ≤ b.count
  current : times.countP (b.windowStart ≤ ·) ≤ n
  earlier : times.countP (fun t => t < b.windowStart && b.windowStart < t + window) < n
  first : b.windowStart ∈ times
  inside : ∀ t ∈ times, t ≤ b.windowStart + window

/-- No bucket, and nothing admitted; or a bucket that has counted. -/
structure Fair (n window last : Nat) (bucket : Option Bucket) (times : List Nat) : Prop where
  none : bucket = .none → times = []
  some : ∀ b ∈ bucket, Counts n window b times ∧ b.windowStart ≤ last
  past : ∀ t ∈ times, t ≤ last
  within : Within window (2 * n - 1) times

/-- Of one window, what the bucket counts and what the one before it has. -/
theorem Counts.countP_le {b : Bucket} {times : List Nat} (h : Counts n window b times)
    (hnow : b.windowStart ≤ now) : times.countP (inWindow window now) ≤ 2 * n - 1 := by
  have hsplit := @countP_le_add times (inWindow window now) (b.windowStart ≤ ·)
    (fun t => t < b.windowStart && b.windowStart < t + window) (by
      intro t _ hwindow
      obtain ⟨-, hlate⟩ := inWindow_iff.mp hwindow
      by_cases hcurrent : b.windowStart ≤ t
      · exact .inl (decide_eq_true hcurrent)
      · right
        rw [Bool.and_eq_true, decide_eq_true_iff, decide_eq_true_iff]
        omega)
  have hcurrent := h.current
  have hearlier := h.earlier
  omega

theorem Counts.replace {b : Bucket} {times : List Nat} (h : Counts n window b times)
    (hn : 1 ≤ n) (hexpired : window < now - b.windowStart) :
    Counts n window ⟨1, now⟩ (now :: times) := by
  have hbefore : ∀ t ∈ times, t < now := by
    intro t ht
    have hinside := h.inside t ht
    omega
  have hnone : times.countP (now ≤ ·) = 0 := by
    rw [List.countP_eq_zero]
    intro t ht hle
    have hlt := hbefore t ht
    have hge : now ≤ t := of_decide_eq_true hle
    omega
  have hone : (now :: times).countP (now ≤ ·) = 1 := by
    rw [List.countP_cons, hnone, if_pos (decide_eq_true (Nat.le_refl now))]
  refine ⟨?_, ?_, ?_, List.mem_cons_self, ?_⟩
  · exact Nat.le_of_eq hone
  · exact Nat.le_trans (Nat.le_of_eq hone) hn
  · rw [List.countP_cons_of_neg (by simp)]
    -- all are of the last bucket, whose first is not among them
    refine Nat.lt_of_lt_of_le (countP_lt h.first ?_ ?_ ?_) h.current
    · exact decide_eq_true (Nat.le_refl b.windowStart)
    · rw [Bool.and_eq_false_iff, decide_eq_false_iff_not, decide_eq_false_iff_not]
      right
      show ¬now < b.windowStart + window
      omega
    · intro t hlate
      rw [Bool.and_eq_true, decide_eq_true_iff, decide_eq_true_iff] at hlate
      obtain ⟨-, hnow⟩ : t < now ∧ now < t + window := hlate
      refine decide_eq_true ?_
      omega
  · intro t ht
    rcases List.mem_cons.mp ht with rfl | hold
    · exact Nat.le_add_right t window
    · have hlt := hbefore t hold
      show t ≤ now + window
      omega

theorem Counts.count {b : Bucket} {times : List Nat} (h : Counts n window b times)
    (hstart : b.windowStart ≤ now) (hinside : ¬window < now - b.windowStart)
    (hlimit : b.count + 1 ≤ n) :
    Counts n window { b with count := b.count + 1 } (now :: times) := by
  have hcounted := h.counted
  have hmore : (now :: times).countP (b.windowStart ≤ ·)
      = times.countP (b.windowStart ≤ ·) + 1 :=
    List.countP_cons_of_pos (decide_eq_true hstart)
  refine ⟨?_, ?_, ?_, List.mem_cons_of_mem now h.first, ?_⟩
  · show (now :: times).countP (b.windowStart ≤ ·) ≤ b.count + 1
    omega
  · show (now :: times).countP (b.windowStart ≤ ·) ≤ n
    omega
  · show (now :: times).countP
      (fun t => t < b.windowStart && b.windowStart < t + window) < n
    rw [List.countP_cons_of_neg (by simp; omega)]
    exact h.earlier
  · intro t ht
    rcases List.mem_cons.mp ht with rfl | hold
    · show t ≤ b.windowStart + window
      omega
    · exact h.inside t hold

theorem Counts.refuse {b : Bucket} {times : List Nat} (h : Counts n window b times) :
    Counts n window { b with count := b.count + 1 } times :=
  ⟨Nat.le_succ_of_le h.counted, h.current, h.earlier, h.first, h.inside⟩

theorem Counts.start (hn : 1 ≤ n) : Counts n window ⟨1, now⟩ [now] := by
  refine ⟨?_, ?_, ?_, List.mem_cons_self, ?_⟩
  · rw [List.countP_singleton, if_pos (decide_eq_true (Nat.le_refl now))]
  · rw [List.countP_singleton, if_pos (decide_eq_true (Nat.le_refl now))]
    exact hn
  · rw [List.countP_singleton, if_neg (by simp)]
    exact hn
  · intro t ht
    rw [List.mem_singleton.mp ht]
    exact Nat.le_add_right now window

theorem Fair.check {buckets : Buckets} {times : List Nat}
    (h : Fair n window last (buckets key) times) (hn : 1 ≤ n) (hlimit : limit ≤ n)
    (hlast : last ≤ now) :
    Fair n window now ((check buckets key limit window now).2 key)
      (if (check buckets key limit window now).1 then now :: times else times) := by
  have hpast : ∀ t ∈ now :: times, t ≤ now := by
    intro t ht
    rcases List.mem_cons.mp ht with rfl | hold
    · exact Nat.le_refl t
    · exact Nat.le_trans (h.past t hold) hlast
  -- the window up to now is counted by the bucket that the request leaves
  have hadmit : ∀ b : Bucket, Counts n window b (now :: times) → b.windowStart ≤ now →
      Fair n window now (.some b) (now :: times) := by
    intro b hcounts hstart
    refine ⟨by rintro ⟨⟩, ?_, hpast, h.within.cons ?_ (hcounts.countP_le hstart)⟩
    · rintro _ ⟨⟩
      exact ⟨hcounts, hstart⟩
    · exact fun t ht => hpast t (List.mem_cons_of_mem now ht)
  cases hb : buckets key with
  | none =>
    simp only [FallbackLimit.check, hb, Function.update_self, if_true]
    refine hadmit _ ?_ (Nat.le_refl now)
    rw [h.none hb]
    exact .start hn
  | some b =>
    obtain ⟨hcounts, hstart⟩ := h.some b hb
    by_cases hexpired : window < now - b.windowStart
    · simp only [FallbackLimit.check, hb, if_pos hexpired, Function.update_self, if_true]
      exact hadmit _ (hcounts.replace hn hexpired) (Nat.le_refl now)
    · simp only [FallbackLimit.check, hb, if_neg hexpired, Function.update_self]
      split
      · rename_i hbelow
        have hle : (b.count : Int) + 1 ≤ limit := of_decide_eq_true hbelow
        have hcount : b.count + 1 ≤ n := by omega
        refine hadmit _ ?_ (Nat.le_trans hstart hlast)
        exact hcounts.count (Nat.le_trans hstart hlast) hexpired hcount
      · refine ⟨by rintro ⟨⟩, ?_, ?_, h.within⟩
        · rintro _ ⟨⟩
          exact ⟨hcounts.refuse, Nat.le_trans hstart hlast⟩
        · exact fun t ht => hpast t (List.mem_cons_of_mem now ht)

theorem Fair.later {bucket : Option Bucket} {times : List Nat}
    (h : Fair n window last bucket times) (hlast : last ≤ now) :
    Fair n window now bucket times := by
  refine ⟨h.none, ?_, fun t ht => Nat.le_trans (h.past t ht) hlast, h.within⟩
  intro b hb
  obtain ⟨hcounts, hstart⟩ := h.some b hb
  exact ⟨hcounts, Nat.le_trans hstart hlast⟩

theorem one_le_fallbackLimit : 1 ≤ (fallbackLimit limit).toNat := by
  rw [fallbackLimit]
  split
  · decide
  · omega

/-- The requests of the key have one limit and one window. -/
def Call.Uses (key : Key) (limit : Int) (window : Nat) (c : Call) : Prop :=
  match c.op with
  | .request k l w => k = key → l = limit ∧ w = window
  | .cleanupStale _ => True

instance (key : Key) (limit : Int) (window : Nat) (c : Call) :
    Decidable (c.Uses key limit window) := by
  unfold Call.Uses
  split
  · infer_instance
  · infer_instance

theorem Fair.request (h : Fair n window last (s.buckets key) (s.admitted key))
    (hn : n = (fallbackLimit limit).toNat) (hlast : last ≤ now) {l : Int} {w : Nat}
    (huses : k = key → l = limit ∧ w = window) :
    Fair n window now ((request s k l w now).buckets key)
      ((request s k l w now).admitted key) := by
  rw [FallbackLimit.request]
  split
  · exact h.later hlast
  · by_cases hk : k = key
    · obtain ⟨rfl, rfl⟩ := huses hk
      subst hk
      have hone := @one_le_fallbackLimit l
      have hnext := @Fair.check k (fallbackLimit l) w now last n s.buckets (s.admitted k) h
        (by omega) (by omega) hlast
      split
      · rename_i hadmitted
        rw [if_pos hadmitted] at hnext
        dsimp only
        rw [Function.update_self]
        exact hnext
      · rename_i hrefused
        rw [if_neg hrefused] at hnext
        exact hnext
    · have hne : key ≠ k := Ne.symm hk
      dsimp only
      rw [check_ne hne]
      split
      · rw [Function.update_of_ne hne]
        exact h.later hlast
      · exact h.later hlast

theorem fair_run {calls : List Call} (hn : n = (fallbackLimit limit).toNat) :
    ∀ {s : State} {last : Nat}, Fair n window last (s.buckets key) (s.admitted key) →
      (∀ c ∈ calls, last ≤ c.now) → (calls.map (·.now)).Pairwise (· ≤ ·) →
      (∀ c ∈ calls, c.isRequest) → (∀ c ∈ calls, c.Uses key limit window) →
      Within window (2 * n - 1) ((calls.foldl step s).admitted key) := by
  induction calls with
  | nil => intro s last h _ _ _ _; exact h.within
  | cons c calls ih =>
    intro s last h hlast hmono hrequests huses
    rw [List.map_cons, List.pairwise_cons] at hmono
    have hnow : ∀ c' ∈ calls, c.now ≤ c'.now :=
      fun c' hc' => hmono.1 c'.now (List.mem_map_of_mem hc')
    have hfirst := huses c List.mem_cons_self
    have hrequest := hrequests c List.mem_cons_self
    have hbefore := hlast c List.mem_cons_self
    obtain ⟨now, op⟩ := c
    cases op with
    | request k l w =>
      refine ih (h.request hn hbefore hfirst) hnow hmono.2 ?_ ?_
      · exact fun c' hc' => hrequests c' (List.mem_cons_of_mem _ hc')
      · exact fun c' hc' => huses c' (List.mem_cons_of_mem _ hc')
    | cleanupStale age => cases hrequest

theorem step_auth (hauth : isAuthCriticalPath key = true) (c : Call) :
    (step s c).admitted key = s.admitted key := by
  obtain ⟨now, op⟩ := c
  cases op with
  | cleanupStale age => rfl
  | request k limit window =>
    show (request s k limit window now).admitted key = s.admitted key
    rw [FallbackLimit.request]
    split
    · rfl
    · rename_i hother
      have hne : key ≠ k := fun h => hother (h ▸ hauth)
      dsimp only
      split
      · exact Function.update_of_ne hne _ _
      · rfl

theorem auth_run (hauth : isAuthCriticalPath key = true) (calls : List Call) :
    (calls.foldl step s).admitted key = s.admitted key := by
  induction calls generalizing s with
  | nil => rfl
  | cons c calls ih => rw [List.foldl_cons, ih, step_auth hauth]

/-- **No window admits twice the share**, of requests of one key that
are limited alike, in every run in which the clean-up spares what is not older
than the windows in use; and a key of authentication admits none, in any run. -/
theorem window_within_twice (key : Key) (limit : Int) (window maxAge : Nat) (calls : List Call) :
    ((calls.map (·.now)).Pairwise (· ≤ ·) → (∀ c ∈ calls, c.Spares maxAge) →
      (∀ c ∈ calls, c.Uses key limit window) →
      Within window (2 * (fallbackLimit limit).toNat - 1) ((run calls).admitted key))
    ∧ (isAuthCriticalPath key = true → (run calls).admitted key = []) := by
  refine ⟨fun hmono hspares huses => ?_, fun hauth => auth_run hauth calls⟩
  rw [cleanup_unseen maxAge calls hmono hspares]
  have hkept : (calls.filter Call.isRequest).Sublist calls := List.filter_sublist
  have hstart : Fair (fallbackLimit limit).toNat window 0 (start.buckets key)
      (start.admitted key) :=
    ⟨fun _ => rfl, by rintro _ ⟨⟩, by rintro _ ⟨⟩, within_nil⟩
  refine fair_run rfl hstart (fun _ _ => Nat.zero_le _) (hmono.sublist (hkept.map _)) ?_ ?_
  · exact fun c hc => (List.mem_filter.mp hc).2
  · exact fun c hc => huses c (hkept.subset hc)

theorem window_within_twice_sample :
    Within 60000000000 3 ((run sampleCalls).admitted "ratelimit:ip:10.0.0.7")
    ∧ (run sampleCalls).admitted "ratelimit:auth:10.0.0.7" = [] :=
  ⟨(window_within_twice "ratelimit:ip:10.0.0.7" 10 60000000000 600000000000 sampleCalls).1
      (by decide) (by decide) (by decide),
    (window_within_twice "ratelimit:auth:10.0.0.7" 10 60000000000 600000000000 sampleCalls).2
      (by decide)⟩

/-- As many as that, at the end of a bucket and the start of the next. -/
example :
    ((run [⟨0, .request "ip" 10 60⟩, ⟨59, .request "ip" 10 60⟩, ⟨61, .request "ip" 10 60⟩,
      ⟨62, .request "ip" 10 60⟩]).admitted "ip").countP (inWindow 60 62) = 3 := by
  decide

end UsbVault.FallbackLimit
