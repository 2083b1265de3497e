import UsbVault.Lib.Effect
import Mathlib.Data.List.Basic

/-!
# Chain

A serialiser built from promises. Each call waits for the tail promise
left by the call before it, runs its task, settles with the task's
result, and then resolves its own tail whatever the result was:

    const prev = tail || Promise.resolve();
    const result = prev.then(fn, fn);
    tail = result.then(() => {}, () => {});

Calls arrive at any time and the scheduler takes any enabled step. The
results: at most one task runs at a time, the settled calls have run one
after another in the order of arrival (`Inv`), a call that has not
settled can always be brought forward (`exists_internal`), and only
finitely many steps can pass without a new arrival
(`internal_wellFounded`).
-/

namespace Chain

open Effect

variable {Op : Type} {Ret : Op → Type} {ε α σ ρ : Type}

/-! ## States -/

/-- Where a call stands. -/
inductive Phase (Op : Type) (Ret : Op → Type) (ε α : Type) where
  | queued
  | running (p : Prog Op Ret ε α)
  | settled (r : Except ε α)

/-- A call: the request, the tail promise it was chained on (`none` for
the initial resolved promise), its phase, and whether its own tail has
resolved. -/
structure Call (Op : Type) (Ret : Op → Type) (ε α ρ : Type) where
  request : ρ
  prev : Option Nat
  phase : Phase Op Ret ε α
  tailSettled : Bool

/-- The calls so far by arrival, the current tail promise, and the world
the tasks act on. A promise is named by the call it belongs to. -/
structure State (Op : Type) (Ret : Op → Type) (ε α σ ρ : Type) where
  calls : List (Call Op Ret ε α ρ)
  tail : Option Nat
  world : σ

/-- The state before the first call. -/
def State.initial (w : σ) : State Op Ret ε α σ ρ := ⟨[], none, w⟩

/-- The promise has resolved. -/
def resolved (calls : List (Call Op Ret ε α ρ)) : Option Nat → Prop
  | none => True
  | some j => ∃ c, calls[j]? = some c ∧ c.tailSettled = true

/-! ## Steps -/

section Steps

variable (E : (o : Op) → σ → Except ε (Ret o) → σ → Prop)
variable (task : ρ → Prog Op Ret ε α)

/-- Call `i` becomes `c` and the world `w`. -/
def State.update (s : State Op Ret ε α σ ρ) (i : Nat) (c : Call Op Ret ε α ρ) (w : σ) :
    State Op Ret ε α σ ρ :=
  { s with calls := s.calls.set i c, world := w }

@[simp] theorem State.update_length (s : State Op Ret ε α σ ρ) (i : Nat)
    (c : Call Op Ret ε α ρ) (w : σ) :
    (s.update i c w).calls.length = s.calls.length := List.length_set

theorem State.update_self {s : State Op Ret ε α σ ρ} {i : Nat} {c : Call Op Ret ε α ρ}
    (hc : s.calls[i]? = some c) (c' : Call Op Ret ε α ρ) (w : σ) :
    (s.update i c' w).calls[i]? = some c' :=
  List.getElem?_set_self (List.getElem?_eq_some_iff.mp hc).1

theorem State.update_ne (s : State Op Ret ε α σ ρ) {i j : Nat} (h : j ≠ i)
    (c : Call Op Ret ε α ρ) (w : σ) : (s.update i c w).calls[j]? = s.calls[j]? :=
  List.getElem?_set_ne h.symm

theorem State.update_take (s : State Op Ret ε α σ ρ) (i : Nat) (c : Call Op Ret ε α ρ)
    (w : σ) : (s.update i c w).calls.take i = s.calls.take i :=
  List.take_set_of_le (Nat.le_refl i)

/-- A step of a call already made. -/
inductive Internal (s : State Op Ret ε α σ ρ) : State Op Ret ε α σ ρ → Prop
  | start {i : Nat} {c : Call Op Ret ε α ρ} (hc : s.calls[i]? = some c)
      (hphase : c.phase = .queued) (hprev : resolved s.calls c.prev) :
      Internal s (s.update i { c with phase := .running (task c.request) } s.world)
  | run {i : Nat} {c : Call Op Ret ε α ρ} {p p' : Prog Op Ret ε α} {w' : σ}
      (hc : s.calls[i]? = some c) (hphase : c.phase = .running p)
      (hstep : Effect.Step E p s.world p' w') :
      Internal s (s.update i { c with phase := .running p' } w')
  | settle {i : Nat} {c : Call Op Ret ε α ρ} {r : Except ε α}
      (hc : s.calls[i]? = some c) (hphase : c.phase = .running (.done r)) :
      Internal s (s.update i { c with phase := .settled r } s.world)
  | swallow {i : Nat} {c : Call Op Ret ε α ρ} {r : Except ε α}
      (hc : s.calls[i]? = some c) (hphase : c.phase = .settled r)
      (htail : c.tailSettled = false) :
      Internal s (s.update i { c with tailSettled := true } s.world)

/-- A new call, chained on the tail and made the tail. -/
def State.arrive (s : State Op Ret ε α σ ρ) (q : ρ) : State Op Ret ε α σ ρ :=
  { s with
    calls := s.calls ++ [⟨q, s.tail, .queued, false⟩]
    tail := some s.calls.length }

inductive Step : State Op Ret ε α σ ρ → State Op Ret ε α σ ρ → Prop
  | arrive (s : State Op Ret ε α σ ρ) (q : ρ) : Step s (s.arrive q)
  | internal {s s' : State Op Ret ε α σ ρ} (h : Internal E task s s') : Step s s'

inductive Reachable (w₀ : σ) : State Op Ret ε α σ ρ → Prop
  | initial : Reachable w₀ (.initial w₀)
  | step {s s' : State Op Ret ε α σ ρ} (hs : Reachable w₀ s) (h : Step E task s s') :
      Reachable w₀ s'

/-! ## The sequential meaning -/

/-- The calls have settled, each after running alone, one after another. -/
def Sequential : List (Call Op Ret ε α ρ) → σ → σ → Prop
  | [], w, w' => w' = w
  | c :: cs, w, w'' => ∃ r w', c.phase = .settled r ∧ Runs E (task c.request) w r w'
      ∧ Sequential cs w' w''

/-- The call at the head of the queue has taken the world from `w₁` to `w`. -/
def Current (w₁ w : σ) : Option (Call Op Ret ε α ρ) → Prop
  | none => w = w₁
  | some c =>
    match c.phase with
    | .queued => w = w₁
    | .running p => Effect.Steps E (task c.request) w₁ p w
    | .settled r => Runs E (task c.request) w₁ r w

/-- The first `k` calls are through, one after another; call `k` is the
only one that may be running; every later call is waiting. -/
structure InOrder (w₀ : σ) (s : State Op Ret ε α σ ρ) (k : Nat) (w₁ : σ) : Prop where
  passed : ∀ i c, s.calls[i]? = some c → (c.tailSettled = true ↔ i < k)
  waiting : ∀ i c, s.calls[i]? = some c → k < i → c.phase = .queued
  bound : k ≤ s.calls.length
  sequential : Sequential E task (s.calls.take k) w₀ w₁
  current : Current E task w₁ s.world s.calls[k]?

/-- Each call waits for the call before it, and the tail belongs to the
last. -/
structure Linked (s : State Op Ret ε α σ ρ) : Prop where
  prev : ∀ i c, s.calls[i]? = some c → c.prev = if i = 0 then none else some (i - 1)
  tail : s.tail = if s.calls.length = 0 then none else some (s.calls.length - 1)

/-- The invariant of the chain. -/
def Inv (w₀ : σ) (s : State Op Ret ε α σ ρ) : Prop :=
  Linked s ∧ ∃ k w₁, InOrder E task w₀ s k w₁

end Steps

variable {E : (o : Op) → σ → Except ε (Ret o) → σ → Prop}
variable {task : ρ → Prog Op Ret ε α}
variable {w₀ w₁ : σ} {s s' : State Op Ret ε α σ ρ} {k : Nat}

/-! ## The sequential prefix -/

theorem Sequential.snoc {cs : List (Call Op Ret ε α ρ)} {c : Call Op Ret ε α ρ}
    {r : Except ε α} {w w' w'' : σ} (hcs : Sequential E task cs w w')
    (hphase : c.phase = .settled r) (hrun : Runs E (task c.request) w' r w'') :
    Sequential E task (cs ++ [c]) w w'' := by
  induction cs generalizing w with
  | nil =>
    obtain rfl : w' = w := hcs
    exact ⟨r, w'', hphase, hrun, rfl⟩
  | cons d cs ih =>
    obtain ⟨r', v, hd, hrun', hrest⟩ := hcs
    exact ⟨r', v, hd, hrun', ih hrest⟩

theorem Sequential.settled {cs : List (Call Op Ret ε α ρ)} {w w' : σ}
    (h : Sequential E task cs w w') {c : Call Op Ret ε α ρ} (hc : c ∈ cs) :
    ∃ r, c.phase = .settled r := by
  induction cs generalizing w with
  | nil => cases hc
  | cons d cs ih =>
    obtain ⟨r, v, hd, _, hrest⟩ := h
    rcases List.mem_cons.mp hc with rfl | hmem
    · exact ⟨r, hd⟩
    · exact ih hrest hmem

/-- A call that has started and whose tail is pending is the head. -/
theorem InOrder.eq_head (h : InOrder E task w₀ s k w₁) {i : Nat}
    {c : Call Op Ret ε α ρ} (hc : s.calls[i]? = some c) (htail : c.tailSettled = false)
    (hphase : c.phase ≠ .queued) : i = k := by
  have hpassed := h.passed i c hc
  rw [htail] at hpassed
  have hge : ¬i < k := fun hlt => Bool.false_ne_true (hpassed.mpr hlt)
  have hle : ¬k < i := fun hlt => hphase (h.waiting i c hc hlt)
  omega

/-- A passed call has settled. -/
theorem InOrder.settled_of_passed (h : InOrder E task w₀ s k w₁) {i : Nat}
    {c : Call Op Ret ε α ρ} (hc : s.calls[i]? = some c) (hlt : i < k) :
    ∃ r, c.phase = .settled r := by
  apply h.sequential.settled
  rw [List.mem_iff_getElem?]
  exact ⟨i, by rw [List.getElem?_take_of_lt hlt]; exact hc⟩

theorem InOrder.tail_pending (h : InOrder E task w₀ s k w₁) {c : Call Op Ret ε α ρ}
    (hc : s.calls[k]? = some c) : c.tailSettled = false := by
  have hpassed := h.passed k c hc
  by_contra htrue
  exact Nat.lt_irrefl k (hpassed.mp (by simpa using htrue))

/-- A settled call whose tail is pending has just run, in the present
world. -/
theorem InOrder.runs_of_pending (h : InOrder E task w₀ s k w₁) {i : Nat}
    {c : Call Op Ret ε α ρ} {r : Except ε α} (hc : s.calls[i]? = some c)
    (hphase : c.phase = .settled r) (htail : c.tailSettled = false) :
    i = k ∧ Runs E (task c.request) w₁ r s.world := by
  obtain rfl := h.eq_head hc htail (by rw [hphase]; simp)
  have hcur := h.current
  rw [hc, Current, hphase] at hcur
  exact ⟨rfl, hcur⟩

/-- A settled call lies in a prefix that has run one after another. -/
theorem InOrder.settled_prefix (h : InOrder E task w₀ s k w₁) {i : Nat}
    {c : Call Op Ret ε α ρ} {r : Except ε α} (hc : s.calls[i]? = some c)
    (hphase : c.phase = .settled r) :
    ∃ m w, i < m ∧ Sequential E task (s.calls.take m) w₀ w := by
  by_cases hlt : i < k
  · exact ⟨k, w₁, hlt, h.sequential⟩
  · have htail : c.tailSettled = false := by
      by_contra htrue
      exact hlt ((h.passed i c hc).mp (by simpa using htrue))
    obtain ⟨rfl, hrun⟩ := h.runs_of_pending hc hphase htail
    refine ⟨i + 1, s.world, Nat.lt_succ_self i, ?_⟩
    rw [List.take_add_one, hc]
    exact h.sequential.snoc hphase hrun

/-! ## One step -/

theorem initial_inv (E : (o : Op) → σ → Except ε (Ret o) → σ → Prop)
    (task : ρ → Prog Op Ret ε α) (w₀ : σ) : Inv E task w₀ (.initial w₀) := by
  refine ⟨⟨fun i c hc => absurd hc (by simp [State.initial]), rfl⟩, 0, w₀, ?_⟩
  exact {
    passed := fun i c hc => absurd hc (by simp [State.initial])
    waiting := fun i c hc => absurd hc (by simp [State.initial])
    bound := Nat.zero_le _
    sequential := rfl
    current := rfl }

theorem arrive_inv (h : Inv E task w₀ s) (q : ρ) : Inv E task w₀ (s.arrive q) := by
  obtain ⟨hlinked, k, w₁, horder⟩ := h
  have hold : ∀ i c, (s.calls ++ [⟨q, s.tail, .queued, false⟩])[i]? = some c →
      s.calls[i]? = some c ∨ i = s.calls.length ∧ c = ⟨q, s.tail, .queued, false⟩ := by
    intro i c hc
    rcases Nat.lt_trichotomy i s.calls.length with hlt | heq | hgt
    · rw [List.getElem?_append_left hlt] at hc
      exact .inl hc
    · rw [heq, List.getElem?_append_right (Nat.le_refl _), Nat.sub_self] at hc
      exact .inr ⟨heq, (Option.some.inj hc).symm⟩
    · rw [List.getElem?_eq_none (by rw [List.length_append]; exact hgt)] at hc
      cases hc
  refine ⟨⟨fun i c hc => ?_, ?_⟩, k, w₁, ?_⟩
  · rcases hold i c hc with hc | ⟨rfl, rfl⟩
    · exact hlinked.prev i c hc
    · exact hlinked.tail
  · simp [State.arrive]
  · exact {
      passed := by
        intro i c hc
        rcases hold i c hc with hc | ⟨rfl, rfl⟩
        · exact horder.passed i c hc
        · have := horder.bound
          simp only [Bool.false_eq_true, false_iff]
          omega
      waiting := by
        intro i c hc hlt
        rcases hold i c hc with hc | ⟨rfl, rfl⟩
        · exact horder.waiting i c hc hlt
        · rfl
      bound := by
        have := horder.bound
        simp only [State.arrive, List.length_append]
        omega
      sequential := by
        simp only [State.arrive]
        rw [List.take_append_of_le_length horder.bound]
        exact horder.sequential
      current := by
        have hcur := horder.current
        rcases Nat.lt_or_ge k s.calls.length with hlt | hge
        · simp only [State.arrive]
          rw [List.getElem?_append_left hlt]
          exact hcur
        · -- the queue was empty: the new call is its head
          have hk : k = s.calls.length := Nat.le_antisymm horder.bound hge
          rw [List.getElem?_eq_none hge] at hcur
          simp only [State.arrive]
          rw [hk, List.getElem?_append_right (Nat.le_refl _), Nat.sub_self]
          exact hcur }

/-- Changing a call keeps the links. -/
theorem linked_update {c c' : Call Op Ret ε α ρ} (h : Linked s) {i : Nat}
    (hc : s.calls[i]? = some c) (hprev : c'.prev = c.prev) (w' : σ) :
    Linked (s.update i c' w') := by
  refine ⟨fun j d hd => ?_, ?_⟩
  · by_cases hj : j = i
    · subst hj
      rw [State.update_self hc] at hd
      cases hd
      rw [hprev]
      exact h.prev j c hc
    · rw [State.update_ne s hj] at hd
      exact h.prev j d hd
  · rw [State.update_length]
    exact h.tail

/-- Changing the head of the queue keeps the order of the rest. -/
theorem inOrder_update {c c' : Call Op Ret ε α ρ} {w' : σ}
    (h : InOrder E task w₀ s k w₁) (hc : s.calls[k]? = some c)
    (htail : c'.tailSettled = false) (hcur : Current E task w₁ w' (some c')) :
    InOrder E task w₀ (s.update k c' w') k w₁ where
  passed := by
    intro i d hd
    by_cases hi : i = k
    · subst hi
      rw [State.update_self hc] at hd
      cases hd
      simp [htail]
    · rw [State.update_ne s hi] at hd
      exact h.passed i d hd
  waiting := by
    intro i d hd hki
    rw [State.update_ne s (by omega)] at hd
    exact h.waiting i d hd hki
  bound := by
    rw [State.update_length]
    exact h.bound
  sequential := by
    rw [State.update_take]
    exact h.sequential
  current := by
    rw [State.update_self hc]
    exact hcur

/-- The head's tail resolves: the next call becomes the head. -/
theorem inOrder_pass {c : Call Op Ret ε α ρ} {r : Except ε α}
    (h : InOrder E task w₀ s k w₁) (hc : s.calls[k]? = some c)
    (hphase : c.phase = .settled r) :
    InOrder E task w₀ (s.update k { c with tailSettled := true } s.world) (k + 1)
      s.world where
  passed := by
    intro i d hd
    by_cases hi : i = k
    · subst hi
      rw [State.update_self hc] at hd
      cases hd
      simp
    · rw [State.update_ne s hi] at hd
      rw [h.passed i d hd]
      omega
  waiting := by
    intro i d hd hki
    rw [State.update_ne s (by omega)] at hd
    exact h.waiting i d hd (by omega)
  bound := by
    rw [State.update_length]
    exact (List.getElem?_eq_some_iff.mp hc).1
  sequential := by
    have hrun : Runs E (task c.request) w₁ r s.world := by
      have hcur := h.current
      rw [hc, Current, hphase] at hcur
      exact hcur
    rw [List.take_add_one, State.update_take, State.update_self hc]
    exact h.sequential.snoc hphase hrun
  current := by
    rw [State.update_ne s (by omega)]
    cases hnext : s.calls[k + 1]? with
    | none => rfl
    | some d =>
      have hqueued := h.waiting (k + 1) d hnext (by omega)
      rw [Current, hqueued]
      rfl

/-- A running call is the head. -/
theorem InOrder.head_of_running (h : InOrder E task w₀ s k w₁) {i : Nat}
    {c : Call Op Ret ε α ρ} {p : Prog Op Ret ε α} (hc : s.calls[i]? = some c)
    (hphase : c.phase = .running p) : i = k ∧ c.tailSettled = false := by
  have htail : c.tailSettled = false := by
    by_contra htrue
    have hlt := (h.passed i c hc).mp (by simpa using htrue)
    obtain ⟨r, hr⟩ := h.settled_of_passed hc hlt
    rw [hphase] at hr
    cases hr
  exact ⟨h.eq_head hc htail (by rw [hphase]; simp), htail⟩

/-- A queued call whose predecessor is through is the head. -/
theorem InOrder.head_of_resolved (h : InOrder E task w₀ s k w₁) (hlinked : Linked s)
    {i : Nat} {c : Call Op Ret ε α ρ} (hc : s.calls[i]? = some c)
    (hphase : c.phase = .queued) (hprev : resolved s.calls c.prev) : i = k := by
  have hge : ¬i < k := by
    intro hlt
    obtain ⟨r, hr⟩ := h.settled_of_passed hc hlt
    rw [hphase] at hr
    cases hr
  rw [hlinked.prev i c hc] at hprev
  by_cases hzero : i = 0
  · omega
  · rw [if_neg hzero] at hprev
    obtain ⟨d, hd, hdt⟩ := hprev
    have hlt := (h.passed (i - 1) d hd).mp hdt
    omega

theorem internal_inv (h : Inv E task w₀ s) (hstep : Internal E task s s') :
    Inv E task w₀ s' := by
  obtain ⟨hlinked, k, w₁, horder⟩ := h
  have hcur := horder.current
  cases hstep with
  | start hc hphase hprev =>
    obtain rfl := horder.head_of_resolved hlinked hc hphase hprev
    have htail := horder.tail_pending hc
    rw [hc, Current, hphase] at hcur
    refine ⟨linked_update hlinked hc ?_ _, _, w₁, inOrder_update horder hc htail ?_⟩
    · rfl
    · have hworld : s.world = w₁ := hcur
      rw [hworld]
      exact .refl _ w₁
  | run hc hphase hstep =>
    obtain ⟨rfl, htail⟩ := horder.head_of_running hc hphase
    rw [hc, Current, hphase] at hcur
    refine ⟨linked_update hlinked hc ?_ _, _, w₁, inOrder_update horder hc htail ?_⟩
    · rfl
    · exact .tail hcur hstep
  | settle hc hphase =>
    obtain ⟨rfl, htail⟩ := horder.head_of_running hc hphase
    rw [hc, Current, hphase] at hcur
    refine ⟨linked_update hlinked hc ?_ _, _, w₁, inOrder_update horder hc htail ?_⟩
    · rfl
    · exact hcur.runs (.done _ _)
  | swallow hc hphase htail =>
    obtain rfl := horder.eq_head hc htail (by rw [hphase]; simp)
    refine ⟨linked_update hlinked hc ?_ _, _, s.world, inOrder_pass horder hc hphase⟩
    rfl

/-! ## Runs -/

/-- **The chain serialises**, in every reachable state. -/
theorem reachable_inv (h : Reachable E task w₀ s) : Inv E task w₀ s := by
  induction h with
  | initial => exact initial_inv E task w₀
  | step _ hstep ih =>
    cases hstep with
    | arrive q => exact arrive_inv ih q
    | internal hint => exact internal_inv ih hint

/-- A running call may end as its program may. -/
theorem Reachable.settles {i : Nat} {c : Call Op Ret ε α ρ} {p : Prog Op Ret ε α} {w' : σ}
    {r : Except ε α} (hs : Reachable E task w₀ s) (hc : s.calls[i]? = some c)
    (hphase : c.phase = .running p) (hrun : Runs E p s.world r w') :
    Reachable E task w₀ (s.update i { c with phase := .settled r } w') := by
  generalize hw : s.world = w at hrun
  induction hrun generalizing s c with
  | done r w =>
    rw [← hw]
    exact .step hs (.internal (.settle hc hphase))
  | @await o k w t w' x r heff _ ih =>
    subst hw
    have hnext := Reachable.step hs (.internal (.run hc hphase (.await heff)))
    have hrest := ih hnext (State.update_self hc _ t) rfl rfl
    rwa [State.update, State.update, List.set_set] at hrest

/-- **No call is blocked**: while one has not settled, one can go on, if
every operation has some outcome. -/
theorem exists_internal (h : Inv E task w₀ s)
    (htotal : ∀ o w, ∃ x w', E o w x w') {i : Nat} {c : Call Op Ret ε α ρ}
    (hc : s.calls[i]? = some c) (hopen : ∀ r, c.phase ≠ .settled r) :
    ∃ s', Internal E task s s' := by
  obtain ⟨hlinked, k, w₁, horder⟩ := h
  have hki : k ≤ i := by
    by_contra hlt
    obtain ⟨r, hr⟩ := horder.settled_of_passed hc (by omega)
    exact hopen r hr
  have hlt : k < s.calls.length :=
    Nat.lt_of_le_of_lt hki (List.getElem?_eq_some_iff.mp hc).1
  obtain ⟨d, hd⟩ : ∃ d, s.calls[k]? = some d := ⟨s.calls[k], List.getElem?_eq_getElem hlt⟩
  cases hphase : d.phase with
  | queued =>
    refine ⟨_, .start hd hphase ?_⟩
    rw [hlinked.prev k d hd]
    by_cases hzero : k = 0
    · rw [if_pos hzero]
      trivial
    · rw [if_neg hzero]
      have hbefore : k - 1 < s.calls.length := by omega
      refine ⟨s.calls[k - 1], List.getElem?_eq_getElem hbefore, ?_⟩
      rw [horder.passed (k - 1) _ (List.getElem?_eq_getElem hbefore)]
      omega
  | running p =>
    cases p with
    | done r => exact ⟨_, .settle hd hphase⟩
    | await o next =>
      obtain ⟨x, w', heff⟩ := htotal o s.world
      exact ⟨_, .run hd hphase (.await heff)⟩
  | settled r => exact ⟨_, .swallow hd hphase (horder.tail_pending hd)⟩

/-! ## Termination -/

section Termination

variable (task)

/-- `Shrinks c' c`: one step takes the call `c` to `c'`. -/
inductive Shrinks : Call Op Ret ε α ρ → Call Op Ret ε α ρ → Prop
  | start {c : Call Op Ret ε α ρ} (hphase : c.phase = .queued) :
      Shrinks { c with phase := .running (task c.request) } c
  | run {c : Call Op Ret ε α ρ} {o : Op} {next : Except ε (Ret o) → Prog Op Ret ε α}
      (x : Except ε (Ret o)) (hphase : c.phase = .running (.await o next)) :
      Shrinks { c with phase := .running (next x) } c
  | settle {c : Call Op Ret ε α ρ} {r : Except ε α}
      (hphase : c.phase = .running (.done r)) : Shrinks { c with phase := .settled r } c
  | swallow {c : Call Op Ret ε α ρ} {r : Except ε α} (hphase : c.phase = .settled r)
      (htail : c.tailSettled = false) : Shrinks { c with tailSettled := true } c

/-- One call of the list shrinks. -/
def OneShrinks (cs' cs : List (Call Op Ret ε α ρ)) : Prop :=
  ∃ (i : Nat) (c c' : Call Op Ret ε α ρ), cs[i]? = some c ∧ Shrinks task c' c
    ∧ cs' = cs.set i c'

theorem acc_settled {c : Call Op Ret ε α ρ} {r : Except ε α}
    (hphase : c.phase = .settled r) : Acc (Shrinks task) c := by
  have hthrough : ∀ d : Call Op Ret ε α ρ, d.phase = .settled r → d.tailSettled = true →
      Acc (Shrinks task) d := by
    intro d hd htrue
    refine ⟨d, fun d' h => ?_⟩
    cases h with
    | start h => rw [hd] at h; cases h
    | run x h => rw [hd] at h; cases h
    | settle h => rw [hd] at h; cases h
    | swallow _ hfalse => rw [htrue] at hfalse; cases hfalse
  refine ⟨c, fun d h => ?_⟩
  cases h with
  | start h => rw [hphase] at h; cases h
  | run x h => rw [hphase] at h; cases h
  | settle h => rw [hphase] at h; cases h
  | swallow h hfalse => exact hthrough _ hphase rfl

/-- By induction on what is left of the program. -/
theorem acc_running (p : Prog Op Ret ε α) :
    ∀ c : Call Op Ret ε α ρ, c.phase = .running p → Acc (Shrinks task) c := by
  induction p with
  | done r =>
    intro c hphase
    refine ⟨c, fun d h => ?_⟩
    cases h with
    | start h => rw [hphase] at h; cases h
    | run x h => rw [hphase] at h; cases h
    | settle h => exact acc_settled task rfl
    | swallow h => rw [hphase] at h; cases h
  | await o next ih =>
    intro c hphase
    refine ⟨c, fun d h => ?_⟩
    cases h with
    | start h => rw [hphase] at h; cases h
    | run x h =>
      rw [hphase] at h
      cases h
      exact ih x _ rfl
    | settle h => rw [hphase] at h; cases h
    | swallow h => rw [hphase] at h; cases h

theorem acc_call (c : Call Op Ret ε α ρ) : Acc (Shrinks task) c := by
  cases hphase : c.phase with
  | running p => exact acc_running task p c hphase
  | settled r => exact acc_settled task hphase
  | queued =>
    refine ⟨c, fun d h => ?_⟩
    cases h with
    | start h => exact acc_running task _ _ rfl
    | run x h => rw [hphase] at h; cases h
    | settle h => rw [hphase] at h; cases h
    | swallow h => rw [hphase] at h; cases h

/-- By induction on the list; a step is in the first call or in the rest. -/
theorem acc_calls (cs : List (Call Op Ret ε α ρ)) : Acc (OneShrinks task) cs := by
  induction cs with
  | nil =>
    refine ⟨[], fun cs' h => ?_⟩
    obtain ⟨i, c, c', hc, -⟩ := h
    cases hc
  | cons c cs ih =>
    have hc := acc_call task c
    induction hc generalizing cs with
    | intro c _ ihc =>
      induction ih with
      | intro cs hcs ihcs =>
        refine ⟨c :: cs, fun cs' h => ?_⟩
        obtain ⟨i, d, d', hd, hshrink, rfl⟩ := h
        cases i with
        | zero =>
          obtain rfl : c = d := Option.some.inj hd
          exact ihc d' hshrink cs ⟨cs, hcs⟩
        | succ i =>
          exact ihcs _ ⟨i, d, d', hd, hshrink, rfl⟩

variable (E)

/-- **Without new arrivals the steps run out**: no infinite run blocks a
call by keeping the others busy. -/
theorem internal_wellFounded : WellFounded fun s' s : State Op Ret ε α σ ρ =>
    Internal E task s s' := by
  have hshrinks : ∀ s s' : State Op Ret ε α σ ρ, Internal E task s s' →
      OneShrinks task s'.calls s.calls := by
    intro s s' h
    cases h with
    | start hc hphase _ => exact ⟨_, _, _, hc, .start hphase, rfl⟩
    | run hc hphase hstep =>
      cases hstep with
      | await heff => exact ⟨_, _, _, hc, .run _ hphase, rfl⟩
    | settle hc hphase => exact ⟨_, _, _, hc, .settle hphase, rfl⟩
    | swallow hc hphase htail => exact ⟨_, _, _, hc, .swallow hphase htail, rfl⟩
  refine ⟨fun s => ?_⟩
  refine Subrelation.accessible (r := InvImage (OneShrinks task) State.calls)
    (fun h => hshrinks _ _ h) ?_
  exact InvImage.accessible State.calls (acc_calls task s.calls)

end Termination

end Chain
