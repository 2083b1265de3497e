import Mathlib.Algebra.GroupWithZero.Nat
import Mathlib.Data.List.Basic
import Mathlib.Algebra.BigOperators.Group.List.Basic

/-!
# Run

Runs of a step function over a list of operations, and the induction
over them, packaged once: from what one operation preserves to what a
whole run preserves. Fallible loops whose steps all succeed are the pure
loops.
-/

namespace Run

variable {σ ω : Type}

/-- **A preserved invariant holds after every run**, when every
operation of the run is of the kind `A` the step lemma covers. -/
theorem foldl_preserves {step : σ → ω → σ} {Inv : σ → Prop} {A : ω → Prop}
    (hstep : ∀ s o, A o → Inv s → Inv (step s o)) (ops : List ω) :
    ∀ s, (∀ o ∈ ops, A o) → Inv s → Inv (ops.foldl step s) := by
  induction ops with
  | nil => intro s _ hs; exact hs
  | cons o ops ih =>
    intro s hops hs
    have hs' : Inv (step s o) := hstep s o (hops o (by simp)) hs
    exact ih (step s o) (fun o' ho' => hops o' (by simp [ho'])) hs'

/-- **A counted run**: an operation adds its weight to the index of the
invariant; below the bound, a run adds the sum. -/
theorem foldl_counts {step : σ → ω → σ} {Inv : Nat → σ → Prop}
    {A : ω → Prop} {weight : ω → Nat} {bound : Nat}
    (hstep : ∀ n s o, A o → n + weight o ≤ bound → Inv n s →
      Inv (n + weight o) (step s o)) (ops : List ω) :
    ∀ n s, (∀ o ∈ ops, A o) → n + (ops.map weight).sum ≤ bound → Inv n s →
      Inv (n + (ops.map weight).sum) (ops.foldl step s) := by
  induction ops with
  | nil => intro n s _ _ hs; simpa using hs
  | cons o ops ih =>
    intro n s hops hle hs
    rw [List.map_cons, List.sum_cons] at hle ⊢
    have hs' : Inv (n + weight o) (step s o) :=
      hstep n s o (hops o (by simp)) (by omega) hs
    have hrun := ih (n + weight o) (step s o)
      (fun o' ho' => hops o' (by simp [ho'])) (by omega) hs'
    rwa [Nat.add_assoc] at hrun

/-! ## Conditions met along a run -/

/-- Every operation of the run meets its condition in the state it is
applied to. -/
def Each (step : σ → ω → σ) (ok : σ → ω → Prop) : σ → List ω → Prop
  | _, [] => True
  | s, o :: ops => ok s o ∧ Each step ok (step s o) ops

instance Each.decidable {step : σ → ω → σ} {ok : σ → ω → Prop} [∀ s o, Decidable (ok s o)] :
    (s : σ) → (ops : List ω) → Decidable (Each step ok s ops)
  | _, [] => isTrue trivial
  | s, o :: ops =>
    have : Decidable (Each step ok (step s o) ops) := Each.decidable (step s o) ops
    inferInstanceAs (Decidable (ok s o ∧ Each step ok (step s o) ops))

/-- **A preserved invariant holds after every run** whose operations meet
the condition of the step lemma. -/
theorem Each.preserves {step : σ → ω → σ} {ok : σ → ω → Prop} {Inv : σ → Prop}
    (hstep : ∀ s o, ok s o → Inv s → Inv (step s o)) {ops : List ω} :
    ∀ {s}, Each step ok s ops → Inv s → Inv (ops.foldl step s) := by
  induction ops with
  | nil => intro s _ hs; exact hs
  | cons o ops ih =>
    intro s hops hs
    obtain ⟨ho, hrest⟩ := hops
    exact ih hrest (hstep s o ho hs)

/-- The same for an invariant with an index to which an operation adds its
weight. -/
theorem Each.counts {step : σ → ω → σ} {ok : σ → ω → Prop} {Inv : Nat → σ → Prop}
    {weight : ω → Nat}
    (hstep : ∀ n s o, ok s o → Inv n s → Inv (n + weight o) (step s o)) {ops : List ω} :
    ∀ {n s}, Each step ok s ops → Inv n s →
      Inv (n + (ops.map weight).sum) (ops.foldl step s) := by
  induction ops with
  | nil => intro n s _ hs; exact hs
  | cons o ops ih =>
    intro n s hops hs
    obtain ⟨ho, hrest⟩ := hops
    rw [List.map_cons, List.sum_cons, ← Nat.add_assoc]
    exact ih hrest (hstep n s o ho hs)

theorem Each.append {step : σ → ω → σ} {ok : σ → ω → Prop} {pre post : List ω} :
    ∀ {s}, Each step ok s (pre ++ post) ↔
      Each step ok s pre ∧ Each step ok (pre.foldl step s) post := by
  induction pre with
  | nil => intro s; exact ⟨fun h => ⟨True.intro, h⟩, fun h => h.2⟩
  | cons o pre ih =>
    intro s
    rw [List.cons_append, Each, Each, ih, List.foldl_cons, and_assoc]

/-- Beside the condition, what is known of every operation. -/
theorem Each.and_forall {step : σ → ω → σ} {ok : σ → ω → Prop} {A : ω → Prop} {ops : List ω} :
    ∀ {s}, Each step ok s ops → (∀ o ∈ ops, A o) →
      Each step (fun s o => ok s o ∧ A o) s ops := by
  induction ops with
  | nil => intro s _ _; trivial
  | cons o ops ih =>
    intro s hops hA
    exact ⟨⟨hops.1, hA o (by simp)⟩, ih hops.2 fun o' ho' => hA o' (by simp [ho'])⟩

/-- **The exact condition of a run**: when a condition on each step is exact
for the invariant, the invariant holds in every state of the run just when
every operation meets the condition. -/
theorem Each.iff_prefixes {step : σ → ω → σ} {ok : σ → ω → Prop} {Inv : σ → Prop}
    (hstep : ∀ s o, Inv s → (Inv (step s o) ↔ ok s o)) {ops : List ω} :
    ∀ {s}, Inv s →
      ((∀ pre post, ops = pre ++ post → Inv (pre.foldl step s)) ↔ Each step ok s ops) := by
  induction ops with
  | nil =>
    intro s hs
    refine ⟨fun _ => True.intro, fun _ pre post heq => ?_⟩
    rw [(List.append_eq_nil_iff.mp heq.symm).1]
    exact hs
  | cons o ops ih =>
    intro s hs
    constructor
    · intro h
      have hnext : Inv (step s o) := h [o] ops rfl
      refine ⟨(hstep s o hs).mp hnext, (ih hnext).mp fun pre post heq => ?_⟩
      exact h (o :: pre) post (by rw [heq, List.cons_append])
    · rintro ⟨ho, hrest⟩ pre post heq
      have hnext : Inv (step s o) := (hstep s o hs).mpr ho
      cases pre with
      | nil => exact hs
      | cons o' pre =>
        obtain ⟨rfl, htail⟩ := List.cons.inj heq
        exact (ih hnext).mpr hrest pre post htail

/-- The same beside an invariant that every operation preserves. -/
theorem Each.iff_prefixes_beside {step : σ → ω → σ} {ok : σ → ω → Prop} {Aux Inv : σ → Prop}
    (haux : ∀ s o, Aux s → Aux (step s o))
    (hstep : ∀ s o, Aux s → Inv s → (Inv (step s o) ↔ ok s o)) {ops : List ω} {s : σ}
    (hs : Aux s) (h : Inv s) :
    (∀ pre post, ops = pre ++ post → Inv (pre.foldl step s)) ↔ Each step ok s ops := by
  have hboth := @Each.iff_prefixes _ _ step ok (fun s => Aux s ∧ Inv s)
    (fun s o hs => (and_iff_right (haux s o hs.1)).trans (hstep s o hs.1 hs.2)) ops s ⟨hs, h⟩
  rw [← hboth]
  refine forall₂_congr fun pre post => imp_congr_right fun _ => (and_iff_right ?_).symm
  exact foldl_preserves (A := fun _ => True) (fun s o _ => haux s o) pre s
    (fun _ _ => True.intro) hs

/-- The condition at every operation of the run. -/
theorem Each.iff_splits {step : σ → ω → σ} {ok : σ → ω → Prop} {ops : List ω} :
    ∀ {s}, Each step ok s ops ↔
      ∀ pre o post, ops = pre ++ o :: post → ok (pre.foldl step s) o := by
  induction ops with
  | nil =>
    intro s
    refine ⟨fun _ pre o post heq => ?_, fun _ => True.intro⟩
    simp at heq
  | cons o ops ih =>
    intro s
    rw [Each, ih]
    constructor
    · rintro ⟨ho, hrest⟩ pre o' post heq
      cases pre with
      | nil =>
        obtain ⟨rfl, -⟩ := List.cons.inj heq
        exact ho
      | cons o'' pre =>
        obtain ⟨rfl, htail⟩ := List.cons.inj heq
        exact hrest pre o' post htail
    · intro h
      exact ⟨h [] o ops rfl, fun pre o' post heq => h (o :: pre) o' post (by rw [heq]; rfl)⟩

/-- **What one step relates**, a run relates. -/
theorem Each.relates {step : σ → ω → σ} {ok : σ → ω → Prop} {R : σ → σ → Prop}
    (hrefl : ∀ s, R s s) (htrans : ∀ {a b c}, R a b → R b c → R a c)
    (hstep : ∀ s o, ok s o → R s (step s o)) {ops : List ω} :
    ∀ {s}, Each step ok s ops → R s (ops.foldl step s) := by
  induction ops with
  | nil => intro s _; exact hrefl s
  | cons o ops ih =>
    intro s hops
    exact htrans (hstep s o hops.1) (ih hops.2)

/-- **An exact condition on the steps**, where the condition keeps what it is
exact under. -/
theorem Each.iff_each {step : σ → ω → σ} {good ok : σ → ω → Prop} {Inv : σ → Prop}
    (hexact : ∀ s o, Inv s → (good s o ↔ ok s o)) (hinv : ∀ s o, Inv s → good s o → Inv (step s o))
    {ops : List ω} : ∀ {s}, Inv s → (Each step good s ops ↔ Each step ok s ops) := by
  induction ops with
  | nil => intro s _; rfl
  | cons o ops ih =>
    intro s hs
    rw [Each, Each, hexact s o hs]
    refine and_congr_right ?_
    intro hok
    exact ih (hinv s o hs ((hexact s o hs).mpr hok))

/-- **A condition that is enough for each step** is so for the run, where it
keeps what it is enough under. -/
theorem Each.imp {step : σ → ω → σ} {good ok : σ → ω → Prop} {Inv : σ → Prop}
    (himp : ∀ s o, Inv s → ok s o → good s o) (hinv : ∀ s o, Inv s → ok s o → Inv (step s o))
    {ops : List ω} : ∀ {s}, Inv s → Each step ok s ops → Each step good s ops := by
  induction ops with
  | nil => intro s _ _; trivial
  | cons o ops ih =>
    intro s hs hops
    exact ⟨himp s o hs hops.1, ih (hinv s o hs hops.1) hops.2⟩

/-- **A run and the same run without some of its operations** stay related. -/
theorem Each.filter_relates {step : σ → ω → σ} {ok : σ → ω → Prop} {R : σ → σ → Prop}
    {p : ω → Bool} (hskip : ∀ s t o, p o = false → ok s o → R s t → R (step s o) t)
    (hstep : ∀ s t o, p o = true → ok s o → R s t → R (step s o) (step t o)) {ops : List ω} :
    ∀ {s t}, Each step ok s ops → R s t →
      R (ops.foldl step s) ((ops.filter p).foldl step t) := by
  induction ops with
  | nil => intro s t _ h; exact h
  | cons o ops ih =>
    intro s t hops h
    cases ho : p o with
    | false =>
      rw [List.filter_cons_of_neg (by simp [ho])]
      exact ih hops.2 (hskip s t o ho hops.1 h)
    | true =>
      rw [List.filter_cons_of_pos ho]
      exact ih hops.2 (hstep s t o ho hops.1 h)

/-- A run of a partial step function: it stops at the first failure. -/
def steps (step : σ → ω → Option σ) : List ω → σ → Option σ
  | [], s => some s
  | o :: ops, s => (step s o).bind (steps step ops)

/-- **A preserved invariant holds after every completed run.** -/
theorem steps_preserves {step : σ → ω → Option σ} {Inv : σ → Prop}
    {A : ω → Prop}
    (hstep : ∀ s o s', A o → Inv s → step s o = some s' → Inv s')
    (ops : List ω) :
    ∀ s s', (∀ o ∈ ops, A o) → Inv s → steps step ops s = some s' →
      Inv s' := by
  induction ops with
  | nil =>
    intro s s' _ hs hrun
    cases hrun
    exact hs
  | cons o ops ih =>
    intro s s' hops hs hrun
    rw [steps, Option.bind_eq_some_iff] at hrun
    obtain ⟨t, ht, hrest⟩ := hrun
    have hInv : Inv t := hstep s o t (hops o (by simp)) hs ht
    exact ih t s' (fun o' ho' => hops o' (by simp [ho'])) hInv hrest

/-! ## Fallible loops -/

variable {ε : Type}

/-- A fallible loop that always succeeds is the image of a pure loop on
another type. -/
theorem foldlM_hom_ok {τ : Type} {step : τ → ω → Except ε τ} {f : σ → ω → σ}
    {g : σ → τ} (ops : List ω)
    (h : ∀ s, ∀ o ∈ ops, step (g s) o = .ok (g (f s o))) (s : σ) :
    ops.foldlM step (g s) = .ok (g (ops.foldl f s)) := by
  induction ops generalizing s with
  | nil => rfl
  | cons o ops ih =>
    rw [List.foldlM_cons, h s o (by simp)]
    exact ih (fun s' o' ho' => h s' o' (by simp [ho'])) (f s o)

theorem mapM_ok {step : ω → Except ε σ} {f : ω → σ} (ops : List ω)
    (h : ∀ o ∈ ops, step o = .ok (f o)) : ops.mapM step = .ok (ops.map f) := by
  induction ops with
  | nil => rfl
  | cons o ops ih =>
    rw [List.mapM_cons, h o (by simp), ih fun o' ho' => h o' (by simp [ho'])]
    rfl

end Run
