import Mathlib.Logic.Relation
import Mathlib.Data.List.Basic

/-!
# Interleaved threads

Any number of threads over one shared state. A thread may start at any
time, and a step of a thread may change the shared state; the schedule is
arbitrary.

Two rules. Assertions about single threads hold along every run when each
step keeps the assertions of the other threads
(`Reachable.assertions`). An obligation of the shared state is met or in
the hands of a thread along every run when each step that opens one takes
it on, and each step that lets one go has met it (`Reachable.carried`).
-/

namespace Interleave

variable {σ π : Type}

/-- The shared state and the threads started so far. -/
structure Config (σ π : Type) where
  shared : σ
  threads : List π

section Machine

variable (start : σ → σ → π → Prop) (step : σ → π → σ → π → Prop)

inductive Step : Config σ π → Config σ π → Prop
  | start {s s' : σ} {p : π} {ts : List π} (h : start s s' p) : Step ⟨s, ts⟩ ⟨s', ts ++ [p]⟩
  | run {s s' : σ} {p p' : π} {ts us : List π} (h : step s p s' p') :
      Step ⟨s, ts ++ p :: us⟩ ⟨s', ts ++ p' :: us⟩

inductive Reachable (s₀ : σ) : Config σ π → Prop
  | initial : Reachable s₀ ⟨s₀, []⟩
  | step {c c' : Config σ π} (h : Reachable s₀ c) (hstep : Step start step c c') :
      Reachable s₀ c'

/-- Steps of one thread alone. -/
def Alone : σ × π → σ × π → Prop :=
  Relation.ReflTransGen fun a b => step a.1 a.2 b.1 b.2

end Machine

variable {start : σ → σ → π → Prop} {step : σ → π → σ → π → Prop}
variable {s₀ : σ} {c : Config σ π}

/-- Membership after one thread has moved. -/
theorem mem_replace {p p' q : π} {ts us : List π} (h : q ∈ ts ++ p' :: us) :
    q = p' ∨ q ∈ ts ++ p :: us := by
  rw [List.mem_append, List.mem_cons] at h
  rcases h with hts | rfl | hus
  · exact .inr (List.mem_append_left _ hts)
  · exact .inl rfl
  · exact .inr (List.mem_append_right _ (List.mem_cons_of_mem _ hus))

theorem mem_middle {p : π} {ts us : List π} : p ∈ ts ++ p :: us :=
  List.mem_append_right _ List.mem_cons_self

/-! ## Assertions -/

section Rules

variable {Global : σ → Prop} {Local : σ → π → Prop}

/-- **Assertions hold along every run** when a step of one thread keeps
those of the others. -/
theorem Reachable.assertions (h₀ : Global s₀)
    (hstart : ∀ s s' p, Global s → start s s' p →
      Global s' ∧ Local s' p ∧ ∀ q, Local s q → Local s' q)
    (hstep : ∀ s p s' p', Global s → Local s p → step s p s' p' →
      Global s' ∧ Local s' p' ∧ ∀ q, Local s q → Local s' q)
    (h : Reachable start step s₀ c) : Global c.shared ∧ ∀ p ∈ c.threads, Local c.shared p := by
  induction h with
  | initial => exact ⟨h₀, fun p hp => by cases hp⟩
  | step _ hmove ih =>
    obtain ⟨hglobal, hlocal⟩ := ih
    cases hmove with
    | start hs =>
      obtain ⟨hglobal', hnew, hothers⟩ := hstart _ _ _ hglobal hs
      refine ⟨hglobal', fun q hq => ?_⟩
      rcases List.mem_append.mp hq with hold | hq
      · exact hothers q (hlocal q hold)
      · rw [List.mem_singleton.mp hq]
        exact hnew
    | run hs =>
      obtain ⟨hglobal', hnew, hothers⟩ := hstep _ _ _ _ hglobal (hlocal _ mem_middle) hs
      refine ⟨hglobal', fun q hq => ?_⟩
      rcases mem_replace hq with rfl | hold
      · exact hnew
      · exact hothers q (hlocal q hold)

/-- **An obligation is met or carried by a thread**, along every run. -/
theorem Reachable.carried (Met : σ → Prop) {Carries : σ → π → Prop}
    (hinv : ∀ {c}, Reachable start step s₀ c →
      Global c.shared ∧ ∀ p ∈ c.threads, Local c.shared p)
    (h₀ : Met s₀)
    (hstart : ∀ s s' p, Global s → start s s' p →
      Carries s' p ∨ (Met s → Met s') ∧ ∀ q, Carries s q → Carries s' q)
    (hstep : ∀ s p s' p', Global s → Local s p → step s p s' p' →
      Met s' ∨ Carries s' p' ∨ ¬Carries s p ∧ (Met s → Met s') ∧ ∀ q, Carries s q → Carries s' q)
    (h : Reachable start step s₀ c) :
    Met c.shared ∨ ∃ p ∈ c.threads, Carries c.shared p := by
  induction h with
  | initial => exact .inl h₀
  | step hreach hmove ih =>
    obtain ⟨hglobal, hlocal⟩ := hinv hreach
    cases hmove with
    | start hs =>
      rcases hstart _ _ _ hglobal hs with hnew | ⟨hmet, hkeep⟩
      · exact .inr ⟨_, List.mem_append_right _ (List.mem_singleton.mpr rfl), hnew⟩
      rcases ih with hm | ⟨q, hq, hcarries⟩
      · exact .inl (hmet hm)
      · exact .inr ⟨q, List.mem_append_left _ hq, hkeep q hcarries⟩
    | run hs =>
      rcases hstep _ _ _ _ hglobal (hlocal _ mem_middle) hs
        with hm | hnew | ⟨hidle, hmet, hkeep⟩
      · exact .inl hm
      · exact .inr ⟨_, mem_middle, hnew⟩
      rcases ih with hm | ⟨q, hq, hcarries⟩
      · exact .inl (hmet hm)
      · refine .inr ⟨q, ?_, hkeep q hcarries⟩
        rcases mem_replace hq with rfl | hold
        · exact absurd hcarries hidle
        · exact hold

end Rules

/-! ## Runs of one thread -/

theorem Alone.refl (s : σ) (p : π) : Alone step (s, p) (s, p) := Relation.ReflTransGen.refl

theorem Alone.move {a : σ × π} {s s' : σ} {p p' : π} (h : Alone step a (s, p))
    (hmove : step s p s' p') : Alone step a (s', p') := Relation.ReflTransGen.tail h hmove

theorem Alone.trans {a b c : σ × π} (h : Alone step a b) (h' : Alone step b c) :
    Alone step a c := Relation.ReflTransGen.trans h h'

theorem Alone.mono {step' : σ → π → σ → π → Prop}
    (hle : ∀ s p s' p', step s p s' p' → step' s p s' p') {a b : σ × π} (h : Alone step a b) :
    Alone step' a b := Relation.ReflTransGen.mono (fun _ _ h => hle _ _ _ _ h) _ _ h

theorem Reachable.mono {step' : σ → π → σ → π → Prop}
    (hle : ∀ s p s' p', step s p s' p' → step' s p s' p') (h : Reachable start step s₀ c) :
    Reachable start step' s₀ c := by
  induction h with
  | initial => exact .initial
  | step _ hmove ih =>
    cases hmove with
    | start hs => exact ih.step (.start hs)
    | run hs => exact ih.step (.run (hle _ _ _ _ hs))

/-- A thread may run alone. -/
theorem Reachable.alone {s s' : σ} {p p' : π} {ts us : List π}
    (h : Reachable start step s₀ ⟨s, ts ++ p :: us⟩) (hrun : Alone step (s, p) (s', p')) :
    Reachable start step s₀ ⟨s', ts ++ p' :: us⟩ := by
  have hall : ∀ b, Alone step (s, p) b → Reachable start step s₀ ⟨b.1, ts ++ b.2 :: us⟩ := by
    intro b hb
    induction hb with
    | refl => exact h
    | tail _ hlast ih => exact ih.step (.run hlast)
  exact hall (s', p') hrun

/-- The first thread may run alone. -/
theorem Reachable.alone_first {s s' : σ} {p p' : π} {us : List π}
    (h : Reachable start step s₀ ⟨s, p :: us⟩) (hrun : Alone step (s, p) (s', p')) :
    Reachable start step s₀ ⟨s', p' :: us⟩ :=
  Reachable.alone (show Reachable start step s₀ ⟨s, [] ++ p :: us⟩ from h) hrun

/-- The second thread may run alone. -/
theorem Reachable.alone_second {s s' : σ} {p p' q : π} {us : List π}
    (h : Reachable start step s₀ ⟨s, q :: p :: us⟩) (hrun : Alone step (s, p) (s', p')) :
    Reachable start step s₀ ⟨s', q :: p' :: us⟩ :=
  Reachable.alone (show Reachable start step s₀ ⟨s, [q] ++ p :: us⟩ from h) hrun

end Interleave
