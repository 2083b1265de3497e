import UsbVault.Lib.Run

/-!
# Concurrent calls

A service whose calls run side by side over one store. The world may act on
the store at any time and bring in a new call; a call executes its
statements one at a time, in any order with those of the others, and each
statement has an outcome the call does not choose.

Four rules. An invariant of the store and the calls together holds along
every run (`Service.preserves`). Assertions about the store and about the
single calls do when each step keeps those of the other calls (`Holds.run`).
A call that has reached a closed set of states stays in it
(`Service.stays`, `Service.countP_le_run`). Stores grow along a run as they do in one step
(`Service.grows`).

What a call does when no other interrupts it is followed statement by
statement (`Service.Reaches`).
-/

namespace Calls

variable {σ π ε ω : Type}

/-- What an event of the world does to the store, and the call that arrives
with it; what the next statement of the call of index `k` does, given its
outcome. -/
structure Service (σ π ε ω : Type) where
  world : σ → ε → σ × Option π
  exec : Nat → σ → π → ω → σ × π

/-- The store, and the calls made so far. -/
structure State (σ π : Type) where
  store : σ
  calls : List π

inductive Action (ε ω : Type) where
  | world (event : ε)
  | exec (call : Nat) (outcome : ω)
  deriving DecidableEq, Repr

namespace Service

/-- An action of a call that is not there does nothing. -/
def step (S : Service σ π ε ω) (s : State σ π) : Action ε ω → State σ π
  | .world event => ⟨(S.world s.store event).1, s.calls ++ (S.world s.store event).2.toList⟩
  | .exec k outcome =>
    match s.calls[k]? with
    | some p => ⟨(S.exec k s.store p outcome).1, s.calls.set k (S.exec k s.store p outcome).2⟩
    | none => s

def run (S : Service σ π ε ω) (s : State σ π) (actions : List (Action ε ω)) : State σ π :=
  actions.foldl S.step s

variable {S : Service σ π ε ω} {s : State σ π} {p : π} {k : Nat}

@[simp] theorem run_nil : S.run s [] = s := rfl

@[simp] theorem run_cons (a : Action ε ω) (as : List (Action ε ω)) :
    S.run s (a :: as) = S.run (S.step s a) as := rfl

theorem run_append (as bs : List (Action ε ω)) : S.run s (as ++ bs) = S.run (S.run s as) bs :=
  List.foldl_append

theorem step_exec (h : s.calls[k]? = some p) (o : ω) :
    S.step s (.exec k o) = ⟨(S.exec k s.store p o).1, s.calls.set k (S.exec k s.store p o).2⟩ := by
  simp only [step, h]

theorem step_exec_store (h : s.calls[k]? = some p) (o : ω) :
    (S.step s (.exec k o)).store = (S.exec k s.store p o).1 := by
  rw [step_exec h]

theorem step_exec_self (h : s.calls[k]? = some p) (o : ω) :
    (S.step s (.exec k o)).calls[k]? = some (S.exec k s.store p o).2 := by
  obtain ⟨hlt, -⟩ := List.getElem?_eq_some_iff.mp h
  rw [step_exec h]
  simp [hlt]

/-- A run that starts with a statement. -/
theorem run_exec {st st' : σ} {calls : List π} {p' : π} {o : ω} (h : calls[k]? = some p)
    (hexec : S.exec k st p o = (st', p')) (as : List (Action ε ω)) :
    S.run ⟨st, calls⟩ (.exec k o :: as) = S.run ⟨st', calls.set k p'⟩ as := by
  have hstep := @step_exec _ _ _ _ S ⟨st, calls⟩ p k h o
  rw [hexec] at hstep
  rw [run_cons, hstep]

theorem step_exec_none (h : s.calls[k]? = none) (o : ω) : S.step s (.exec k o) = s := by
  simp only [step, h]

theorem step_exec_ne {j : Nat} (h : j ≠ k) (o : ω) :
    (S.step s (.exec k o)).calls[j]? = s.calls[j]? := by
  rw [step]
  split
  · rw [List.getElem?_set_ne (Ne.symm h)]
  · rfl

/-- **After a step of a call**: its store, its own next state, and the other
calls as they were. -/
theorem after_exec {P : State σ π → Prop} (h : s.calls[k]? = some p) (o : ω)
    (hnext : ∀ next : State σ π, next.store = (S.exec k s.store p o).1 →
      next.calls[k]? = some (S.exec k s.store p o).2 →
      (∀ j, j ≠ k → next.calls[j]? = s.calls[j]?) → P next) : P (S.step s (.exec k o)) := by
  exact hnext _ (step_exec_store h o) (step_exec_self h o) fun j hj => step_exec_ne hj o

theorem step_world_of (h : s.calls[k]? = some p) (e : ε) :
    (S.step s (.world e)).calls[k]? = some p := by
  obtain ⟨hlt, -⟩ := List.getElem?_eq_some_iff.mp h
  rw [step, List.getElem?_append_left hlt, h]

/-- After an event, a call was there before, or arrives with it. -/
theorem of_step_world {e : ε} (h : (S.step s (.world e)).calls[k]? = some p) :
    s.calls[k]? = some p ∨ k = s.calls.length ∧ (S.world s.store e).2 = some p := by
  rw [step] at h
  by_cases hlt : k < s.calls.length
  · rw [List.getElem?_append_left hlt] at h
    exact .inl h
  · rw [List.getElem?_append_right (by omega)] at h
    right
    cases hcall : (S.world s.store e).2 with
    | none => simp [hcall] at h
    | some q =>
      rw [hcall, Option.toList_some] at h
      obtain ⟨hk, hp⟩ := List.getElem?_eq_some_iff.mp h
      simp only [List.length_singleton] at hk
      simp only [List.getElem_singleton] at hp
      exact ⟨by omega, by rw [hp]⟩

/-- **Counting calls** before and after a step of one of them. -/
theorem countP_exec (q : π → Bool) (h : s.calls[k]? = some p) (o : ω) :
    (S.step s (.exec k o)).calls.countP q + (if q p then 1 else 0)
      = s.calls.countP q + (if q (S.exec k s.store p o).2 then 1 else 0) := by
  obtain ⟨hlt, hget⟩ := List.getElem?_eq_some_iff.mp h
  rw [step_exec h, List.countP_set hlt, hget]
  have hcounted : (if q p then 1 else 0) ≤ s.calls.countP q := by
    split
    · rename_i hq
      exact List.countP_pos_iff.mpr ⟨p, List.mem_of_getElem? h, hq⟩
    · exact Nat.zero_le _
  omega

/-- What the world and every call in progress keep, every action keeps: an
answer for a call that is not there changes nothing. -/
theorem keeps {ok : State σ π → Action ε ω → Prop} {Inv : State σ π → Prop}
    (hworld : ∀ s e, Inv s → ok s (.world e) → Inv (S.step s (.world e)))
    (hexec : ∀ s k p o, Inv s → ok s (.exec k o) → s.calls[k]? = some p →
      Inv (S.step s (.exec k o)))
    (s : State σ π) (a : Action ε ω) (h : Inv s) (hok : ok s a) : Inv (S.step s a) := by
  cases a with
  | world e => exact hworld s e h hok
  | exec k o =>
    cases hk : s.calls[k]? with
    | none =>
      rw [step_exec_none hk]
      exact h
    | some p => exact hexec s k p o h hok hk

/-- **An invariant of the store and the calls together** holds along every
run whose actions meet the condition. -/
theorem preserves {ok : State σ π → Action ε ω → Prop} {Inv : State σ π → Prop}
    (hworld : ∀ s e, Inv s → ok s (.world e) → Inv (S.step s (.world e)))
    (hexec : ∀ s k p o, Inv s → ok s (.exec k o) → s.calls[k]? = some p →
      Inv (S.step s (.exec k o)))
    {as : List (Action ε ω)} (hrun : Run.Each S.step ok s as) (h : Inv s) : Inv (S.run s as) :=
  hrun.preserves (fun s a hok hs => keeps hworld hexec s a hs hok) h

/-! ## One call over a run -/

/-- One action leaves a call where it is, or executes its next statement. -/
theorem step_call (h : s.calls[k]? = some p) (a : Action ε ω) :
    (S.step s a).calls[k]? = some p
      ∨ ∃ o, a = .exec k o ∧ (S.step s a).calls[k]? = some (S.exec k s.store p o).2 := by
  cases a with
  | world event => exact .inl (step_world_of h event)
  | exec j o =>
    by_cases hj : k = j
    · subst hj
      exact .inr ⟨o, rfl, step_exec_self h o⟩
    · left
      rw [step_exec_ne hj]
      exact h

/-- **A closed set of states of a call** is not left again. -/
theorem stays {Done : π → Prop} (hdone : ∀ st q o, Done q → Done (S.exec k st q o).2)
    (as : List (Action ε ω)) : ∀ {s : State σ π} {p : π}, s.calls[k]? = some p → Done p →
      ∃ q, (S.run s as).calls[k]? = some q ∧ Done q := by
  induction as with
  | nil => intro s p h hp; exact ⟨p, h, hp⟩
  | cons a as ih =>
    intro s p h hp
    rw [run_cons]
    rcases step_call h a with hsame | ⟨o, -, hnext⟩
    · exact ih hsame hp
    · exact ih hnext (hdone s.store p o hp)

/-- **So the calls in it** become no fewer along a run. -/
theorem countP_le_run {q : π → Bool}
    (hdone : ∀ k st p o, q p = true → q (S.exec k st p o).2 = true) (as : List (Action ε ω)) :
    ∀ s : State σ π, s.calls.countP q ≤ (S.run s as).calls.countP q := by
  induction as with
  | nil => intro s; exact Nat.le_refl _
  | cons a as ih =>
    intro s
    rw [run_cons]
    refine Nat.le_trans ?_ (ih (S.step s a))
    cases a with
    | world event =>
      rw [step, List.countP_append]
      exact Nat.le_add_right _ _
    | exec k o =>
      cases hk : s.calls[k]? with
      | none => exact Nat.le_of_eq (by rw [step_exec_none hk])
      | some p =>
        have hcount := @countP_exec _ _ _ _ S s p k q hk o
        by_cases hp : q p = true
        · rw [if_pos hp, if_pos (hdone k s.store p o hp)] at hcount
          omega
        · rw [if_neg hp] at hcount
          omega

/-! ## The store over a run -/

/-- **What holds between the stores before and after one step** holds
between the stores of a run, for a reflexive and transitive relation. -/
theorem grows {R : σ → σ → Prop} (hrefl : ∀ st, R st st)
    (htrans : ∀ {a b c}, R a b → R b c → R a c)
    (hworld : ∀ st e, R st (S.world st e).1) (hexec : ∀ k st q o, R st (S.exec k st q o).1)
    (as : List (Action ε ω)) : ∀ s : State σ π, R s.store (S.run s as).store := by
  induction as with
  | nil => intro s; exact hrefl s.store
  | cons a as ih =>
    intro s
    rw [run_cons]
    refine htrans ?_ (ih (S.step s a))
    cases a with
    | world event => exact hworld s.store event
    | exec k o =>
      rw [step]
      split
      · exact hexec k s.store _ o
      · exact hrefl s.store

/-! ## Calls in turn -/

/-- Calls that arrive one after the other. -/
theorem run_arrive {st : σ} {e : ε} (h : S.world st e = (st, some p)) (n : Nat) :
    ∀ calls : List π, S.run ⟨st, calls⟩ (List.replicate n (.world e))
      = ⟨st, calls ++ List.replicate n p⟩ := by
  induction n with
  | zero =>
    intro calls
    rw [List.replicate_zero, List.replicate_zero, List.append_nil]
    rfl
  | succ n ih =>
    intro calls
    have hstep : S.step ⟨st, calls⟩ (.world e) = ⟨st, calls ++ [p]⟩ := by
      simp only [step, h, Option.toList_some]
    rw [List.replicate_succ, run_cons, hstep, ih, List.append_assoc, List.singleton_append,
      List.replicate_succ]

/-- Calls in one state take the same turn, one after the other, each from the
store that the one before it leaves. -/
theorem run_in_turn {n : Nat} {stores : Nat → σ} {turn : Nat → List (Action ε ω)} {after : Nat → π}
    (h : ∀ m, m < n → ∀ calls : List π, calls[m]? = some p →
      S.run ⟨stores m, calls⟩ (turn m) = ⟨stores (m + 1), calls.set m (after m)⟩) :
    ∀ m, m ≤ n → S.run ⟨stores 0, List.replicate n p⟩ ((List.range m).flatMap turn)
      = ⟨stores m, (List.range m).map after ++ List.replicate (n - m) p⟩ := by
  intro m
  induction m with
  | zero => intro _; rfl
  | succ m ih =>
    intro hm
    have hrest : List.replicate (n - m) p = p :: List.replicate (n - (m + 1)) p := by
      rw [← List.replicate_succ]
      congr 1
      omega
    have hlength : ((List.range m).map after).length = m := by
      rw [List.length_map, List.length_range]
    have hcall : ((List.range m).map after ++ List.replicate (n - m) p)[m]? = some p := by
      rw [List.getElem?_append_right (Nat.le_of_eq hlength), hlength, Nat.sub_self, hrest]
      rfl
    rw [List.range_succ, List.flatMap_append, run_append, ih (Nat.le_of_succ_le hm),
      List.flatMap_singleton, h m hm _ hcall,
      List.set_append_right _ _ (Nat.le_of_eq hlength), hlength, Nat.sub_self, hrest,
      List.map_append, List.append_assoc]
    rfl

/-! ## A call that no other interrupts -/

/-- The call of index `k` executes statements from one store and state of its
own to another, with the same outcome for all of them. -/
inductive Reaches (S : Service σ π ε ω) (k : Nat) (o : ω) : σ → π → σ → π → Prop
  | refl (st : σ) (p : π) : Reaches S k o st p st p
  | step {st : σ} {p : π} {st' : σ} {p' : π}
      (h : Reaches S k o (S.exec k st p o).1 (S.exec k st p o).2 st' p') : Reaches S k o st p st' p'

namespace Reaches

variable {o : ω} {st st' st'' : σ} {p' p'' : π}

theorem of_exec (hexec : S.exec k st p o = (st', p')) (h : Reaches S k o st' p' st'' p'') :
    Reaches S k o st p st'' p'' := by
  refine .step ?_
  rw [hexec]
  exact h

theorem exec_eq (hexec : S.exec k st p o = (st', p')) : Reaches S k o st p st' p' :=
  of_exec hexec (.refl st' p')

/-- The run in which the call alone acts. -/
theorem run (h : Reaches S k o st p st' p') : ∀ {s : State σ π}, s.store = st →
    s.calls[k]? = some p →
    ∃ n, S.run s (List.replicate n (.exec k o)) = ⟨st', s.calls.set k p'⟩ := by
  induction h with
  | refl st p =>
    rintro ⟨st, calls⟩ rfl hk
    obtain ⟨hlt, rfl⟩ := List.getElem?_eq_some_iff.mp hk
    exact ⟨0, by rw [List.set_getElem_self]; rfl⟩
  | @step st p st' p' _ ih =>
    rintro ⟨st, calls⟩ rfl hk
    have hstep : S.step ⟨st, calls⟩ (.exec k o) = _ := step_exec hk o
    have hstore : (S.step ⟨st, calls⟩ (.exec k o)).store = (S.exec k st p o).1 := by rw [hstep]
    obtain ⟨n, hn⟩ := ih hstore (step_exec_self hk o)
    refine ⟨n + 1, ?_⟩
    rw [List.replicate_succ, run_cons, hn, hstep, List.set_set]

end Reaches

end Service

/-! ## Assertions -/

/-- The store's assertion, and one about each call by its index. -/
structure Holds (Global : σ → Prop) (Local : σ → Nat → π → Prop) (s : State σ π) : Prop where
  store : Global s.store
  call : ∀ k p, s.calls[k]? = some p → Local s.store k p

variable {S : Service σ π ε ω} {s : State σ π}
variable {Global : σ → Prop} {Local : σ → Nat → π → Prop}
variable {ok : State σ π → Action ε ω → Prop}

theorem Holds.initial {st : σ} (h : Global st) : Holds Global Local ⟨st, []⟩ :=
  ⟨h, fun k p hk => by simp at hk⟩

/-- **One step** that keeps the assertions of the other calls. -/
theorem Holds.step
    (hworld : ∀ s e, Holds Global Local s → ok s (.world e) →
      Global (S.world s.store e).1
        ∧ (∀ k p, s.calls[k]? = some p → Local s.store k p → Local (S.world s.store e).1 k p)
        ∧ ∀ p, (S.world s.store e).2 = some p → Local (S.world s.store e).1 s.calls.length p)
    (hexec : ∀ s k p o, Holds Global Local s → ok s (.exec k o) → s.calls[k]? = some p →
      Global (S.exec k s.store p o).1
        ∧ Local (S.exec k s.store p o).1 k (S.exec k s.store p o).2
        ∧ ∀ j q, j ≠ k → s.calls[j]? = some q → Local s.store j q →
            Local (S.exec k s.store p o).1 j q)
    (s : State σ π) (a : Action ε ω) (hok : ok s a) (h : Holds Global Local s) :
    Holds Global Local (S.step s a) := by
  cases a with
  | world e =>
    obtain ⟨hglobal, hold, hnew⟩ := hworld s e h hok
    refine ⟨hglobal, ?_⟩
    intro k p hk
    rcases Service.of_step_world hk with hbefore | ⟨rfl, hcall⟩
    · exact hold k p hbefore (h.call k p hbefore)
    · exact hnew p hcall
  | exec k o =>
    cases hk : s.calls[k]? with
    | none =>
      rw [Service.step_exec_none hk]
      exact h
    | some p =>
      obtain ⟨hglobal, hself, hothers⟩ := hexec s k p o h hok hk
      have hstore : (S.step s (.exec k o)).store = (S.exec k s.store p o).1 := by
        rw [Service.step_exec hk]
      refine ⟨by rw [hstore]; exact hglobal, ?_⟩
      intro j q hj
      rw [hstore]
      by_cases hjk : j = k
      · subst hjk
        rw [Service.step_exec_self hk] at hj
        obtain rfl := Option.some.inj hj
        exact hself
      · rw [Service.step_exec_ne hjk] at hj
        exact hothers j q hjk hj (h.call j q hj)

/-- **Every run** whose actions meet the condition. -/
theorem Holds.run
    (hworld : ∀ s e, Holds Global Local s → ok s (.world e) →
      Global (S.world s.store e).1
        ∧ (∀ k p, s.calls[k]? = some p → Local s.store k p → Local (S.world s.store e).1 k p)
        ∧ ∀ p, (S.world s.store e).2 = some p → Local (S.world s.store e).1 s.calls.length p)
    (hexec : ∀ s k p o, Holds Global Local s → ok s (.exec k o) → s.calls[k]? = some p →
      Global (S.exec k s.store p o).1
        ∧ Local (S.exec k s.store p o).1 k (S.exec k s.store p o).2
        ∧ ∀ j q, j ≠ k → s.calls[j]? = some q → Local s.store j q →
            Local (S.exec k s.store p o).1 j q)
    {as : List (Action ε ω)} (hrun : Run.Each S.step ok s as) (h : Holds Global Local s) :
    Holds Global Local (S.run s as) :=
  hrun.preserves (Holds.step hworld hexec) h

/-- No condition on the actions. -/
theorem each_of_free (hfree : ∀ s a, ok s a) (as : List (Action ε ω)) :
    ∀ s : State σ π, Run.Each S.step ok s as := by
  induction as with
  | nil => intro s; trivial
  | cons a as ih => intro s; exact ⟨hfree s a, ih (S.step s a)⟩

end Calls
