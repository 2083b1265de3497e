import Mathlib.Logic.Relation

/-!
# Effect

Programs that wait for the outcome of each effect they issue, as an
`async` function waits at each `await`. A program is a tree: it is done,
with a result or an error, or it has issued an operation and goes on
from the operation's outcome. What an operation may do to the world is a
relation `E`, so an effect may fail and may leave the world half
changed.

* `Runs E p s r s'`: some run of `p` from `s` ends with `r` in `s'`;
* `Step E`: one operation takes effect and the program resumes;
* `Wp E I Q p s`: every run of `p` from `s` keeps `I` at every step and
  ends in `Q`.
-/

namespace Effect

/-- A program issuing operations of `Op`, each answered by an outcome. -/
inductive Prog (Op : Type) (Ret : Op → Type) (ε α : Type) where
  | done (r : Except ε α)
  | await (o : Op) (k : Except ε (Ret o) → Prog Op Ret ε α)

variable {Op : Type} {Ret : Op → Type} {ε α β σ : Type}

namespace Prog

/-- `p`, then the program its settled result leads to (`then(f, f)`). -/
def andThen : Prog Op Ret ε α → (Except ε α → Prog Op Ret ε β) →
    Prog Op Ret ε β
  | done r, f => f r
  | await o k, f => await o fun x => (k x).andThen f

/-- Sequencing: a thrown error skips what follows. -/
def bind (p : Prog Op Ret ε α) (f : α → Prog Op Ret ε β) : Prog Op Ret ε β :=
  p.andThen fun
    | .ok a => f a
    | .error e => done (.error e)

instance : Monad (Prog Op Ret ε) where
  pure a := done (.ok a)
  bind := bind

/-- `throw e` -/
def fail (e : ε) : Prog Op Ret ε α := done (.error e)

/-- `await o` -/
def perform (o : Op) : Prog Op Ret ε (Ret o) := await o done

/-- `try { p } finally { fin }`: an error of the clean-up replaces the
result. -/
def ensuring (p : Prog Op Ret ε α) (fin : Prog Op Ret ε Unit) :
    Prog Op Ret ε α :=
  p.andThen fun r => fin.bind fun _ => done r

/-- `try { p } catch { h }` -/
def orElse (p : Prog Op Ret ε α) (h : Prog Op Ret ε α) : Prog Op Ret ε α :=
  p.andThen fun
    | .ok a => done (.ok a)
    | .error _ => h

@[simp] theorem pure_eq (a : α) : (pure a : Prog Op Ret ε α) = done (.ok a) := rfl

@[simp] theorem bind_eq (p : Prog Op Ret ε α) (f : α → Prog Op Ret ε β) :
    (p >>= f) = p.bind f := rfl

end Prog

open Prog

variable (E : (o : Op) → σ → Except ε (Ret o) → σ → Prop)

/-! ## Runs -/

/-- Some run of the program ends with this outcome in this state. -/
inductive Runs : Prog Op Ret ε α → σ → Except ε α → σ → Prop
  | done (r : Except ε α) (s : σ) : Runs (done r) s r s
  | await {o : Op} {k : Except ε (Ret o) → Prog Op Ret ε α} {s t s' : σ}
      {x : Except ε (Ret o)} {r : Except ε α} (heff : E o s x t)
      (hrest : Runs (k x) t r s') : Runs (await o k) s r s'

/-- One operation takes effect and the program resumes. -/
inductive Step : Prog Op Ret ε α → σ → Prog Op Ret ε α → σ → Prop
  | await {o : Op} {k : Except ε (Ret o) → Prog Op Ret ε α} {s s' : σ}
      {x : Except ε (Ret o)} (heff : E o s x s') :
      Step (await o k) s (k x) s'

/-- Some number of operations have taken effect. -/
inductive Steps : Prog Op Ret ε α → σ → Prog Op Ret ε α → σ → Prop
  | refl (p : Prog Op Ret ε α) (s : σ) : Steps p s p s
  | tail {p p' p'' : Prog Op Ret ε α} {s s' s'' : σ} (h : Steps p s p' s')
      (hstep : Step E p' s' p'' s'') : Steps p s p'' s''

variable {E}

theorem Steps.runs {p p' : Prog Op Ret ε α} {s t s' : σ} {r : Except ε α}
    (h : Steps E p s p' t) (hrest : Runs E p' t r s') : Runs E p s r s' := by
  induction h with
  | refl => exact hrest
  | tail _ hstep ih =>
    cases hstep with
    | await heff => exact ih (.await heff hrest)

theorem Runs.andThen {p : Prog Op Ret ε α} {f : Except ε α → Prog Op Ret ε β}
    {s t s' : σ} {x : Except ε α} {r : Except ε β} (hp : Runs E p s x t)
    (hf : Runs E (f x) t r s') : Runs E (p.andThen f) s r s' := by
  induction hp with
  | done x s => exact hf
  | await heff _ ih => exact .await heff (ih hf)

theorem Runs.bind {p : Prog Op Ret ε α} {f : α → Prog Op Ret ε β} {s t s' : σ}
    {a : α} {r : Except ε β} (hp : Runs E p s (.ok a) t)
    (hf : Runs E (f a) t r s') : Runs E (p.bind f) s r s' :=
  hp.andThen hf

theorem Runs.perform {o : Op} {s s' : σ} {x : Except ε (Ret o)}
    (heff : E o s x s') : Runs E (perform o) s x s' :=
  .await heff (.done x s')

theorem Runs.ensuring {p : Prog Op Ret ε α} {fin : Prog Op Ret ε Unit}
    {s t s' : σ} {r : Except ε α} (hp : Runs E p s r t)
    (hfin : Runs E fin t (.ok ()) s') : Runs E (p.ensuring fin) s r s' :=
  hp.andThen (hfin.bind (.done r s'))

/-! ## Every run -/

variable (E)

/-- From `s`, every state the program passes through satisfies `I` and
every end satisfies `Q`. -/
def Wp (I : σ → Prop) (Q : Except ε α → σ → Prop) :
    Prog Op Ret ε α → σ → Prop
  | .done r, s => I s ∧ Q r s
  | .await o k, s => I s ∧ ∀ x s', E o s x s' → Wp I Q (k x) s'

variable {E} {I : σ → Prop}

theorem Wp.inv {Q : Except ε α → σ → Prop} {p : Prog Op Ret ε α} {s : σ}
    (h : Wp E I Q p s) : I s := by
  cases p with
  | done r => exact h.1
  | await o k => exact h.1

/-- The obligation moves along one step. -/
theorem Wp.step {Q : Except ε α → σ → Prop} {p p' : Prog Op Ret ε α} {s s' : σ}
    (h : Wp E I Q p s) (hstep : Step E p s p' s') : Wp E I Q p' s' := by
  cases hstep with
  | await heff => exact h.2 _ _ heff

theorem Wp.steps {Q : Except ε α → σ → Prop} {p p' : Prog Op Ret ε α} {s s' : σ}
    (h : Wp E I Q p s) (hsteps : Steps E p s p' s') : Wp E I Q p' s' := by
  induction hsteps with
  | refl => exact h
  | tail _ hstep ih => exact (ih h).step hstep

/-- Every run ends in the postcondition. -/
theorem Wp.runs {Q : Except ε α → σ → Prop} {p : Prog Op Ret ε α} {s s' : σ}
    {r : Except ε α} (h : Wp E I Q p s) (hrun : Runs E p s r s') : Q r s' := by
  induction hrun with
  | done r s => exact h.2
  | await heff _ ih => exact ih (h.2 _ _ heff)

theorem Wp.runs_inv {Q : Except ε α → σ → Prop} {p : Prog Op Ret ε α} {s s' : σ}
    {r : Except ε α} (h : Wp E I Q p s) (hrun : Runs E p s r s') : I s' := by
  induction hrun with
  | done r s => exact h.1
  | await heff _ ih => exact ih (h.2 _ _ heff)

theorem Wp.mono {Q Q' : Except ε α → σ → Prop} {p : Prog Op Ret ε α} {s : σ}
    (h : Wp E I Q p s) (hQ : ∀ r s, I s → Q r s → Q' r s) : Wp E I Q' p s := by
  induction p generalizing s with
  | done r => exact ⟨h.1, hQ r s h.1 h.2⟩
  | await o k ih => exact ⟨h.1, fun x s' heff => ih x (h.2 x s' heff)⟩

theorem wp_andThen {Q : Except ε β → σ → Prop} {p : Prog Op Ret ε α}
    {f : Except ε α → Prog Op Ret ε β} {s : σ}
    (h : Wp E I (fun r s => Wp E I Q (f r) s) p s) :
    Wp E I Q (p.andThen f) s := by
  induction p generalizing s with
  | done r => exact h.2
  | await o k ih => exact ⟨h.1, fun x s' heff => ih x (h.2 x s' heff)⟩

theorem Wp.weaken {I' : σ → Prop} {Q : Except ε α → σ → Prop}
    {p : Prog Op Ret ε α} {s : σ} (h : Wp E I Q p s) (hI : ∀ s, I s → I' s) :
    Wp E I' (fun r s => I s ∧ Q r s) p s := by
  induction p generalizing s with
  | done r => exact ⟨hI s h.1, h⟩
  | await o k ih => exact ⟨hI s h.1, fun x s' heff => ih x (h.2 x s' heff)⟩

/-! ## Every successful run -/

variable (E I)

/-- From `s`, every state satisfies `I` and every result, when the
program returns one, satisfies `Q`. -/
def Returns (Q : α → σ → Prop) (p : Prog Op Ret ε α) (s : σ) : Prop :=
  Wp E I (fun r s => ∀ a, r = .ok a → Q a s) p s

variable {E I}

theorem Returns.runs {Q : α → σ → Prop} {p : Prog Op Ret ε α} {s s' : σ} {a : α}
    (h : Returns E I Q p s) (hrun : Runs E p s (.ok a) s') : Q a s' :=
  Wp.runs h hrun a rfl

theorem Returns.runs_inv {Q : α → σ → Prop} {p : Prog Op Ret ε α} {s s' : σ}
    {r : Except ε α} (h : Returns E I Q p s) (hrun : Runs E p s r s') : I s' :=
  Wp.runs_inv h hrun

theorem Returns.mono {Q Q' : α → σ → Prop} {p : Prog Op Ret ε α} {s : σ}
    (h : Returns E I Q p s) (hQ : ∀ a s, I s → Q a s → Q' a s) :
    Returns E I Q' p s :=
  Wp.mono h fun _ s hs hq a hr => hQ a s hs (hq a hr)

theorem Returns.weaken {I' : σ → Prop} {Q : α → σ → Prop} {p : Prog Op Ret ε α}
    {s : σ} (h : Returns E I Q p s) (hI : ∀ s, I s → I' s) :
    Returns E I' (fun a s => I s ∧ Q a s) p s :=
  (Wp.weaken h hI).mono fun _ _ _ hq a hr => ⟨hq.1, hq.2 a hr⟩

theorem returns_done {Q : α → σ → Prop} {a : α} {s : σ} (hs : I s) (h : Q a s) :
    Returns E I Q (done (.ok a) : Prog Op Ret ε α) s := by
  refine ⟨hs, fun b hb => ?_⟩
  cases hb
  exact h

theorem returns_fail {Q : α → σ → Prop} (e : ε) {s : σ} (hs : I s) :
    Returns E I Q (fail e : Prog Op Ret ε α) s :=
  ⟨hs, fun _ ha => by cases ha⟩

theorem returns_perform {o : Op} {Q : Ret o → σ → Prop} {s : σ} (hs : I s)
    (hinv : ∀ x s', E o s x s' → I s') (hok : ∀ a s', E o s (.ok a) s' → Q a s') :
    Returns E I Q (perform o : Prog Op Ret ε (Ret o)) s :=
  ⟨hs, fun x s' heff => ⟨hinv x s' heff, fun a ha => hok a s' (ha ▸ heff)⟩⟩

/-- Sequencing: the second program from every good end of the first. -/
theorem returns_bind {M : α → σ → Prop} {Q : β → σ → Prop} {p : Prog Op Ret ε α}
    {f : α → Prog Op Ret ε β} {s : σ} (hp : Returns E I M p s)
    (hf : ∀ a s, I s → M a s → Returns E I Q (f a) s) :
    Returns E I Q (p.bind f) s := by
  apply wp_andThen
  refine Wp.mono hp fun r t ht hr => ?_
  cases r with
  | ok a => exact hf a t ht (hr a rfl)
  | error e => exact returns_fail e ht

/-- The clean-up runs from every end of the program. -/
theorem returns_ensuring {Q : α → σ → Prop} {p : Prog Op Ret ε α}
    {fin : Prog Op Ret ε Unit} {s : σ} (hp : Returns E I Q p s)
    (hbad : ∀ t, I t → Returns E I (fun _ _ => True) fin t)
    (hgood : ∀ a t, I t → Q a t → Returns E I (fun _ t' => Q a t') fin t) :
    Returns E I Q (p.ensuring fin) s := by
  apply wp_andThen
  refine Wp.mono hp fun r t ht hr => ?_
  cases r with
  | ok a =>
    have hrest : Returns E I Q (fin.bind fun _ => done (.ok a)) t :=
      returns_bind (hgood a t ht (hr a rfl)) fun _ t' ht' hq => returns_done ht' hq
    exact hrest
  | error e =>
    have hrest : Returns E I Q (fin.bind fun _ => fail e) t :=
      returns_bind (hbad t ht) fun _ t' ht' _ => returns_fail e ht'
    exact hrest

theorem returns_orElse {Q : α → σ → Prop} {p h : Prog Op Ret ε α} {s : σ}
    (hp : Returns E I Q p s) (hh : ∀ t, I t → Returns E I Q h t) :
    Returns E I Q (p.orElse h) s := by
  apply wp_andThen
  refine Wp.mono hp fun r t ht hr => ?_
  cases r with
  | ok a => exact returns_done ht (hr a rfl)
  | error e => exact hh t ht

/-! ## Programs that can succeed -/

variable (E I)

/-- Every successful run satisfies `Q`, and there is one. -/
def Completes (Q : α → σ → Prop) (p : Prog Op Ret ε α) (s : σ) : Prop :=
  Returns E I Q p s ∧ ∃ a s', Runs E p s (.ok a) s'

variable {E I}

theorem completes_done {Q : α → σ → Prop} {a : α} {s : σ} (hs : I s) (h : Q a s) :
    Completes E I Q (done (.ok a) : Prog Op Ret ε α) s :=
  ⟨returns_done hs h, a, s, .done _ s⟩

theorem completes_bind {M : α → σ → Prop} {Q : β → σ → Prop} {p : Prog Op Ret ε α}
    {f : α → Prog Op Ret ε β} {s : σ} (hp : Completes E I M p s)
    (hf : ∀ a s, I s → M a s → Completes E I Q (f a) s) :
    Completes E I Q (p.bind f) s := by
  obtain ⟨hret, a, t, hrun⟩ := hp
  obtain ⟨-, b, s', hrest⟩ := hf a t (Wp.runs_inv hret hrun) (hret.runs hrun)
  exact ⟨returns_bind hret fun a s hs hq => (hf a s hs hq).1, b, s', hrun.bind hrest⟩

theorem completes_ensuring {Q : α → σ → Prop} {p : Prog Op Ret ε α}
    {fin : Prog Op Ret ε Unit} {s : σ} (hp : Completes E I Q p s)
    (hbad : ∀ t, I t → Returns E I (fun _ _ => True) fin t)
    (hgood : ∀ a t, I t → Q a t → Completes E I (fun _ t' => Q a t') fin t) :
    Completes E I Q (p.ensuring fin) s := by
  obtain ⟨hret, a, t, hrun⟩ := hp
  obtain ⟨-, u, s', hfin⟩ := hgood a t (Wp.runs_inv hret hrun) (hret.runs hrun)
  exact ⟨returns_ensuring hret hbad fun a t ht hq => (hgood a t ht hq).1, a, s',
    hrun.ensuring hfin⟩

end Effect
