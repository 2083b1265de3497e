import UsbVault.Lib.Calls
import UsbVault.Lib.Expiring

/-!
# One-time keys

Calls that fetch an expiring key by one command and delete it by another.
Two of them may fetch it before either deletes it. Where no call fetches a
key that another has fetched and is about to delete, and deletions are
executed, no key is found by two calls (`View.found_once`).
-/

namespace OneTime

open Calls Expiring

variable {σ π ε ω κ ν : Type}

/-- Where a service keeps its one-time keys: the keys and the clock; the keys
that were ever issued, and which call has found which (history); the key a
call is about to fetch, and the one it has fetched and is about to delete;
whether a command is executed. -/
structure View (σ π ω κ ν : Type) where
  keys : σ → Keys κ ν
  clock : σ → Nat
  issued : σ → κ → Prop
  found : σ → List (κ × Nat)
  fetching : π → Option κ
  deleting : π → Option κ
  executed : ω → Bool

namespace View

variable (V : View σ π ω κ ν)

def get (s : σ) (key : κ) : Option ν := (V.keys s).get (V.clock s) key

/-- No key is found. New keys are fresh, and a key that is gone stays so. -/
structure Idle (s s' : σ) : Prop where
  found : V.found s' = V.found s
  issued : ∀ key, V.issued s key → V.issued s' key
  stored : ∀ key, (V.keys s').Marked key → (V.keys s).Marked key ∨ V.issued s' key
  gone : ∀ key, V.issued s key → V.get s key = none → V.get s' key = none

/-- A key is found, and nothing else happens to the keys. -/
structure Finds (key : κ) (k : Nat) (s s' : σ) : Prop where
  found : V.found s' = V.found s ++ [(key, k)]
  issued : V.issued s' = V.issued s
  keys : V.keys s' = V.keys s
  clock : V.clock s' = V.clock s

/-- What a step of a call has to do with the keys: it fetches one that is
there, or finds none; a key that it has fetched is still to be deleted, or
its deletion was tried. -/
inductive Step (k : Nat) (s : σ) (p : π) (o : ω) (s' : σ) (p' : π) : Prop where
  | finds (key : κ) (hfetching : V.fetching p = some key) (hidle : V.deleting p = none)
      (hexecuted : V.executed o = true) (hthere : (V.get s key).isSome)
      (hdeleting : V.deleting p' = some key) (h : V.Finds key k s s')
  | idle (h : V.Idle s s')
      (hdeleting : ∀ key, V.deleting p = some key →
        V.deleting p' = some key ∨ (V.executed o = true → V.get s' key = none))

/-- A key is fetched while no other call is about to delete it, and its
deletion is executed. -/
def FetchedAlone (s : State σ π) : Action ε ω → Prop
  | .world _ => True
  | .exec k o =>
    ∀ p ∈ s.calls[k]?,
      (∀ key ∈ V.fetching p, V.executed o = true → (V.get s.store key).isSome →
        ∀ p' ∈ s.calls, V.deleting p' ≠ some key)
      ∧ ∀ key ∈ V.deleting p, (V.get s.store key).isSome → V.executed o = true

instance [DecidableEq κ] (s : State σ π) (a : Action ε ω) : Decidable (V.FetchedAlone s a) :=
  match a with
  | .world _ => isTrue trivial
  | .exec k _ =>
    inferInstanceAs (Decidable (∀ p ∈ s.calls[k]?,
      (∀ key ∈ V.fetching p, _ → _ → ∀ p' ∈ s.calls, _) ∧ ∀ key ∈ V.deleting p, _ → _))

/-- No key has been found by two calls. -/
def FoundOnce (s : σ) : Prop := ∀ key k k', (key, k) ∈ V.found s → (key, k') ∈ V.found s → k = k'

/-- A key that was found is gone, or about to be deleted by the call that
found it. -/
structure Sound (s : State σ π) : Prop where
  stored : ∀ key, (V.keys s.store).Marked key → V.issued s.store key
  issued : ∀ key k, (key, k) ∈ V.found s.store → V.issued s.store key
  gone : ∀ key k, (key, k) ∈ V.found s.store → V.get s.store key = none
    ∨ ∃ p, s.calls[k]? = some p ∧ V.deleting p = some key
  once : V.FoundOnce s.store

variable {V} {S : Service σ π ε ω} {s next : State σ π} {p p' : π} {k : Nat} {o : ω} {key : κ}

/-- A step that finds no key. -/
theorem Sound.idle (h : V.Sound s) (hidle : V.Idle s.store next.store)
    (hcalls : ∀ key k p, (key, k) ∈ V.found s.store → s.calls[k]? = some p →
      V.deleting p = some key → V.get next.store key = none
        ∨ ∃ p', next.calls[k]? = some p' ∧ V.deleting p' = some key) : V.Sound next := by
  refine ⟨?_, ?_, ?_, ?_⟩
  · intro key hmarked
    rcases hidle.stored key hmarked with hold | hissued
    · exact hidle.issued key (h.stored key hold)
    · exact hissued
  · intro key k hmem
    rw [hidle.found] at hmem
    exact hidle.issued key (h.issued key k hmem)
  · intro key k hmem
    rw [hidle.found] at hmem
    rcases h.gone key k hmem with hnone | ⟨p, hk, hdeleting⟩
    · exact .inl (hidle.gone key (h.issued key k hmem) hnone)
    · exact hcalls key k p hmem hk hdeleting
  · intro key k k' hmem hmem'
    rw [hidle.found] at hmem hmem'
    exact h.once key k k' hmem hmem'

/-- A step that finds a key: it is there, and no call is about to delete it. -/
theorem Sound.finds (h : V.Sound s) (hfinds : V.Finds key k s.store next.store)
    (hthere : (V.get s.store key).isSome) (halone : ∀ p ∈ s.calls, V.deleting p ≠ some key)
    (hself : next.calls[k]? = some p') (hdeleting : V.deleting p' = some key)
    (hothers : ∀ key (j : Nat) p, s.calls[j]? = some p → V.deleting p = some key →
      ∃ p', next.calls[j]? = some p' ∧ V.deleting p' = some key) : V.Sound next := by
  -- no call has found it: it would be gone, or another would be deleting it
  have hnew : ∀ j, (key, j) ∉ V.found s.store := by
    intro j hmem
    rcases h.gone key j hmem with hnone | ⟨p, hp, hd⟩
    · rw [hnone] at hthere
      cases hthere
    · exact halone p (List.mem_of_getElem? hp) hd
  have hmem : ∀ key' j, (key', j) ∈ V.found next.store →
      (key', j) ∈ V.found s.store ∨ key' = key ∧ j = k := by
    intro key' j hmem
    rw [hfinds.found] at hmem
    simpa using hmem
  have hget : ∀ key', V.get next.store key' = V.get s.store key' := by
    intro key'
    rw [View.get, View.get, hfinds.keys, hfinds.clock]
  have hissued : V.issued s.store key := by
    obtain ⟨v, hv⟩ := Option.isSome_iff_exists.mp hthere
    exact h.stored key (Keys.Marked.of_get hv)
  refine ⟨?_, ?_, ?_, ?_⟩
  · rw [hfinds.keys, hfinds.issued]
    exact h.stored
  · intro key' j hj
    rw [hfinds.issued]
    rcases hmem key' j hj with hold | ⟨rfl, -⟩
    · exact h.issued key' j hold
    · exact hissued
  · intro key' j hj
    rw [hget]
    rcases hmem key' j hj with hold | ⟨rfl, rfl⟩
    · exact (h.gone key' j hold).imp_right fun ⟨p, hp, hd⟩ => hothers key' j p hp hd
    · exact .inr ⟨p', hself, hdeleting⟩
  · intro key' j j' hj hj'
    rcases hmem key' j hj with hold | ⟨rfl, rfl⟩
    · rcases hmem key' j' hj' with hold' | ⟨rfl, -⟩
      · exact h.once key' j j' hold hold'
      · exact absurd hold (hnew j)
    · rcases hmem _ j' hj' with hold' | ⟨-, rfl⟩
      · exact absurd hold' (hnew j')
      · rfl

/-- **A step of a call** that fetches alone. -/
theorem Sound.exec (h : V.Sound s) (hk : s.calls[k]? = some p)
    (hstep : V.Step k s.store p o (S.exec k s.store p o).1 (S.exec k s.store p o).2)
    (hok : V.FetchedAlone (ε := ε) s (.exec k o)) : V.Sound (S.step s (.exec k o)) := by
  obtain ⟨hfetch, hdelete⟩ := hok p (Option.mem_def.mpr hk)
  refine Service.after_exec hk o ?_
  intro next hstore hself hothers
  rw [← hstore] at hstep
  cases hstep with
  | finds key hfetching hidle hexecuted hthere hdeleting hfinds =>
    refine h.finds hfinds hthere ?_ hself hdeleting ?_
    · exact hfetch key hfetching hexecuted hthere
    · intro key' j q hj hd
      have hne : j ≠ k := by
        rintro rfl
        rw [hk] at hj
        obtain rfl := Option.some.inj hj
        rw [hidle] at hd
        cases hd
      exact ⟨q, by rw [hothers j hne, hj], hd⟩
  | idle hidle hdeleting =>
    refine h.idle hidle ?_
    intro key j q hmem hj hd
    by_cases hjk : j = k
    · subst hjk
      rw [hk] at hj
      obtain rfl := Option.some.inj hj
      rcases hdeleting key hd with hstill | htried
      · exact .inr ⟨_, hself, hstill⟩
      · left
        cases hget : V.get s.store key with
        | none => exact hidle.gone key (h.issued key j hmem) hget
        | some v => exact htried (hdelete key hd (by simp [hget]))
    · exact .inr ⟨q, by rw [hothers j hjk, hj], hd⟩

/-- **A key is found once** in every run whose calls fetch alone. -/
theorem found_once {as : List (Action ε ω)}
    (hworld : ∀ s e, V.Idle s (S.world s e).1)
    (hexec : ∀ k s p o, V.Step k s p o (S.exec k s p o).1 (S.exec k s p o).2)
    (hrun : Run.Each S.step V.FetchedAlone s as) (h : V.Sound s) :
    V.FoundOnce (S.run s as).store := by
  have hsound : V.Sound (S.run s as) := by
    refine Service.preserves ?_ ?_ hrun h
    · intro s e hs _
      refine hs.idle (hworld s.store e) ?_
      intro key k p _ hk hd
      exact .inr ⟨p, Service.step_world_of hk e, hd⟩
    · intro s k p o hs hok hk
      exact hs.exec hk (hexec k s.store p o) hok
  exact hsound.once

end View

end OneTime
