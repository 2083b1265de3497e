import Mathlib.Logic.Function.Basic

/-!
# Expiring keys

Keys that are found up to an instant. A key that has run out stays in the
map and is not found any more, so that a later key of the same name, a
deletion and the passing of time are told apart.
-/

namespace Expiring

variable {κ ν : Type}

/-- Each key with its value and the last instant it is found at. -/
structure Keys (κ ν : Type) where
  entry : κ → Option (ν × Nat)

namespace Keys

def empty : Keys κ ν := ⟨fun _ => none⟩

def get (m : Keys κ ν) (now : Nat) (k : κ) : Option ν :=
  match m.entry k with
  | some (v, last) => if now ≤ last then some v else none
  | none => none

def set [DecidableEq κ] (m : Keys κ ν) (now ttl : Nat) (k : κ) (v : ν) : Keys κ ν :=
  ⟨Function.update m.entry k (some (v, now + ttl))⟩

def delete [DecidableEq κ] (m : Keys κ ν) (k : κ) : Keys κ ν :=
  ⟨Function.update m.entry k none⟩

/-- The key was set, and not deleted since. -/
def Marked (m : Keys κ ν) (k : κ) : Prop := (m.entry k).isSome = true

/-- The key was set, and its time is over. -/
def RunOut (m : Keys κ ν) (now : Nat) (k : κ) : Prop := ∃ e ∈ m.entry k, e.2 < now

instance (m : Keys κ ν) (k : κ) : Decidable (m.Marked k) :=
  inferInstanceAs (Decidable ((m.entry k).isSome = true))

instance (m : Keys κ ν) (now : Nat) (k : κ) : Decidable (m.RunOut now k) :=
  inferInstanceAs (Decidable (∃ e ∈ m.entry k, e.2 < now))

variable {m : Keys κ ν} {now now' ttl : Nat} {k k' : κ} {v v' : ν}

theorem get_eq_some : m.get now k = some v ↔ ∃ last, m.entry k = some (v, last) ∧ now ≤ last := by
  rw [get]
  split
  · rename_i w last heq
    simp only [heq, Option.some.injEq, Prod.mk.injEq]
    constructor
    · intro h
      split at h
      · rename_i hle
        exact ⟨last, ⟨Option.some.inj h, rfl⟩, hle⟩
      · cases h
    · rintro ⟨_, ⟨rfl, rfl⟩, hle⟩
      rw [if_pos hle]
  · rename_i heq
    simp [heq]

theorem Marked.of_get (h : m.get now k = some v) : m.Marked k := by
  obtain ⟨last, hlast, -⟩ := get_eq_some.mp h
  simp [Marked, hlast]

/-- A key that is not found was never set, or has run out. -/
theorem runOut_of_get (hmarked : m.Marked k) (h : m.get now k = none) : m.RunOut now k := by
  obtain ⟨⟨w, last⟩, hk⟩ := Option.isSome_iff_exists.mp hmarked
  refine ⟨(w, last), hk, ?_⟩
  by_contra hle
  have hfound : m.get now k = some w := get_eq_some.mpr ⟨last, hk, by omega⟩
  rw [h] at hfound
  cases hfound

/-- A key that is not found is not found later. -/
theorem get_eq_none_mono (hle : now ≤ now') (h : m.get now k = none) : m.get now' k = none := by
  cases hlater : m.get now' k with
  | none => rfl
  | some w =>
    obtain ⟨last, hlast, hin⟩ := get_eq_some.mp hlater
    have hfound : m.get now k = some w := get_eq_some.mpr ⟨last, hlast, by omega⟩
    rw [h] at hfound
    cases hfound

/-- What is found depends on the key's entry alone. -/
theorem get_congr {m' : Keys κ ν} (h : m'.entry k = m.entry k) : m'.get now k = m.get now k := by
  rw [get, get, h]

@[simp] theorem entry_set_self [DecidableEq κ] :
    (m.set now ttl k v).entry k = some (v, now + ttl) :=
  Function.update_self k _ m.entry

@[simp] theorem entry_set_ne [DecidableEq κ] (h : k' ≠ k) :
    (m.set now ttl k v).entry k' = m.entry k' :=
  Function.update_of_ne h _ m.entry

@[simp] theorem entry_delete_self [DecidableEq κ] : (m.delete k).entry k = none :=
  Function.update_self k _ m.entry

@[simp] theorem entry_delete_ne [DecidableEq κ] (h : k' ≠ k) :
    (m.delete k).entry k' = m.entry k' :=
  Function.update_of_ne h _ m.entry

@[simp] theorem get_delete_self [DecidableEq κ] : (m.delete k).get now k = none := by
  rw [get, entry_delete_self]

@[simp] theorem get_delete_ne [DecidableEq κ] (h : k' ≠ k) :
    (m.delete k).get now k' = m.get now k' :=
  get_congr (entry_delete_ne h)

@[simp] theorem get_set_ne [DecidableEq κ] {last : Nat} (h : k' ≠ k) :
    (m.set last ttl k v).get now k' = m.get now k' :=
  get_congr (entry_set_ne h)

theorem marked_set_self [DecidableEq κ] : (m.set now ttl k v).Marked k := by
  simp [Marked]

/-- Setting a key takes no other away. -/
theorem Marked.set [DecidableEq κ] (h : m.Marked k') : (m.set now ttl k v).Marked k' := by
  by_cases hk : k' = k
  · subst hk
    exact marked_set_self
  · rw [Marked, entry_set_ne hk]
    exact h

end Keys

end Expiring
