import Mathlib.Algebra.GroupWithZero.Nat
import Mathlib.Data.List.Perm.Basic
import Mathlib.Data.List.Nodup

/-!
# Plain objects used as maps

A JavaScript object with string keys: its own properties in the order
they were created. Assigning to the key `__proto__` sets the prototype
and creates no property. `entries` lists array-index keys first, in
ascending order, and the other keys after them in creation order.
-/

namespace Js

/-- The own properties of an object, oldest first. -/
abbrev Obj (α : Type) := List (String × α)

variable {α : Type}

namespace Obj

/-- `o[k]`, when `k` is an own property. -/
def get (o : Obj α) (k : String) : Option α := o.lookup k

/-- `Object.keys(o)`, up to order. -/
def keys (o : Obj α) : List String := o.map Prod.fst

/-- `o[k] = v` on a property that exists. -/
def overwrite (k : String) (v : α) : Obj α → Obj α
  | [] => []
  | (k', v') :: o => if k' = k then (k', v) :: o else (k', v') :: overwrite k v o

/-- `o[k] = v` -/
def assign (o : Obj α) (k : String) (v : α) : Obj α :=
  if (o.get k).isSome then overwrite k v o
  else if k = "__proto__" then o
  else o ++ [(k, v)]

/-- `delete o[k]` -/
def delete (o : Obj α) (k : String) : Obj α := o.filter fun p => p.1 ≠ k

/-! ## Reading what was assigned -/

@[simp] theorem get_nil (k : String) : (get [] k : Option α) = none := rfl

theorem get_cons (k' : String) (v' : α) (o : Obj α) (k : String) :
    get ((k', v') :: o) k = if k = k' then some v' else get o k := by
  rw [get, List.lookup_cons]
  by_cases h : k = k'
  · simp [h]
  · have hbeq : (k == k') = false := beq_eq_false_iff_ne.mpr h
    simp only [hbeq, if_neg h, get]

theorem get_append (o o' : Obj α) (k : String) :
    get (o ++ o') k = (get o k).or (get o' k) := by
  induction o with
  | nil => simp
  | cons p o ih =>
    obtain ⟨k', v'⟩ := p
    rw [List.cons_append, get_cons, get_cons, ih]
    split
    · rfl
    · rfl

theorem get_overwrite (k : String) (v : α) (o : Obj α) (k' : String) :
    get (overwrite k v o) k'
      = if k' = k then (get o k).map fun _ => v else get o k' := by
  induction o with
  | nil => simp [overwrite]
  | cons p o ih =>
    obtain ⟨k₀, v₀⟩ := p
    by_cases h : k₀ = k
    · subst h
      rw [overwrite, if_pos rfl, get_cons, get_cons, get_cons]
      by_cases hk : k' = k₀ <;> simp [hk]
    · rw [overwrite, if_neg h, get_cons, ih, get_cons, get_cons]
      by_cases hk : k' = k
      · subst hk
        have hne : k' ≠ k₀ := fun heq => h heq.symm
        simp [hne]
      · simp [hk]

/-- **An assigned key reads back, another key is unchanged.** -/
theorem get_assign_of {k : String} {o : Obj α} (hk : k ≠ "__proto__" ∨ (o.get k).isSome) (v : α)
    (k' : String) :
    (o.assign k v).get k' = if k' = k then some v else o.get k' := by
  rw [assign]
  by_cases hsome : (o.get k).isSome
  · rw [if_pos hsome, get_overwrite]
    obtain ⟨v₀, hv₀⟩ := Option.isSome_iff_exists.mp hsome
    simp [hv₀]
  · have hnone : o.get k = none := by simpa using hsome
    have hne : k ≠ "__proto__" := hk.resolve_right hsome
    rw [if_neg hsome, if_neg hne, get_append, get_cons]
    by_cases h : k' = k
    · subst h
      simp [hnone]
    · simp [h]

theorem get_assign {k : String} (hk : k ≠ "__proto__") (o : Obj α) (v : α)
    (k' : String) :
    (o.assign k v).get k' = if k' = k then some v else o.get k' :=
  get_assign_of (.inl hk) v k'

theorem assign_proto {o : Obj α} (h : o.get "__proto__" = none) (v : α) :
    o.assign "__proto__" v = o := by
  rw [assign, h, if_neg (by simp), if_pos rfl]

theorem get_delete (o : Obj α) (k k' : String) :
    (o.delete k).get k' = if k' = k then none else o.get k' := by
  induction o with
  | nil => simp [delete]
  | cons p o ih =>
    obtain ⟨k₀, v₀⟩ := p
    by_cases h : k₀ = k
    · subst h
      have hdel : delete ((k₀, v₀) :: o) k₀ = delete o k₀ := by simp [delete]
      rw [hdel, ih, get_cons]
      by_cases hk : k' = k₀ <;> simp [hk]
    · have hdel : delete ((k₀, v₀) :: o) k = (k₀, v₀) :: delete o k := by
        simp [delete, h]
      rw [hdel, get_cons, ih, get_cons]
      by_cases hk : k' = k
      · subst hk
        have hne : k' ≠ k₀ := fun heq => h heq.symm
        simp [hne]
      · simp [hk]

/-! ## Distinct keys -/

theorem mem_of_get {o : Obj α} {k : String} {v : α} (h : o.get k = some v) :
    (k, v) ∈ o := by
  induction o with
  | nil => cases h
  | cons p o ih =>
    obtain ⟨k₀, v₀⟩ := p
    rw [get_cons] at h
    by_cases hk : k = k₀
    · rw [if_pos hk] at h
      cases h
      simp [hk]
    · rw [if_neg hk] at h
      exact List.mem_cons_of_mem _ (ih h)

theorem get_of_mem {o : Obj α} (hnd : o.keys.Nodup) {k : String} {v : α}
    (h : (k, v) ∈ o) : o.get k = some v := by
  induction o with
  | nil => cases h
  | cons p o ih =>
    obtain ⟨k₀, v₀⟩ := p
    rw [keys, List.map_cons, List.nodup_cons] at hnd
    rw [get_cons]
    rcases List.mem_cons.mp h with heq | hmem
    · cases heq
      rw [if_pos rfl]
    · have hne : k ≠ k₀ := by
        rintro rfl
        exact hnd.1 (List.mem_map.mpr ⟨_, hmem, rfl⟩)
      rw [if_neg hne]
      exact ih hnd.2 hmem

theorem get_eq_none_iff (o : Obj α) (k : String) : o.get k = none ↔ k ∉ o.keys := by
  induction o with
  | nil => simp [keys]
  | cons p o ih =>
    obtain ⟨k₀, v₀⟩ := p
    rw [get_cons, keys, List.map_cons, List.mem_cons]
    by_cases hk : k = k₀
    · simp [hk]
    · simp [hk, ih, keys]

theorem keys_overwrite (k : String) (v : α) (o : Obj α) :
    (overwrite k v o).keys = o.keys := by
  induction o with
  | nil => rfl
  | cons p o ih =>
    obtain ⟨k₀, v₀⟩ := p
    rw [overwrite]
    split
    · rfl
    · rw [keys, List.map_cons, keys, List.map_cons]
      exact congrArg _ ih

theorem mem_overwrite {k : String} {v : α} {o : Obj α} {p : String × α}
    (h : p ∈ overwrite k v o) : p ∈ o ∨ p = (k, v) := by
  induction o with
  | nil => cases h
  | cons q o ih =>
    obtain ⟨k₀, v₀⟩ := q
    rw [overwrite] at h
    split at h
    · rename_i heq
      rcases List.mem_cons.mp h with rfl | hmem
      · exact .inr (by rw [heq])
      · exact .inl (List.mem_cons_of_mem _ hmem)
    · rcases List.mem_cons.mp h with rfl | hmem
      · exact .inl List.mem_cons_self
      · exact (ih hmem).imp_left (List.mem_cons_of_mem _)

/-- An assignment adds at most its own property. -/
theorem mem_assign {k : String} {v : α} {o : Obj α} {p : String × α}
    (h : p ∈ o.assign k v) : p ∈ o ∨ p = (k, v) := by
  rw [assign] at h
  split at h
  · exact mem_overwrite h
  · split at h
    · exact .inl h
    · rcases List.mem_append.mp h with hmem | hmem
      · exact .inl hmem
      · exact .inr (List.mem_singleton.mp hmem)

theorem assign_ne_nil {o : Obj α} (k : String) (v : α) (h : o ≠ [] ∨ k ≠ "__proto__") :
    o.assign k v ≠ [] := by
  intro hnil
  rw [assign] at hnil
  split at hnil
  · rename_i hsome
    have hkeys := keys_overwrite k v o
    rw [hnil] at hkeys
    rw [List.map_eq_nil_iff.mp hkeys.symm] at hsome
    cases hsome
  · split at hnil
    · rename_i hproto
      exact h.elim (fun hne => hne hnil) fun hne => hne hproto
    · simp at hnil

theorem nodup_assign {o : Obj α} (hnd : o.keys.Nodup) (k : String) (v : α) :
    (o.assign k v).keys.Nodup := by
  rw [assign]
  split
  · rw [keys_overwrite]
    exact hnd
  · rename_i hnone
    split
    · exact hnd
    · have hfresh : k ∉ o.keys := by
        rw [← get_eq_none_iff]
        simpa using hnone
      have hdisj : List.Disjoint o.keys [k] := by
        intro k' hk' hmem
        rw [List.mem_singleton.mp hmem] at hk'
        exact hfresh hk'
      rw [keys, List.map_append]
      exact List.nodup_append'.mpr ⟨hnd, by simp, hdisj⟩

theorem nodup_delete {o : Obj α} (hnd : o.keys.Nodup) (k : String) :
    (o.delete k).keys.Nodup :=
  hnd.sublist (List.filter_sublist.map Prod.fst)

/-! ## Enumeration order -/

/-- The value of an array-index key: digits without a leading zero,
below `2^32 - 1`. -/
def arrayIndex (k : String) : Option Nat :=
  if k.toList ≠ [] ∧ k.toList.all Char.isDigit
      ∧ (k.toList.head? ≠ some '0' ∨ k.toList.length = 1)
      ∧ k.toList.foldl (fun n c => 10 * n + (c.toNat - '0'.toNat)) 0 < 2 ^ 32 - 1 then
    some (k.toList.foldl (fun n c => 10 * n + (c.toNat - '0'.toNat)) 0)
  else none

/-- Put a property among the array-index properties, in ascending order. -/
def insertByIndex (p : String × α) : Obj α → Obj α
  | [] => [p]
  | q :: o => if (arrayIndex p.1).getD 0 ≤ (arrayIndex q.1).getD 0 then p :: q :: o
      else q :: insertByIndex p o

/-- `Object.entries(o)` -/
def entries (o : Obj α) : Obj α :=
  (o.filter fun p => (arrayIndex p.1).isSome).foldr insertByIndex []
    ++ o.filter fun p => !(arrayIndex p.1).isSome

theorem insertByIndex_perm (p : String × α) (o : Obj α) :
    (insertByIndex p o).Perm (p :: o) := by
  induction o with
  | nil => exact .refl _
  | cons q o ih =>
    rw [insertByIndex]
    split
    · exact .refl _
    · exact (ih.cons q).trans (.swap p q o)

/-- **`entries` lists every own property once.** -/
theorem entries_perm (o : Obj α) : o.entries.Perm o := by
  have hsort : ∀ l : Obj α, (l.foldr insertByIndex []).Perm l := by
    intro l
    induction l with
    | nil => exact .refl _
    | cons p l ih =>
      rw [List.foldr_cons]
      exact (insertByIndex_perm p _).trans (ih.cons p)
  rw [entries]
  exact ((hsort _).append_right _).trans (List.filter_append_perm _ o)

end Obj

end Js
