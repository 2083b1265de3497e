import Mathlib.Data.List.Forall2
import Mathlib.Data.List.Nodup

/-!
# Records in a list

A list of records, each with a key. A record is found by its key, and is
written over the one that has its key, or behind the others when there is
none.

With distinct keys, the record that is found is the member with the key
(`find_eq_some_iff`), and writing changes this member only (`mem_upsert`).
Two lists whose records are related one by one stay related when related
records are written (`forall₂_upsert`).
-/

namespace Keyed

variable {α κ : Type} [DecidableEq κ] {key : α → κ} {x y : α} {xs ys : List α} {k : κ}

def find (key : α → κ) (k : κ) (xs : List α) : Option α := xs.find? fun x => key x = k

def upsert (key : α → κ) (x : α) : List α → List α
  | [] => [x]
  | y :: ys => if key y = key x then x :: ys else y :: upsert key x ys

theorem upsert_nil : upsert key x [] = [x] := rfl

theorem upsert_cons :
    upsert key x (y :: ys) = if key y = key x then x :: ys else y :: upsert key x ys := rfl

theorem key_of_find (h : find key k xs = some x) : key x = k := by
  simpa using List.find?_some h

theorem mem_of_find (h : find key k xs = some x) : x ∈ xs := List.mem_of_find?_eq_some h

theorem find_eq_none_iff : find key k xs = none ↔ ∀ x ∈ xs, key x ≠ k := by
  simp [find, List.find?_eq_none]

/-- **The record that is found** is the member with the key. -/
theorem find_eq_some_iff (hnodup : (xs.map key).Nodup) :
    find key k xs = some x ↔ x ∈ xs ∧ key x = k := by
  constructor
  · intro h
    exact ⟨mem_of_find h, key_of_find h⟩
  · rintro ⟨hx, rfl⟩
    cases hfind : find key (key x) xs with
    | none => exact absurd rfl (find_eq_none_iff.mp hfind x hx)
    | some y =>
      rw [List.inj_on_of_nodup_map hnodup (mem_of_find hfind) hx (key_of_find hfind)]

/-! ## Writing -/

theorem upsert_of_new (h : key x ∉ xs.map key) : upsert key x xs = xs ++ [x] := by
  induction xs with
  | nil => rfl
  | cons y ys ih =>
    rw [List.map_cons, List.mem_cons, not_or] at h
    rw [upsert_cons, if_neg (Ne.symm h.1), ih h.2]
    rfl

/-- Writing over a record keeps the keys. -/
theorem keys_upsert (h : key x ∈ xs.map key) : (upsert key x xs).map key = xs.map key := by
  induction xs with
  | nil => cases h
  | cons y ys ih =>
    rw [upsert_cons]
    split
    · rename_i hkey
      rw [List.map_cons, List.map_cons, hkey]
    · rename_i hkey
      have htail : key x ∈ ys.map key := by
        rcases List.mem_cons.mp h with heq | htail
        · exact absurd heq.symm hkey
        · exact htail
      rw [List.map_cons, List.map_cons, ih htail]

/-- Writing what is there changes nothing. -/
theorem upsert_of_find (h : find key k xs = some x) : upsert key x xs = xs := by
  induction xs with
  | nil => cases h
  | cons y ys ih =>
    have hx := key_of_find h
    rw [upsert_cons]
    by_cases hkey : key y = k
    · simp only [find, List.find?_cons, hkey, decide_true, Option.some.injEq] at h
      rw [if_pos (hkey.trans hx.symm), h]
    · simp only [find, List.find?_cons, hkey, decide_false] at h
      rw [if_neg (hx ▸ hkey), ih h]

theorem of_mem_upsert (h : y ∈ upsert key x xs) : y = x ∨ y ∈ xs := by
  induction xs with
  | nil => exact .inl (List.mem_singleton.mp h)
  | cons z zs ih =>
    rw [upsert_cons] at h
    split at h
    · rcases List.mem_cons.mp h with heq | hzs
      · exact .inl heq
      · exact .inr (List.mem_cons_of_mem z hzs)
    · rcases List.mem_cons.mp h with heq | hrest
      · exact .inr (heq ▸ List.mem_cons_self)
      · exact (ih hrest).imp_right (List.mem_cons_of_mem z)

/-- **Writing changes one member.** -/
theorem mem_upsert (hnodup : (xs.map key).Nodup) :
    y ∈ upsert key x xs ↔ y = x ∨ y ∈ xs ∧ key y ≠ key x := by
  induction xs with
  | nil => simp [upsert_nil]
  | cons z zs ih =>
    rw [List.map_cons, List.nodup_cons] at hnodup
    rw [upsert_cons]
    split
    · rename_i hkey
      have hfresh : ∀ w ∈ zs, key w ≠ key x := by
        intro w hw heq
        exact hnodup.1 (hkey ▸ heq ▸ List.mem_map_of_mem hw)
      rw [List.mem_cons, List.mem_cons]
      constructor
      · rintro (rfl | hy)
        · exact .inl rfl
        · exact .inr ⟨.inr hy, hfresh y hy⟩
      · rintro (rfl | ⟨rfl | hy, hne⟩)
        · exact .inl rfl
        · exact absurd hkey hne
        · exact .inr hy
    · rename_i hkey
      rw [List.mem_cons, List.mem_cons, ih hnodup.2]
      constructor
      · rintro (rfl | rfl | ⟨hy, hne⟩)
        · exact .inr ⟨.inl rfl, hkey⟩
        · exact .inl rfl
        · exact .inr ⟨.inr hy, hne⟩
      · rintro (rfl | ⟨rfl | hy, hne⟩)
        · exact .inr (.inl rfl)
        · exact .inl rfl
        · exact .inr (.inr ⟨hy, hne⟩)

/-- Writing records over those that have their keys. -/
theorem foldl_upsert (hnodup : (xs.map key).Nodup) (hkeys : ∀ y ∈ ys, key y ∈ xs.map key) :
    (ys.foldl (fun written y => upsert key y written) xs).map key = xs.map key
      ∧ ∀ z ∈ ys.foldl (fun written y => upsert key y written) xs,
          z ∈ ys ∨ z ∈ xs ∧ ∀ y ∈ ys, key z ≠ key y := by
  induction ys generalizing xs with
  | nil => exact ⟨rfl, fun z hz => .inr ⟨hz, by simp⟩⟩
  | cons y ys ih =>
    have hsame := keys_upsert (hkeys y List.mem_cons_self)
    have hrest : ∀ w ∈ ys, key w ∈ (upsert key y xs).map key := by
      intro w hw
      rw [hsame]
      exact hkeys w (List.mem_cons_of_mem y hw)
    obtain ⟨hmap, hmem⟩ := ih (by rw [hsame]; exact hnodup) hrest
    refine ⟨hmap.trans hsame, ?_⟩
    intro z hz
    rcases hmem z hz with hys | ⟨hwritten, hne⟩
    · exact .inl (List.mem_cons_of_mem y hys)
    · rcases (mem_upsert hnodup).mp hwritten with rfl | ⟨hxs, hney⟩
      · exact .inl List.mem_cons_self
      · refine .inr ⟨hxs, ?_⟩
        intro w hw
        rcases List.mem_cons.mp hw with rfl | hw
        · exact hney
        · exact hne w hw

/-! ## Related lists -/

variable {β : Type} {key' : β → κ} {R : α → β → Prop} {bs : List β}

theorem forall₂_upsert (hkey : ∀ {a b}, R a b → key a = key' b) {b : β} (hxb : R x b)
    (h : List.Forall₂ R xs bs) : List.Forall₂ R (upsert key x xs) (upsert key' b bs) := by
  induction h with
  | nil => exact .cons hxb .nil
  | @cons a c as cs hac hrest ih =>
    rw [upsert_cons, upsert_cons, ← hkey hac, ← hkey hxb]
    split
    · exact .cons hxb hrest
    · exact .cons hac ih

theorem find_forall₂ (hkey : ∀ {a b}, R a b → key a = key' b) (h : List.Forall₂ R xs bs) :
    Option.Rel R (find key k xs) (find key' k bs) := by
  induction h with
  | nil => exact .none
  | @cons a b as bs hab hrest ih =>
    by_cases heq : key a = k
    · have heq' : key' b = k := hkey hab ▸ heq
      simp only [find, List.find?_cons, heq, heq', decide_true]
      exact .some hab
    · have heq' : ¬key' b = k := hkey hab ▸ heq
      simp only [find, List.find?_cons, heq, heq', decide_false]
      exact ih

end Keyed
