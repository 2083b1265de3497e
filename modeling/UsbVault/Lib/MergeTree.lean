import Mathlib.Order.Lattice
import Mathlib.Data.Multiset.Basic

/-!
# Merge trees

Replicas fold a binary merge over a collection of values in some order,
with some grouping, some values more than once. One such fold is a binary
tree with the values at its leaves; the merge converges on the collection
when every tree over it has the same result.

The merge studied here picks the value with the greater key and the first
of the two on a tie. It is associative and idempotent whatever the key is
(`pick_assoc`, `pick_self`); it converges on a collection exactly when the
values with the greatest key of the collection are all the same
(`converges_pick_iff`).
-/

namespace Merge

variable {α K : Type}

inductive Tree (α : Type)
  | leaf (a : α)
  | node (l r : Tree α)

namespace Tree

def leaves : Tree α → List α
  | leaf a => [a]
  | node l r => l.leaves ++ r.leaves

def fold (op : α → α → α) : Tree α → α
  | leaf a => a
  | node l r => op (l.fold op) (r.fold op)

/-- The tree uses every value of the collection, and no other. -/
def Covers (S : Multiset α) (t : Tree α) : Prop :=
  ∀ a, a ∈ t.leaves ↔ a ∈ S

/-- The left-leaning tree: `b₁`, `b₂`, … merged into `a` one by one. -/
def spine (a : α) (bs : List α) : Tree α :=
  bs.foldl (fun t b => node t (leaf b)) (leaf a)

private theorem spine_aux (op : α → α → α) (bs : List α) (t : Tree α) :
    (bs.foldl (fun t b => node t (leaf b)) t).leaves = t.leaves ++ bs ∧
      (bs.foldl (fun t b => node t (leaf b)) t).fold op = bs.foldl op (t.fold op) := by
  induction bs generalizing t with
  | nil => simp
  | cons b bs ih =>
    obtain ⟨hleaves, hfold⟩ := ih (node t (leaf b))
    constructor
    · rw [List.foldl_cons, hleaves]
      simp [leaves]
    · rw [List.foldl_cons, hfold]
      rfl

theorem leaves_spine (a : α) (bs : List α) : (spine a bs).leaves = a :: bs :=
  (spine_aux (fun x _ => x) bs (leaf a)).1

theorem fold_spine (op : α → α → α) (a : α) (bs : List α) :
    (spine a bs).fold op = bs.foldl op a :=
  (spine_aux op bs (leaf a)).2

end Tree

/-- Every tree over the collection has the same result. -/
def Converges (op : α → α → α) (S : Multiset α) : Prop :=
  ∀ t u : Tree α, t.Covers S → u.Covers S → t.fold op = u.fold op

/-! ## The greater key, the first on a tie -/

variable [LinearOrder K] (key : α → K)

def pick (a b : α) : α := if key a < key b then b else a

/-- No value of the collection has a greater key. -/
def Top (S : Multiset α) (a : α) : Prop := a ∈ S ∧ ∀ b ∈ S, key b ≤ key a

variable {key}

theorem pick_of_lt {a b : α} (h : key a < key b) : pick key a b = b := if_pos h

theorem pick_of_le {a b : α} (h : key b ≤ key a) : pick key a b = a := if_neg (not_lt.mpr h)

theorem pick_self (a : α) : pick key a a = a := pick_of_le le_rfl

/-- The key of the pick is the greater of the two keys. -/
theorem key_pick (key : α → K) (a b : α) :
    key (pick key a b) = max (key a) (key b) := by
  rcases lt_or_ge (key a) (key b) with h | h
  · rw [pick_of_lt h, max_eq_right h.le]
  · rw [pick_of_le h, max_eq_left h]

theorem pick_assoc (a b c : α) :
    pick key (pick key a b) c = pick key a (pick key b c) := by
  rcases lt_or_ge (key b) (key c) with hbc | hbc
  · -- `c` beats `b`: `b` never wins
    rw [pick_of_lt hbc]
    rcases lt_or_ge (key a) (key b) with hab | hab
    · rw [pick_of_lt hab, pick_of_lt hbc, pick_of_lt (hab.trans hbc)]
    · rw [pick_of_le hab]
  · rw [pick_of_le hbc]
    have hc : key c ≤ key (pick key a b) := by
      rw [key_pick key]
      exact hbc.trans (le_max_right _ _)
    exact pick_of_le hc

/-- Two values may change places unless they tie and differ. -/
theorem pick_comm_iff {a b : α} :
    pick key a b = pick key b a ↔ (key a = key b → a = b) := by
  rcases lt_trichotomy (key a) (key b) with h | h | h
  · rw [pick_of_lt h, pick_of_le h.le]
    exact ⟨fun _ he => absurd he h.ne, fun _ => rfl⟩
  · rw [pick_of_le h.ge, pick_of_le h.le]
    exact ⟨fun hab _ => hab, fun hab => hab h⟩
  · rw [pick_of_le h.le, pick_of_lt h]
    exact ⟨fun _ he => absurd he h.ne', fun _ => rfl⟩

/-! ## Trees of picks -/

theorem fold_mem_leaves (t : Tree α) : t.fold (pick key) ∈ t.leaves := by
  induction t with
  | leaf a => exact List.mem_singleton.mpr rfl
  | node l r ihl ihr =>
    rw [Tree.fold, Tree.leaves, List.mem_append, pick]
    split
    · exact .inr ihr
    · exact .inl ihl

theorem key_le_fold (t : Tree α) : ∀ a ∈ t.leaves, key a ≤ key (t.fold (pick key)) := by
  induction t with
  | leaf a =>
    intro b hb
    rw [List.mem_singleton.mp hb]
    exact le_rfl
  | node l r ihl ihr =>
    intro a ha
    rw [Tree.fold, key_pick key]
    rcases List.mem_append.mp ha with hl | hr
    · exact (ihl a hl).trans (le_max_left _ _)
    · exact (ihr a hr).trans (le_max_right _ _)

/-- **The result of a tree is a greatest value of its collection.** -/
theorem fold_top {S : Multiset α} {t : Tree α} (h : t.Covers S) :
    Top key S (t.fold (pick key)) :=
  ⟨(h _).mp (fold_mem_leaves t), fun a ha => key_le_fold t a ((h a).mpr ha)⟩

/-- A greatest value met first is never replaced. -/
theorem foldl_pick_top {a : α} (bs : List α) (h : ∀ b ∈ bs, key b ≤ key a) :
    bs.foldl (pick key) a = a := by
  induction bs with
  | nil => rfl
  | cons b bs ih =>
    rw [List.foldl_cons, pick_of_le (h b List.mem_cons_self)]
    exact ih fun c hc => h c (List.mem_cons_of_mem b hc)

/-- Each greatest value is the result of some tree. -/
theorem exists_tree_of_top {S : Multiset α} {a : α} (h : Top key S a) :
    ∃ t : Tree α, t.Covers S ∧ t.fold (pick key) = a := by
  obtain ⟨hmem, htop⟩ := h
  obtain ⟨bs, rfl⟩ := Quot.exists_rep S
  refine ⟨Tree.spine a bs, fun b => ?_, ?_⟩
  · rw [Tree.leaves_spine, List.mem_cons]
    constructor
    · rintro (rfl | hb)
      · exact hmem
      · exact hb
    · exact Or.inr
  · rw [Tree.fold_spine]
    exact foldl_pick_top bs htop

/-- **The merge converges on a collection exactly when its greatest values
are all the same.** -/
theorem converges_pick_iff {S : Multiset α} :
    Converges (pick key) S ↔ ∀ a b, Top key S a → Top key S b → a = b := by
  constructor
  · intro hconv a b ha hb
    obtain ⟨t, ht, hta⟩ := exists_tree_of_top ha
    obtain ⟨u, hu, hub⟩ := exists_tree_of_top hb
    rw [← hta, ← hub]
    exact hconv t u ht hu
  · intro huniq t u ht hu
    exact huniq _ _ (fold_top ht) (fold_top hu)

end Merge
