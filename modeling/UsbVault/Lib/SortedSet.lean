import Mathlib.Data.List.Sort
import Mathlib.Order.Lattice
import Mathlib.Data.Prod.Lex

/-!
# Sorted sets

Members ordered by a key, each at most once. A member is added in its
place; the set can be cut down to the members of the highest ranks.
-/

/-- A list of distinct members, the lowest key first. -/
structure SortedSet (α : Type) {κ : Type} [LinearOrder κ] (key : α → κ) where
  members : List α
  sorted : members.Pairwise fun a b => key a ≤ key b
  nodup : members.Nodup

namespace SortedSet

variable {α κ : Type} [LinearOrder κ] {key : α → κ}

/-- No members. -/
def empty : SortedSet α key := ⟨[], List.Pairwise.nil, List.nodup_nil⟩

instance : Std.Total fun a b : α => key a ≤ key b := ⟨fun a b => le_total (key a) (key b)⟩

instance : IsTrans α fun a b => key a ≤ key b := ⟨fun _ _ _ => le_trans⟩

/-- Add a member; one that is there stays where it is. -/
def add [DecidableEq α] (s : SortedSet α key) (a : α) : SortedSet α key :=
  if h : a ∈ s.members then s
  else
    { members := s.members.orderedInsert (fun a b => key a ≤ key b) a
      sorted := s.sorted.orderedInsert _ _
      nodup := (List.perm_orderedInsert _ _ _).nodup_iff.mpr (List.nodup_cons.mpr ⟨h, s.nodup⟩) }

/-- Keep the `n` members of the highest ranks. -/
def keepTop (s : SortedSet α key) (n : Nat) : SortedSet α key where
  members := s.members.drop (s.members.length - n)
  sorted := s.sorted.drop
  nodup := s.nodup.drop

theorem mem_add [DecidableEq α] {s : SortedSet α key} {a b : α} :
    b ∈ (s.add a).members ↔ b = a ∨ b ∈ s.members := by
  rw [add]
  split
  · rename_i h
    exact ⟨.inr, fun hb => hb.elim (fun heq => heq ▸ h) id⟩
  · exact List.mem_orderedInsert _

theorem mem_of_keepTop {s : SortedSet α key} {n : Nat} {a : α} (h : a ∈ (s.keepTop n).members) :
    a ∈ s.members :=
  List.mem_of_mem_drop h

/-- **A member stays** when at most `n` members, itself among them, are not
below it. -/
theorem mem_keepTop {s : SortedSet α key} {n : Nat} {a : α} (h : a ∈ s.members)
    (hfew : s.members.countP (fun b => decide (key a ≤ key b)) ≤ n) :
    a ∈ (s.keepTop n).members := by
  have hsplit := List.take_append_drop (s.members.length - n) s.members
  rw [← hsplit, List.mem_append] at h
  refine h.resolve_left fun hlow => ?_
  have hsorted := s.sorted
  rw [← hsplit, List.pairwise_append] at hsorted
  have hhigh : (s.members.drop (s.members.length - n)).countP (fun b => decide (key a ≤ key b))
      = (s.members.drop (s.members.length - n)).length :=
    List.countP_eq_length.mpr fun b hb => decide_eq_true (hsorted.2.2 a hlow b hb)
  have hself : 0 < (s.members.take (s.members.length - n)).countP
      (fun b => decide (key a ≤ key b)) :=
    List.countP_pos_iff.mpr ⟨a, hlow, decide_eq_true (le_refl _)⟩
  have hpos : 0 < (s.members.take (s.members.length - n)).length := List.length_pos_of_mem hlow
  rw [← hsplit, List.countP_append, hhigh, List.length_drop] at hfew
  rw [List.length_take] at hpos
  omega

/-- The same, when the members that are not below it are in a list of `n`. -/
theorem mem_keepTop_of_subset {s : SortedSet α key} {n : Nat} {a : α} {l : List α}
    (h : a ∈ s.members) (hlen : l.length ≤ n)
    (hsub : ∀ b ∈ s.members, key a ≤ key b → b ∈ l) : a ∈ (s.keepTop n).members := by
  refine mem_keepTop h ?_
  have hnodup : (s.members.filter fun b => decide (key a ≤ key b)).Nodup := s.nodup.filter _
  have hsubset : (s.members.filter fun b => decide (key a ≤ key b)) ⊆ l := by
    intro b hb
    obtain ⟨hmem, hle⟩ := List.mem_filter.mp hb
    exact hsub b hmem (of_decide_eq_true hle)
  rw [List.countP_eq_length_filter]
  exact (List.subperm_of_subset hnodup hsubset).length_le.trans hlen

end SortedSet
