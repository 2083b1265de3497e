import Mathlib.Data.List.Sort
import UsbVault.Storage.Multipart

/-!
# Parts of an upload

A list of parts by their numbers: what an upsert changes, in the cached list
and in the stored one, and that lists of distinct numbers that agree number
by number are sorted to the same list (`sort_eq`).
-/

namespace UsbVault.Storage.Multipart

variable {parts parts' : List CompletedPart} {part p q : CompletedPart} {n : Int}

/-- The part of a number, the first in the list. -/
def partAt (n : Int) : List CompletedPart → Option CompletedPart
  | [] => none
  | p :: parts => if p.partNumber = n then some p else partAt n parts

/-- Each number once. -/
def Distinct (parts : List CompletedPart) : Prop :=
  parts.Pairwise fun p q => p.partNumber ≠ q.partNumber

/-- In the order of the numbers, each once. -/
def Ascending (parts : List CompletedPart) : Prop :=
  parts.Pairwise fun p q => p.partNumber < q.partNumber

theorem Ascending.distinct (h : Ascending parts) : Distinct parts :=
  h.imp fun hlt => ne_of_lt hlt

theorem partAt_some (h : partAt n parts = some p) : p ∈ parts ∧ p.partNumber = n := by
  induction parts with
  | nil => cases h
  | cons q parts ih =>
    rw [partAt] at h
    split at h
    case isTrue hq =>
      obtain rfl := Option.some.inj h
      exact ⟨List.mem_cons_self, hq⟩
    case isFalse =>
      obtain ⟨hmem, hn⟩ := ih h
      exact ⟨List.mem_cons_of_mem q hmem, hn⟩

theorem Distinct.partAt (h : Distinct parts) (hp : p ∈ parts) :
    partAt p.partNumber parts = some p := by
  induction parts with
  | nil => cases hp
  | cons q parts ih =>
    obtain ⟨hq, hrest⟩ := List.pairwise_cons.mp h
    rw [Multipart.partAt]
    rcases List.mem_cons.mp hp with rfl | hp
    · rw [if_pos rfl]
    · rw [if_neg (hq p hp), ih hrest hp]

theorem Distinct.mem_iff (h : Distinct parts) :
    p ∈ parts ↔ Multipart.partAt p.partNumber parts = some p :=
  ⟨h.partAt, fun hp => (partAt_some hp).1⟩

/-! ## Upserts -/

theorem partAt_upsertCached :
    partAt n (upsertCached part parts)
      = if part.partNumber = n then some part else partAt n parts := by
  induction parts with
  | nil => rfl
  | cons p parts ih =>
    rw [upsertCached]
    split
    case isTrue hp =>
      rw [partAt, partAt, hp]
      split <;> rfl
    case isFalse hp =>
      rw [partAt, partAt, ih]
      grind

theorem partAt_upsertStored :
    partAt n (upsertStored part parts)
      = if part.partNumber = n then some part else partAt n parts := by
  induction parts with
  | nil => rfl
  | cons p parts ih =>
    rw [upsertStored]
    split
    case isTrue hp =>
      rw [partAt, partAt, hp]
      split <;> rfl
    case isFalse hp =>
      split
      case isTrue => rw [partAt]
      case isFalse =>
        rw [partAt, partAt, ih]
        grind

theorem mem_upsertCached (h : q ∈ upsertCached part parts) : q = part ∨ q ∈ parts := by
  induction parts with
  | nil => exact .inl (List.mem_singleton.mp h)
  | cons p parts ih =>
    rw [upsertCached] at h
    split at h
    · rcases List.mem_cons.mp h with rfl | h
      · exact .inl rfl
      · exact .inr (List.mem_cons_of_mem p h)
    · rcases List.mem_cons.mp h with rfl | h
      · exact .inr List.mem_cons_self
      · exact (ih h).imp id (List.mem_cons_of_mem p)

theorem mem_upsertStored (h : q ∈ upsertStored part parts) : q = part ∨ q ∈ parts := by
  induction parts with
  | nil => exact .inl (List.mem_singleton.mp h)
  | cons p parts ih =>
    rw [upsertStored] at h
    split at h
    · rcases List.mem_cons.mp h with rfl | h
      · exact .inl rfl
      · exact .inr (List.mem_cons_of_mem p h)
    · split at h
      · exact (List.mem_cons.mp h).imp id id
      · rcases List.mem_cons.mp h with rfl | h
        · exact .inr List.mem_cons_self
        · exact (ih h).imp id (List.mem_cons_of_mem p)

theorem Distinct.upsertCached (h : Distinct parts) : Distinct (upsertCached part parts) := by
  induction parts with
  | nil => exact List.pairwise_singleton _ _
  | cons p parts ih =>
    obtain ⟨hp, hrest⟩ := List.pairwise_cons.mp h
    rw [Multipart.upsertCached]
    split
    case isTrue hnumber => exact List.pairwise_cons.mpr ⟨by rwa [← hnumber], hrest⟩
    case isFalse hnumber =>
      refine List.pairwise_cons.mpr ⟨?_, ih hrest⟩
      intro q hq
      rcases mem_upsertCached hq with rfl | hq
      · exact hnumber
      · exact hp q hq

theorem Ascending.upsertStored (h : Ascending parts) : Ascending (upsertStored part parts) := by
  induction parts with
  | nil => exact List.pairwise_singleton _ _
  | cons p parts ih =>
    obtain ⟨hp, hrest⟩ := List.pairwise_cons.mp h
    rw [Multipart.upsertStored]
    split
    case isTrue hnumber => exact List.pairwise_cons.mpr ⟨by rwa [← hnumber], hrest⟩
    case isFalse hnumber =>
      split
      case isTrue hlt =>
        refine List.pairwise_cons.mpr ⟨?_, h⟩
        intro q hq
        rcases List.mem_cons.mp hq with rfl | hq
        · exact hlt
        · exact lt_trans hlt (hp q hq)
      case isFalse hlt =>
        refine List.pairwise_cons.mpr ⟨?_, ih hrest⟩
        intro q hq
        rcases mem_upsertStored hq with rfl | hq
        · exact lt_of_le_of_ne (not_lt.mp hlt) hnumber
        · exact hp q hq

/-! ## Sorting -/

theorem sort_perm (parts : List CompletedPart) : (sortPartsAscending parts).Perm parts :=
  List.perm_insertionSort _ parts

theorem Distinct.sort (h : Distinct parts) : Ascending (sortPartsAscending parts) := by
  have hle : (sortPartsAscending parts).Pairwise fun p q => p.partNumber ≤ q.partNumber :=
    List.pairwise_insertionSort _ parts
  have hne : Distinct (sortPartsAscending parts) :=
    ((sort_perm parts).pairwise_iff fun hpq => Ne.symm hpq).mpr h
  exact (hle.and hne).imp fun ⟨hpq, hdistinct⟩ => lt_of_le_of_ne hpq hdistinct

/-- **Lists that agree number by number** are the same in the order of the
numbers. -/
theorem sort_eq (h : Distinct parts) (h' : Ascending parts')
    (hsame : ∀ n, partAt n parts = partAt n parts') : sortPartsAscending parts = parts' := by
  have hsorted : Ascending (sortPartsAscending parts) := h.sort
  have hmem : ∀ p, p ∈ sortPartsAscending parts ↔ p ∈ parts' := by
    intro p
    rw [(sort_perm parts).mem_iff, h.mem_iff, hsame, h'.distinct.mem_iff]
  have hnodup : ∀ l, Ascending l → l.Nodup := by
    intro l hl
    refine List.Pairwise.imp ?_ hl
    intro p q hlt heq
    exact absurd (congrArg CompletedPart.partNumber heq) (ne_of_lt hlt)
  have hperm : (sortPartsAscending parts).Perm parts' :=
    (List.perm_ext_iff_of_nodup (hnodup _ hsorted) (hnodup _ h')).mpr hmem
  exact hperm.eq_of_pairwise (fun p q _ _ hpq hqp => absurd hqp (lt_asymm hpq)) hsorted h'

end UsbVault.Storage.Multipart
