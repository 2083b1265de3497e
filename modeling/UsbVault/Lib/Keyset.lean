import Mathlib.Data.List.Sort

/-!
# Keyset

Traversal of rows in descending order of a key, page by page, while the rows
change between the pages. What is kept of a page is the key of its last row;
the next page starts behind it. A row that is there at every page is visited
once, and the traversal ends when no new row appears behind the position.
-/

namespace Keyset

variable {ρ κ : Type} [LinearOrder κ]

section

variable (key : ρ → κ)

/-- A row behind the position; every row is behind the start. -/
def Behind (position : Option κ) (row : ρ) : Prop :=
  match position with
  | none => True
  | some k => key row < k

instance (position : Option κ) (row : ρ) : Decidable (Behind key position row) :=
  match position with
  | none => isTrue trivial
  | some k => inferInstanceAs (Decidable (key row < k))

/-- The rows behind the position, the greatest key first. -/
def behind (position : Option κ) (rows : List ρ) : List ρ :=
  (rows.filter fun row => Behind key position row).insertionSort fun v w => key w ≤ key v

/-- How far a traversal has come. -/
structure Traversal (ρ κ : Type) where
  position : Option κ
  visited : List ρ
  finished : Bool

/-- The traversal before its first page. -/
def Traversal.start : Traversal ρ κ := ⟨none, [], false⟩

/-- The next page of at most `limit` rows. It is the last one when there are
no more rows. -/
def Traversal.turn (limit : Nat) (rows : List ρ) (t : Traversal ρ κ) : Traversal ρ κ :=
  if t.finished then t
  else
    let page := (behind key t.position rows).take limit
    if limit < (behind key t.position rows).length then
      { position := page.getLast?.map key
        visited := t.visited ++ page
        finished := false }
    else { t with
      visited := t.visited ++ page
      finished := true }

end

variable {key : ρ → κ} {position : Option κ} {rows : List ρ}

/-! ## A page -/

instance total_desc : Std.Total fun v w : ρ => key w ≤ key v := ⟨fun v w => le_total (key w) (key v)⟩

instance trans_desc : IsTrans ρ fun v w => key w ≤ key v := ⟨fun _ _ _ hvw hwu => hwu.trans hvw⟩

theorem mem_behind {row : ρ} :
    row ∈ behind key position rows ↔ row ∈ rows ∧ Behind key position row := by
  rw [behind, List.mem_insertionSort, List.mem_filter, decide_eq_true_iff]

theorem behind_sorted (h : (rows.map key).Nodup) :
    (behind key position rows).Pairwise fun v w => key w < key v := by
  have hkeys : ((behind key position rows).map key).Nodup := by
    have hperm := List.perm_insertionSort (fun v w => key w ≤ key v)
      (rows.filter fun row => Behind key position row)
    exact (hperm.map key).nodup_iff.mpr (h.sublist (List.filter_sublist.map key))
  have hle : (behind key position rows).Pairwise fun v w => key w ≤ key v :=
    List.pairwise_insertionSort _ _
  exact (hle.and (List.pairwise_map.mp hkeys)).imp fun hvw => lt_of_le_of_ne hvw.1 hvw.2.symm

/-- What is left out of a page is behind all of it. -/
theorem lt_of_mem_drop {sorted : List ρ} (h : sorted.Pairwise fun v w => key w < key v) {n : Nat}
    {v w : ρ} (hv : v ∈ sorted.take n) (hw : w ∈ sorted.drop n) : key w < key v := by
  rw [← List.take_append_drop n sorted] at h
  exact (List.pairwise_append.mp h).2.2 v hv w hw

/-- A page that is not the last one has a last row. -/
theorem getLast_take {sorted : List ρ} {limit : Nat} (hlimit : 0 < limit)
    (hmore : limit < sorted.length) : ∃ last, (sorted.take limit).getLast? = some last := by
  refine Option.isSome_iff_exists.mp (List.getLast?_isSome.mpr fun hnil => ?_)
  have hlength := congrArg List.length hnil
  rw [List.length_take, List.length_nil] at hlength
  omega

/-- The last row of a page has the least key. -/
theorem getLast_le {sorted : List ρ} (h : sorted.Pairwise fun v w => key w < key v) {last v : ρ}
    (hlast : sorted.getLast? = some last) (hv : v ∈ sorted) : key last ≤ key v := by
  obtain ⟨init, rfl⟩ := List.getLast?_eq_some_iff.mp hlast
  rcases List.mem_append.mp hv with hinit | heq
  · exact le_of_lt ((List.pairwise_append.mp h).2.2 v hinit last (List.mem_singleton_self last))
  · rw [List.mem_singleton.mp heq]

theorem lt_of_behind {v w : ρ} (hv : ¬Behind key position v) (hw : Behind key position w) :
    key w < key v := by
  cases position with
  | none => exact absurd trivial hv
  | some k => exact lt_of_lt_of_le hw (not_lt.mp hv)

namespace Traversal

variable {t : Traversal ρ κ} {limit : Nat}

theorem turn_finished (h : t.finished = true) : t.turn key limit rows = t := by
  rw [turn, if_pos h]

theorem turn_more (h : t.finished = false)
    (hmore : limit < (behind key t.position rows).length) :
    t.turn key limit rows
      = ⟨((behind key t.position rows).take limit).getLast?.map key,
        t.visited ++ (behind key t.position rows).take limit, false⟩ := by
  rw [turn, if_neg (by rw [h]; decide)]
  dsimp only
  rw [if_pos hmore]

theorem turn_last (h : t.finished = false)
    (hlast : ¬limit < (behind key t.position rows).length) :
    t.turn key limit rows
      = ⟨t.position, t.visited ++ behind key t.position rows, true⟩ := by
  rw [turn, if_neg (by rw [h]; decide)]
  dsimp only
  rw [if_neg hlast, List.take_of_length_le (Nat.not_lt.mp hlast)]

/-! ## Coverage -/

/-- What is visited is in order, and what is kept is visited or still to
come. -/
structure Covers (key : ρ → κ) (kept : ρ → Prop) (t : Traversal ρ κ) : Prop where
  sorted : t.visited.Pairwise fun v w => key w < key v
  passed : t.finished = false → ∀ v ∈ t.visited, ¬Behind key t.position v
  covered : ∀ v, kept v → v ∈ t.visited ∨ (t.finished = false ∧ Behind key t.position v)

theorem Covers.start (kept : ρ → Prop) : Covers key kept (start : Traversal ρ κ) where
  sorted := List.Pairwise.nil
  passed := fun _ _ hv => absurd hv List.not_mem_nil
  covered := fun _ _ => .inr ⟨rfl, trivial⟩

theorem Covers.nodup {kept : ρ → Prop} (h : Covers key kept t) : t.visited.Nodup := by
  refine h.sorted.imp fun hlt heq => ?_
  rw [heq] at hlt
  exact lt_irrefl _ hlt

/-- **A page keeps the order and misses nothing** that is kept. -/
theorem Covers.turn {kept : ρ → Prop} (h : Covers key kept t) (hlimit : 0 < limit)
    (hrows : (rows.map key).Nodup) (hkept : ∀ v, kept v → v ∈ rows) :
    Covers key kept (t.turn key limit rows) := by
  cases hfinished : t.finished with
  | true => rw [turn_finished hfinished]; exact h
  | false =>
    have hsorted := @behind_sorted _ _ _ _ t.position _ hrows
    -- a row behind the position is behind all that is visited
    have hbehind : ∀ v ∈ t.visited, ∀ w ∈ behind key t.position rows, key w < key v :=
      fun v hv w hw => lt_of_behind (h.passed hfinished v hv) (mem_behind.mp hw).2
    by_cases hmore : limit < (behind key t.position rows).length
    · rw [turn_more hfinished hmore]
      have hpage := hsorted.sublist (List.take_sublist limit _)
      obtain ⟨last, hlast⟩ := getLast_take hlimit hmore
      have hlastMem := List.mem_of_getLast? hlast
      refine ⟨List.pairwise_append.mpr ⟨h.sorted, hpage, fun v hv w hw =>
        hbehind v hv w (List.mem_of_mem_take hw)⟩, fun _ v hv => ?_, fun v hv => ?_⟩
      · rw [hlast]
        rcases List.mem_append.mp hv with hold | hnew
        · exact not_lt.mpr (le_of_lt (hbehind v hold last (List.mem_of_mem_take hlastMem)))
        · exact not_lt.mpr (getLast_le hpage hlast hnew)
      · rw [hlast]
        rcases h.covered v hv with hvisited | ⟨-, hcoming⟩
        · exact .inl (List.mem_append_left _ hvisited)
        · have hv' := mem_behind.mpr ⟨hkept v hv, hcoming⟩
          rw [← List.take_append_drop limit (behind key t.position rows)] at hv'
          rcases List.mem_append.mp hv' with hin | hout
          · exact .inl (List.mem_append_right _ hin)
          · exact .inr ⟨rfl, lt_of_mem_drop hsorted hlastMem hout⟩
    · rw [turn_last hfinished hmore]
      refine ⟨List.pairwise_append.mpr ⟨h.sorted, hsorted, hbehind⟩, ?_, fun v hv => .inl ?_⟩
      · intro hfalse
        exact absurd (show true = false from hfalse) (by decide)
      · rcases h.covered v hv with hvisited | ⟨-, hcoming⟩
        · exact List.mem_append_left _ hvisited
        · exact List.mem_append_right _ (mem_behind.mpr ⟨hkept v hv, hcoming⟩)

/-- Fewer rows are kept as rows disappear. -/
theorem Covers.mono {kept kept' : ρ → Prop} (h : Covers key kept t) (hle : ∀ v, kept' v → kept v) :
    Covers key kept' t :=
  ⟨h.sorted, h.passed, fun v hv => h.covered v (hle v hv)⟩

/-! ## The end -/

/-- What is visited is among the first rows, at least one row for each page. -/
structure Within (first : List ρ) (turns : Nat) (t : Traversal ρ κ) : Prop where
  among : ∀ v ∈ t.visited, v ∈ first
  advanced : t.finished = false → turns ≤ t.visited.length

omit [LinearOrder κ] in
theorem Within.start (first : List ρ) : Within first 0 (start : Traversal ρ κ) where
  among := fun _ hv => absurd hv List.not_mem_nil
  advanced := fun _ => Nat.zero_le _

/-- **A page advances** when no new row is behind the position. -/
theorem Within.turn {first : List ρ} {turns : Nat} (h : Within first turns t) (hlimit : 0 < limit)
    (hrows : t.finished = false → ∀ v ∈ rows, Behind key t.position v → v ∈ first) :
    Within first (turns + 1) (t.turn key limit rows) := by
  cases hfinished : t.finished with
  | true =>
    rw [turn_finished hfinished]
    exact ⟨h.among, fun hfalse => absurd (hfinished.symm.trans hfalse) (by decide)⟩
  | false =>
    have hold : ∀ v ∈ behind key t.position rows, v ∈ first :=
      fun v hv => hrows hfinished v (mem_behind.mp hv).1 (mem_behind.mp hv).2
    by_cases hmore : limit < (behind key t.position rows).length
    · rw [turn_more hfinished hmore]
      refine ⟨fun v hv => ?_, fun _ => ?_⟩
      · rcases List.mem_append.mp hv with hvisited | hnew
        · exact h.among v hvisited
        · exact hold v (List.mem_of_mem_take hnew)
      · have hadvanced := h.advanced hfinished
        rw [List.length_append, List.length_take]
        omega
    · rw [turn_last hfinished hmore]
      refine ⟨fun v hv => ?_, fun hfalse => absurd (show true = false from hfalse) (by decide)⟩
      rcases List.mem_append.mp hv with hvisited | hnew
      · exact h.among v hvisited
      · exact hold v hnew

/-- **A traversal ends** after more pages than there were rows at first. -/
theorem Within.finished {kept : ρ → Prop} {first : List ρ} {turns : Nat}
    (h : Within first turns t) (hcovers : Covers key kept t) (hmany : first.length < turns) :
    t.finished = true := by
  by_contra hmore
  have hlength := (List.subperm_of_subset hcovers.nodup h.among).length_le
  have hadvanced := h.advanced (by rw [Bool.not_eq_true] at hmore; exact hmore)
  omega

end Traversal

end Keyset
