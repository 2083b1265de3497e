import UsbVault.Sync.ORSet
import Mathlib.Order.Bounds.Basic
import Mathlib.Order.Lattice

/-!
# Vector clocks

The clocks of multi-device sync: counters of nodes, a missing node counting
as zero. Only these counts matter to the comparison, so a clock is before
another exactly when its counts are below in the pointwise order
(`happensBefore_iff`), and the counts of a merge are the supremum
(`component_merge`). `Concurrent` is the absence of an order, which equal
clocks have as well.
-/

namespace UsbVault.Sync

open Wire

/-- `VectorClock`. -/
abbrev VectorClock := GoMap Bytes UInt64

namespace VectorClock

/-- The second loop of `Merge`: the maximum of an entry and what is there. -/
def takeMaximum (result : VectorClock) (node : Bytes) (counter : UInt64) : VectorClock :=
  match result.lookup node with
  | some existingCounter => if counter > existingCounter then result.insert node counter else result
  | none => result.insert node counter

/-- `Merge`: element-wise max. -/
def merge (vc other : VectorClock) : VectorClock :=
  let result := vc.foldl (fun result node counter => result.insert node counter) ∅
  other.foldl takeMaximum result

/-- A round of the first loop of `HappensBefore`; `none` returns false. -/
def compareNode (other : VectorClock) (hasStrictlyLess : Bool) (node : Bytes) (counter : UInt64) :
    Option Bool :=
  match other.lookup node with
  | none => if counter > 0 then none else some hasStrictlyLess
  | some otherCounter =>
    if counter > otherCounter then none
    else if counter < otherCounter then some true
    else some hasStrictlyLess

/-- `HappensBefore`. -/
def happensBefore (vc other : VectorClock) : Bool :=
  match vc.entries.foldlM (fun less e => compareNode other less e.1 e.2) false with
  | none => false
  | some less =>
    other.entries.foldl
      (fun less e => if vc.lookup e.1 = none ∧ e.2 > 0 then true else less) less

/-- `Increment`. -/
def increment (vc : VectorClock) (nodeID : Bytes) : VectorClock :=
  vc.insert nodeID ((vc.lookup nodeID).getD 0 + 1)

/-- `Concurrent`. -/
def concurrent (vc other : VectorClock) : Bool :=
  !(vc.happensBefore other || other.happensBefore vc)

/-- How far a node has counted; a missing node has not. -/
def component (vc : VectorClock) (node : Bytes) : Nat := ((vc.lookup node).getD 0).toNat

variable {a b c : VectorClock} {node : Bytes} {counter : UInt64}

theorem component_of_lookup (h : a.lookup node = some counter) :
    a.component node = counter.toNat := by
  rw [component, h]
  rfl

theorem component_of_none (h : a.lookup node = none) : a.component node = 0 := by
  rw [component, h]
  rfl

theorem component_insert_self : VectorClock.component (a.insert node counter) node
    = counter.toNat :=
  component_of_lookup (AList.lookup_insert _)

theorem component_insert_ne {node' : Bytes} (h : node' ≠ node) :
    VectorClock.component (a.insert node counter) node' = a.component node' := by
  rw [component, component, AList.lookup_insert_ne h]

theorem mem_entries {e : Sigma fun _ : Bytes => UInt64} :
    e ∈ a.entries ↔ a.lookup e.1 = some e.2 :=
  AList.mem_lookup_iff.symm

theorem component_of_mem {e : Sigma fun _ : Bytes => UInt64} (h : e ∈ a.entries) :
    a.component e.1 = e.2.toNat :=
  component_of_lookup (mem_entries.mp h)

/-! ## The comparison -/

/-- A round returns when the node has counted further; otherwise it finds
out whether the node has counted less far. -/
theorem compareNode_eq (less : Bool) :
    compareNode b less node counter
      = if b.component node < counter.toNat then none
        else some (less || decide (counter.toNat < b.component node)) := by
  rw [compareNode]
  cases hlookup : b.lookup node with
  | none =>
    have hzero : ((0 : UInt64) < counter) ↔ 0 < counter.toNat := UInt64.lt_iff_toNat_lt
    simp only [component_of_none hlookup, gt_iff_lt, hzero, Nat.not_lt_zero, decide_false,
      Bool.or_false]
  | some otherCounter =>
    simp only [component_of_lookup hlookup, gt_iff_lt, UInt64.lt_iff_toNat_lt]
    split
    · rfl
    · split
      · rename_i hlt
        simp [hlt]
      · rename_i hlt
        simp [hlt]

theorem foldlM_compareNode (entries : List (Sigma fun _ : Bytes => UInt64)) :
    ∀ less, entries.foldlM (fun less e => compareNode b less e.1 e.2) less
      = if ∃ e ∈ entries, b.component e.1 < e.2.toNat then none
        else some (less || decide (∃ e ∈ entries, e.2.toNat < b.component e.1)) := by
  induction entries with
  | nil => intro less; simp
  | cons e entries ih =>
    intro less
    rw [List.foldlM_cons, compareNode_eq]
    by_cases hlt : b.component e.1 < e.2.toNat
    · simp [hlt]
    · rw [if_neg hlt, Option.bind_eq_bind, Option.bind_some, ih]
      simp only [List.exists_mem_cons_iff, hlt, false_or, Bool.decide_or, Bool.or_assoc]

theorem foldl_missing (entries : List (Sigma fun _ : Bytes => UInt64)) :
    ∀ less : Bool, entries.foldl
        (fun less e => if a.lookup e.1 = none ∧ e.2 > 0 then true else less) less
      = (less || decide (∃ e ∈ entries, a.lookup e.1 = none ∧ e.2 > 0)) := by
  induction entries with
  | nil => intro less; simp
  | cons e entries ih =>
    intro less
    rw [List.foldl_cons, ih]
    by_cases h : a.lookup e.1 = none ∧ e.2 > 0
    · simp [h]
    · rw [if_neg h]
      simp only [List.exists_mem_cons_iff, h, false_or]

/-- The first loop compares the nodes of the one clock; the others have not
counted. -/
theorem le_iff : a.component ≤ b.component ↔ ¬∃ e ∈ a.entries, b.component e.1 < e.2.toNat := by
  constructor
  · rintro hle ⟨e, he, hlt⟩
    have hcomponent : a.component e.1 ≤ b.component e.1 := hle e.1
    rw [component_of_mem he] at hcomponent
    omega
  · intro h node
    cases hlookup : a.lookup node with
    | none =>
      rw [component_of_none hlookup]
      exact Nat.zero_le _
    | some counter =>
      rw [component_of_lookup hlookup]
      by_contra hlt
      exact h ⟨⟨node, counter⟩, mem_entries.mpr hlookup, Nat.not_le.mp hlt⟩

/-- A node that has counted less far is one of the clock, or one that it
misses. -/
theorem exists_lt_iff :
    (∃ node, a.component node < b.component node)
      ↔ (∃ e ∈ a.entries, e.2.toNat < b.component e.1)
        ∨ ∃ e ∈ b.entries, a.lookup e.1 = none ∧ e.2 > 0 := by
  constructor
  · rintro ⟨node, hlt⟩
    cases hlookup : a.lookup node with
    | some counter =>
      rw [component_of_lookup hlookup] at hlt
      exact .inl ⟨⟨node, counter⟩, mem_entries.mpr hlookup, hlt⟩
    | none =>
      cases hother : b.lookup node with
      | none =>
        rw [component_of_none hother] at hlt
        exact absurd hlt (Nat.not_lt_zero _)
      | some counter =>
        rw [component_of_none hlookup, component_of_lookup hother] at hlt
        exact .inr ⟨⟨node, counter⟩, mem_entries.mpr hother, hlookup,
          UInt64.lt_iff_toNat_lt.mpr hlt⟩
  · rintro (⟨e, he, hlt⟩ | ⟨e, he, hlookup, hpos⟩)
    · exact ⟨e.1, by rwa [component_of_mem he]⟩
    · refine ⟨e.1, ?_⟩
      rw [component_of_none hlookup, component_of_mem he]
      exact UInt64.lt_iff_toNat_lt.mp hpos

/-- **`HappensBefore` is the pointwise order of the counts.** -/
theorem happensBefore_iff : a.happensBefore b = true ↔ a.component < b.component := by
  rw [Pi.lt_def, le_iff, exists_lt_iff, happensBefore, foldlM_compareNode]
  by_cases hgreater : ∃ e ∈ a.entries, b.component e.1 < e.2.toNat
  · rw [if_pos hgreater]
    exact iff_of_false (by simp) fun h => h.1 hgreater
  · rw [if_neg hgreater]
    simp only [foldl_missing, Bool.false_or, Bool.or_eq_true, decide_eq_true_eq]
    exact (and_iff_right hgreater).symm

/-! ## The merge -/

/-- What a merge has for a node, of what its arguments have. -/
def mergeCounter : Option UInt64 → Option UInt64 → Option UInt64
  | some counter, some other => some (if other > counter then other else counter)
  | some counter, none => some counter
  | none, other => other

theorem mergeCounter_toNat (x y : Option UInt64) :
    ((mergeCounter x y).getD 0).toNat = max ((x.getD 0).toNat) ((y.getD 0).toNat) := by
  cases x with
  | none => simp [mergeCounter]
  | some counter =>
    cases y with
    | none => simp [mergeCounter]
    | some other =>
      simp only [mergeCounter, Option.getD_some, gt_iff_lt, UInt64.lt_iff_toNat_lt]
      split <;> omega

theorem mergeCounter_comm (x y : Option UInt64) : mergeCounter x y = mergeCounter y x := by
  cases x with
  | none => cases y <;> rfl
  | some counter =>
    cases y with
    | none => rfl
    | some other =>
      simp only [mergeCounter, Option.some.injEq, gt_iff_lt, ← UInt64.toNat_inj,
        apply_ite UInt64.toNat, UInt64.lt_iff_toNat_lt]
      split_ifs <;> omega

theorem mergeCounter_assoc (x y z : Option UInt64) :
    mergeCounter (mergeCounter x y) z = mergeCounter x (mergeCounter y z) := by
  cases x with
  | none => cases y <;> rfl
  | some counter =>
    cases y with
    | none => rfl
    | some other =>
      cases z with
      | none => rfl
      | some third =>
        simp only [mergeCounter, Option.some.injEq, gt_iff_lt, ← UInt64.toNat_inj,
          apply_ite UInt64.toNat, UInt64.lt_iff_toNat_lt]
        split_ifs <;> omega

theorem mergeCounter_self (x : Option UInt64) : mergeCounter x x = x := by
  cases x with
  | none => rfl
  | some counter => simp [mergeCounter]

theorem lookup_takeMaximum {node' : Bytes} :
    (takeMaximum a node counter).lookup node'
      = if node' = node then mergeCounter (a.lookup node) (some counter) else a.lookup node' := by
  rw [takeMaximum]
  by_cases hnode : node' = node
  · subst hnode
    rw [if_pos rfl]
    cases hlookup : a.lookup node' with
    | none =>
      dsimp only
      rw [AList.lookup_insert]
      rfl
    | some existing =>
      dsimp only [mergeCounter]
      split
      · exact AList.lookup_insert _
      · exact hlookup
  · rw [if_neg hnode]
    cases a.lookup node with
    | none => exact AList.lookup_insert_ne hnode
    | some existing =>
      dsimp only
      split
      · exact AList.lookup_insert_ne hnode
      · rfl

theorem lookup_foldl {f : VectorClock → Bytes → UInt64 → VectorClock}
    {g : Option UInt64 → Option UInt64 → Option UInt64} (hnone : ∀ x, g x none = x)
    (hf : ∀ (a : VectorClock) node counter node', (f a node counter).lookup node'
      = if node' = node then g (a.lookup node) (some counter) else a.lookup node')
    (b : VectorClock) (node : Bytes) :
    ∀ a : VectorClock, (b.foldl f a).lookup node = g (a.lookup node) (b.lookup node) := by
  obtain ⟨entries, hkeys⟩ := b
  show ∀ a : VectorClock, (entries.foldl (fun a e => f a e.1 e.2) a).lookup node
    = g (a.lookup node) (entries.dlookup node)
  induction entries with
  | nil => intro a; exact (hnone _).symm
  | cons e entries ih =>
    intro a
    obtain ⟨key, counter⟩ := e
    rw [List.nodupKeys_cons] at hkeys
    rw [List.foldl_cons, ih hkeys.2, hf]
    by_cases hnode : node = key
    · subst hnode
      rw [if_pos rfl, List.dlookup_cons_eq, List.dlookup_eq_none.mpr hkeys.1, hnone]
    · rw [if_neg hnode, List.dlookup_cons_ne _ _ hnode]

theorem lookup_merge (node : Bytes) :
    (a.merge b).lookup node = mergeCounter (a.lookup node) (b.lookup node) := by
  have hnone : ∀ x, mergeCounter x none = x := by
    intro x
    cases x <;> rfl
  rw [merge, lookup_foldl hnone fun a node counter node' => lookup_takeMaximum]
  congr 1
  -- the copy of the first clock
  rw [lookup_foldl (g := fun x y => y.or x) (fun x => rfl) ?_]
  · simp
  · intro a node counter node'
    split
    · rename_i heq
      rw [heq, AList.lookup_insert]
      rfl
    · rename_i hne
      exact AList.lookup_insert_ne hne

/-- **The counts of a merge are the supremum.** -/
theorem component_merge : (a.merge b).component = a.component ⊔ b.component := by
  funext node
  rw [component, lookup_merge, mergeCounter_toNat]
  rfl

/-- Two Go maps that hold the same. -/
def Same (a b : VectorClock) : Prop := ∀ node, a.lookup node = b.lookup node

/-- **The causal order**: `HappensBefore` holds exactly when a clock is
pointwise below another and differs from it, and so is a strict order;
`Merge` is the least upper bound, commutative, associative and idempotent;
`Concurrent` is symmetric and holds exactly when there is no order, of equal
clocks as well. -/
theorem causal_order :
    (∀ a b : VectorClock, a.happensBefore b = true
        ↔ (∀ node, a.component node ≤ b.component node) ∧ a.component ≠ b.component)
      ∧ (∀ a : VectorClock, a.happensBefore a = false)
      ∧ (∀ a b c : VectorClock, a.happensBefore b = true → b.happensBefore c = true →
        a.happensBefore c = true)
      ∧ (∀ a b : VectorClock, IsLUB {a.component, b.component} (a.merge b).component)
      ∧ (∀ a b : VectorClock, Same (a.merge b) (b.merge a))
      ∧ (∀ a b c : VectorClock, Same ((a.merge b).merge c) (a.merge (b.merge c)))
      ∧ (∀ a : VectorClock, Same (a.merge a) a)
      ∧ (∀ a b : VectorClock, a.concurrent b = b.concurrent a)
      ∧ ∀ a b : VectorClock, a.concurrent b = true
        ↔ a.happensBefore b = false ∧ b.happensBefore a = false := by
  refine ⟨?_, ?_, ?_, ?_, ?_, ?_, ?_, ?_, ?_⟩
  · intro a b
    rw [happensBefore_iff, lt_iff_le_and_ne]
    rfl
  · intro a
    rw [Bool.eq_false_iff, ne_eq, happensBefore_iff]
    exact lt_irrefl _
  · intro a b c hab hbc
    rw [happensBefore_iff] at hab hbc ⊢
    exact lt_trans hab hbc
  · intro a b
    rw [component_merge]
    exact isLUB_pair
  · intro a b node
    rw [lookup_merge, lookup_merge, mergeCounter_comm]
  · intro a b c node
    simp only [lookup_merge, mergeCounter_assoc]
  · intro a node
    rw [lookup_merge, mergeCounter_self]
  · intro a b
    rw [concurrent, concurrent, Bool.or_comm]
  · intro a b
    rw [concurrent, Bool.not_eq_true', Bool.or_eq_false_iff]

/-- A clock of one node. -/
def samplePhone : VectorClock := AList.singleton (ascii "phone") 1

/-- **Equal clocks are concurrent.** -/
theorem concurrent_self :
    samplePhone.concurrent samplePhone = true
      ∧ ¬∀ a b : VectorClock, a.concurrent b = true → a.component ≠ b.component := by
  have hself : samplePhone.concurrent samplePhone = true := by decide +kernel
  exact ⟨hself, fun h => h _ _ hself rfl⟩

end VectorClock

end UsbVault.Sync
