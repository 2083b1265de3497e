import UsbVault.Lib.Bytes
import UsbVault.Lib.MergeTree
import Mathlib.Data.List.Lex
import Mathlib.Data.Prod.Lex

/-!
# Last-writer-wins registers

The registers of multi-device sync and their merge. The merge is the pick
of the greater stamp (timestamp, then node), the local register on a tie:
it is associative and idempotent, and two replicas agree on a collection
exactly when its registers with the greatest stamp are all the same. The
Lamport counter takes no part in the merge.
-/

namespace UsbVault.Sync

open Wire

/-- `LWWRegister`. A Go string is its bytes, and compares as they do. -/
structure LWWRegister where
  value : Bytes
  timestamp : Int64
  nodeID : Bytes
  counter : UInt64
  deriving DecidableEq, Repr

/-- `MergeRegisters`: higher timestamp wins, NodeID breaks ties. -/
def mergeRegisters (local' remote : LWWRegister) : LWWRegister :=
  if remote.timestamp > local'.timestamp then remote
  else if local'.timestamp > remote.timestamp then local'
  else if remote.nodeID > local'.nodeID then remote
  else local'

/-! ## The order of the stamps -/

instance byteOrder : LinearOrder UInt8 where
  le_refl := UInt8.le_refl
  le_trans _ _ _ := UInt8.le_trans
  le_antisymm _ _ := UInt8.le_antisymm
  le_total := UInt8.le_total
  lt_iff_le_not_ge a b := by
    rw [UInt8.lt_iff_toNat_lt, UInt8.le_iff_toNat_le, UInt8.le_iff_toNat_le]
    omega
  toDecidableLE := inferInstance
  toDecidableLT := inferInstance

/-- What the merge compares: the timestamp, then the node. -/
def LWWRegister.stamp (r : LWWRegister) : Lex (Int × Bytes) :=
  toLex (r.timestamp.toInt, r.nodeID)

theorem stamp_lt {r s : LWWRegister} :
    r.stamp < s.stamp ↔
      r.timestamp < s.timestamp ∨ r.timestamp = s.timestamp ∧ r.nodeID < s.nodeID := by
  rw [LWWRegister.stamp, LWWRegister.stamp, Prod.Lex.toLex_lt_toLex, Int64.lt_iff_toInt_lt,
    Int64.toInt_inj]

theorem stamp_eq {r s : LWWRegister} :
    r.stamp = s.stamp ↔ r.timestamp = s.timestamp ∧ r.nodeID = s.nodeID := by
  rw [LWWRegister.stamp, LWWRegister.stamp, toLex_inj, Prod.mk.injEq, Int64.toInt_inj]

/-- **The merge is the pick of the greater stamp.** -/
theorem mergeRegisters_eq (r s : LWWRegister) :
    mergeRegisters r s = Merge.pick LWWRegister.stamp r s := by
  rw [mergeRegisters, Merge.pick]
  simp only [stamp_lt, gt_iff_lt]
  by_cases hlt : r.timestamp < s.timestamp
  · rw [if_pos hlt, if_pos (.inl hlt)]
  by_cases hgt : s.timestamp < r.timestamp
  · have hne : r.timestamp ≠ s.timestamp := fun he => hlt (he ▸ hgt)
    rw [if_neg hlt, if_pos hgt, if_neg (by rintro (h | ⟨h, -⟩) <;> contradiction)]
  -- neither timestamp is greater: they are equal, and the node decides
  have heq : r.timestamp = s.timestamp := by
    rw [Int64.lt_iff_toInt_lt] at hlt hgt
    exact Int64.toInt_inj.mp (by omega)
  rw [if_neg hlt, if_neg hgt]
  simp only [heq, true_and, Int64.lt_irrefl, false_or]

theorem mergeRegisters_eq_pick : mergeRegisters = Merge.pick LWWRegister.stamp :=
  funext fun r => funext fun s => mergeRegisters_eq r s

theorem mergeRegisters_assoc (r s t : LWWRegister) :
    mergeRegisters (mergeRegisters r s) t = mergeRegisters r (mergeRegisters s t) := by
  rw [mergeRegisters_eq_pick, Merge.pick_assoc]

theorem mergeRegisters_self (r : LWWRegister) : mergeRegisters r r = r := by
  rw [mergeRegisters_eq, Merge.pick_self]

/-! ## Convergence -/

/-- Replicas that fold the merge over the collection, in any order, with any
grouping and any duplication, all end with the same register. -/
def RegistersConverge (S : Multiset LWWRegister) : Prop := Merge.Converges mergeRegisters S

/-- Two registers of the collection that share its greatest timestamp and
node are the same register. -/
def GreatestStampUnique (S : Multiset LWWRegister) : Prop :=
  ∀ r ∈ S, ∀ s ∈ S, (∀ t ∈ S, t.stamp ≤ r.stamp) →
    r.timestamp = s.timestamp → r.nodeID = s.nodeID → r = s

theorem greatestStampUnique_iff {S : Multiset LWWRegister} :
    GreatestStampUnique S ↔
      ∀ r s, Merge.Top LWWRegister.stamp S r → Merge.Top LWWRegister.stamp S s → r = s := by
  constructor
  · intro h r s hr hs
    have hstamp : r.stamp = s.stamp := le_antisymm (hs.2 r hr.1) (hr.2 s hs.1)
    obtain ⟨htime, hnode⟩ := stamp_eq.mp hstamp
    exact h r hr.1 s hs.1 hr.2 htime hnode
  · intro h r hr s hs htop htime hnode
    have hstamp : r.stamp = s.stamp := stamp_eq.mpr ⟨htime, hnode⟩
    exact h r s ⟨hr, htop⟩ ⟨hs, fun t ht => hstamp ▸ htop t ht⟩

/-- **Convergence of the registers**: the merge is associative and
idempotent; two registers commute unless they differ under one stamp; and a
collection converges exactly when its greatest stamp is one register's. -/
theorem mergeRegisters_converges_iff (S : Multiset LWWRegister) :
    (∀ r s t, mergeRegisters (mergeRegisters r s) t = mergeRegisters r (mergeRegisters s t)) ∧
    (∀ r, mergeRegisters r r = r) ∧
    (∀ r s, mergeRegisters r s = mergeRegisters s r ↔
      (r.timestamp = s.timestamp → r.nodeID = s.nodeID → r = s)) ∧
    (RegistersConverge S ↔ GreatestStampUnique S) := by
  refine ⟨mergeRegisters_assoc, mergeRegisters_self, fun r s => ?_, ?_⟩
  · rw [mergeRegisters_eq, mergeRegisters_eq, Merge.pick_comm_iff, stamp_eq, and_imp]
  · rw [RegistersConverge, mergeRegisters_eq_pick, Merge.converges_pick_iff,
      greatestStampUnique_iff]

/-- One node writes twice within one nanosecond. -/
def sampleWrite (value : UInt8) (counter : UInt64) : LWWRegister :=
  { value := [value], timestamp := 1700000000000000000, nodeID := ascii "phone", counter := counter }

/-- Each of two replicas keeps the write it has seen first. -/
theorem mergeRegisters_tie_diverges :
    mergeRegisters (sampleWrite 1 7) (sampleWrite 2 8) ≠
        mergeRegisters (sampleWrite 2 8) (sampleWrite 1 7) ∧
      ¬ RegistersConverge {sampleWrite 1 7, sampleWrite 2 8} := by
  have hne : mergeRegisters (sampleWrite 1 7) (sampleWrite 2 8) ≠
      mergeRegisters (sampleWrite 2 8) (sampleWrite 1 7) := by decide
  refine ⟨hne, fun hconv => hne ?_⟩
  refine hconv (.node (.leaf (sampleWrite 1 7)) (.leaf (sampleWrite 2 8)))
    (.node (.leaf (sampleWrite 2 8)) (.leaf (sampleWrite 1 7))) (fun r => ?_) fun r => ?_
  · simp [Merge.Tree.leaves]
  · simp [Merge.Tree.leaves, or_comm]

end UsbVault.Sync
