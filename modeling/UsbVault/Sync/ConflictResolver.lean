import UsbVault.Sync.Registers
import UsbVault.Sync.VectorClock

/-!
# Conflict resolution

`ResolveConflict`: one of the two registers is issued, the one that
`MergeRegisters` picks, and the clock of the user takes a step for the local
node. That clock jumps to the counter of the remote register when it is
greater and counts one otherwise, so it moves forward
(`resolveConflict_advances`), as long as the counter of the node has not come to
the end of its 64 bits.
-/

namespace UsbVault.Sync

open Wire

/-- `ConflictResolver`: userID -> vector clock. -/
structure ConflictResolver where
  clocks : GoMap Bytes VectorClock

namespace ConflictResolver

/-- The clock of a user, made when it is missing. -/
def userClock (cr : ConflictResolver) (userID : Bytes) : VectorClock :=
  (cr.clocks.lookup userID).getD ∅

/-- The update of the vector clock for this node. -/
def advance (userClock : VectorClock) (nodeID : Bytes) (remote : LWWRegister) : VectorClock :=
  if remote.counter > (userClock.lookup nodeID).getD 0 then userClock.insert nodeID remote.counter
  else userClock.increment nodeID

/-- `ResolveConflict`: the resolved register and whether a conflict was
detected. -/
def resolveConflict (cr : ConflictResolver) (userID nodeID : Bytes) (local' remote : LWWRegister) :
    ConflictResolver × LWWRegister × Bool :=
  let isConflict := local'.timestamp = remote.timestamp ∧ local'.nodeID ≠ remote.nodeID
  let resolved := mergeRegisters local' remote
  let userClock := advance (cr.userClock userID) nodeID remote
  (⟨cr.clocks.insert userID userClock⟩, resolved, isConflict)

variable {cr : ConflictResolver} {userID nodeID : Bytes} {local' remote : LWWRegister}

theorem userClock_resolveConflict (other : Bytes) :
    (cr.resolveConflict userID nodeID local' remote).1.userClock other
      = if other = userID then advance (cr.userClock userID) nodeID remote
        else cr.userClock other := by
  dsimp only [resolveConflict, userClock]
  split
  · rename_i heq
    rw [heq, AList.lookup_insert, Option.getD_some]
  · rename_i hne
    rw [AList.lookup_insert_ne hne]

/-! ## The clock -/

variable {vc : VectorClock}

/-- The node has a count left. -/
def CanCount (vc : VectorClock) (nodeID : Bytes) : Prop := vc.component nodeID < 2 ^ 64 - 1

instance : Decidable (CanCount vc nodeID) := inferInstanceAs (Decidable (_ < _))

theorem component_advance_ne {other : Bytes} (h : other ≠ nodeID) :
    (advance vc nodeID remote).component other = vc.component other := by
  rw [advance]
  split
  · exact VectorClock.component_insert_ne h
  · exact VectorClock.component_insert_ne h

theorem component_advance (h : CanCount vc nodeID) :
    (advance vc nodeID remote).component nodeID
      = max remote.counter.toNat (vc.component nodeID + 1) := by
  have hlt : ((vc.lookup nodeID).getD 0).toNat < 2 ^ 64 - 1 := h
  rw [advance]
  split
  · rename_i hgreater
    have hcounter : vc.component nodeID < remote.counter.toNat :=
      UInt64.lt_iff_toNat_lt.mp hgreater
    rw [VectorClock.component_insert_self]
    omega
  · rename_i hle
    have hcounter : remote.counter.toNat ≤ vc.component nodeID :=
      Nat.not_lt.mp fun h => hle (UInt64.lt_iff_toNat_lt.mpr h)
    -- the counter does not overflow
    have hone : ((vc.lookup nodeID).getD 0 + 1).toNat = ((vc.lookup nodeID).getD 0).toNat + 1 := by
      rw [UInt64.toNat_add, UInt64.toNat_one, Nat.mod_eq_of_lt (by omega)]
    rw [VectorClock.increment, VectorClock.component_insert_self, hone, ← VectorClock.component]
    omega

/-! ## Runs -/

/-! ## The register -/

theorem stamp_mergeRegisters :
    (mergeRegisters local' remote).stamp = max local'.stamp remote.stamp := by
  rw [mergeRegisters_eq]
  exact Merge.key_pick LWWRegister.stamp local' remote

/-- **A resolution moves the clock of the local node forward**, to the
remote counter when that is greater and by one otherwise, and no other
counter of any user; the register it issues is one of the two, and neither
of them compares later. -/
theorem resolveConflict_advances (cr : ConflictResolver) (userID nodeID : Bytes)
    (local' remote : LWWRegister) (hcount : CanCount (cr.userClock userID) nodeID) :
    let result := cr.resolveConflict userID nodeID local' remote
    (cr.userClock userID).component nodeID < (result.1.userClock userID).component nodeID
      ∧ (result.1.userClock userID).component nodeID
        = max remote.counter.toNat ((cr.userClock userID).component nodeID + 1)
      ∧ (∀ user node, user ≠ userID ∨ node ≠ nodeID →
        (result.1.userClock user).component node = (cr.userClock user).component node)
      ∧ (result.2.1 = local' ∨ result.2.1 = remote)
      ∧ local'.stamp ≤ result.2.1.stamp ∧ remote.stamp ≤ result.2.1.stamp := by
  dsimp only
  have hclock : ((cr.resolveConflict userID nodeID local' remote).1.userClock userID).component
      nodeID = max remote.counter.toNat ((cr.userClock userID).component nodeID + 1) := by
    rw [userClock_resolveConflict, if_pos rfl, component_advance hcount]
  have hstamp : (cr.resolveConflict userID nodeID local' remote).2.1.stamp
      = max local'.stamp remote.stamp := stamp_mergeRegisters
  refine ⟨?_, hclock, ?_, ?_, ?_, ?_⟩
  · rw [hclock]
    omega
  · intro user node hother
    rw [userClock_resolveConflict]
    split
    · rename_i heq
      subst heq
      rw [component_advance_ne (hother.resolve_left fun h => h rfl)]
    · rfl
  · show mergeRegisters local' remote = local' ∨ mergeRegisters local' remote = remote
    rw [mergeRegisters_eq, Merge.pick]
    exact (ite_eq_or_eq _ _ _).symm
  · rw [hstamp]
    exact le_max_left _ _
  · rw [hstamp]
    exact le_max_right _ _

/-- A write of the phone that the laptop learns of. -/
def sampleRemote : LWWRegister :=
  { value := [2], timestamp := 1700000000000000000, nodeID := ascii "phone", counter := 7 }

/-- What the laptop has written before. -/
def sampleLocal : LWWRegister :=
  { value := [1], timestamp := 1600000000000000000, nodeID := ascii "laptop", counter := 3 }

theorem resolveConflict_advances_sample :
    CanCount ((⟨∅⟩ : ConflictResolver).userClock (ascii "user")) (ascii "laptop")
      ∧ let result := (⟨∅⟩ : ConflictResolver).resolveConflict (ascii "user") (ascii "laptop")
          sampleLocal sampleRemote
        (result.1.userClock (ascii "user")).component (ascii "laptop") = 7 := by
  have hcount : CanCount ((⟨∅⟩ : ConflictResolver).userClock (ascii "user")) (ascii "laptop") := by
    decide +kernel
  have h := resolveConflict_advances ⟨∅⟩ (ascii "user") (ascii "laptop") sampleLocal sampleRemote
    hcount
  refine ⟨hcount, ?_⟩
  dsimp only
  rw [h.2.1]
  decide +kernel

/-- **The register issued is the remote one itself**, and compares no later
than it. -/
theorem resolveConflict_not_later :
    ((⟨∅⟩ : ConflictResolver).resolveConflict (ascii "user") (ascii "laptop") sampleLocal
        sampleRemote).2.1 = sampleRemote
      ∧ ¬∀ (cr : ConflictResolver) (userID nodeID : Bytes) (local' remote : LWWRegister),
        local'.stamp < (cr.resolveConflict userID nodeID local' remote).2.1.stamp
          ∧ remote.stamp < (cr.resolveConflict userID nodeID local' remote).2.1.stamp := by
  have hissued : ((⟨∅⟩ : ConflictResolver).resolveConflict (ascii "user") (ascii "laptop")
      sampleLocal sampleRemote).2.1 = sampleRemote := by decide +kernel
  refine ⟨hissued, fun h => ?_⟩
  have hlater := (h ⟨∅⟩ (ascii "user") (ascii "laptop") sampleLocal sampleRemote).2
  rw [hissued] at hlater
  exact lt_irrefl _ hlater

end ConflictResolver

end UsbVault.Sync
