import UsbVault.Lib.Expiring

/-!
# Leases

A lock that is an expiring key: a party that finds no value sets its own, and
prolongs it for as long as it needs the lock. That a party relies on the lock
says nothing to the store, so the two must be kept together: `Backed` says that
every party that relies on the lock is found in it, and then there is at most
one such party (`Backed.unique`). Each operation keeps this; the passing of
time does just when the lock does not run out under a party that relies on it
(`Backed.later_iff`).
-/

namespace Expiring.Keys

variable {κ ν : Type} {m : Keys κ ν} {now now' ttl : Nat} {k : κ} {v w : ν} {R R' : ν → Prop}

/-! ## Operations -/

/-- The value is set when none is found, and whether it was. -/
def setNX [DecidableEq κ] (m : Keys κ ν) (now ttl : Nat) (k : κ) (v : ν) : Bool × Keys κ ν :=
  match m.get now k with
  | some _ => (false, m)
  | none => (true, m.set now ttl k v)

/-- The value that is found is kept for longer. -/
def expire [DecidableEq κ] (m : Keys κ ν) (now ttl : Nat) (k : κ) : Keys κ ν :=
  match m.get now k with
  | some v => m.set now ttl k v
  | none => m

theorem get_set_self [DecidableEq κ] : (m.set now ttl k v).get now k = some v :=
  get_eq_some.mpr ⟨now + ttl, entry_set_self, Nat.le_add_right now ttl⟩

theorem setNX_of_some [DecidableEq κ] (h : m.get now k = some w) :
    m.setNX now ttl k v = (false, m) := by
  simp only [setNX, h]

theorem setNX_of_none [DecidableEq κ] (h : m.get now k = none) :
    m.setNX now ttl k v = (true, m.set now ttl k v) := by
  simp only [setNX, h]

theorem expire_of_some [DecidableEq κ] (h : m.get now k = some v) :
    m.expire now ttl k = m.set now ttl k v := by
  simp only [expire, h]

theorem expire_of_none [DecidableEq κ] (h : m.get now k = none) : m.expire now ttl k = m := by
  simp only [expire, h]

theorem get_expire [DecidableEq κ] : (m.expire now ttl k).get now k = m.get now k := by
  cases hget : m.get now k with
  | none => rw [expire_of_none hget, hget]
  | some v => rw [expire_of_some hget, get_set_self]

/-- A key that has run out is not found. -/
theorem get_of_runOut (h : m.RunOut now k) : m.get now k = none := by
  obtain ⟨⟨v, last⟩, hentry, hlt⟩ := h
  cases hget : m.get now k with
  | none => rfl
  | some w =>
    obtain ⟨last', hentry', hle⟩ := get_eq_some.mp hget
    rw [hentry] at hentry'
    cases hentry'
    exact absurd hle (Nat.not_le_of_lt hlt)

/-! ## Parties that rely on the lock -/

/-- Every party that relies on the lock is found in it. -/
def Backed (R : ν → Prop) (m : Keys κ ν) (now : Nat) (k : κ) : Prop :=
  ∀ v, R v → m.get now k = some v

theorem Backed.unique (h : Backed R m now k) (hv : R v) (hw : R w) : v = w := by
  have hfound := h v hv
  rw [h w hw] at hfound
  exact (Option.some.inj hfound).symm

/-- Fewer parties, or another lock in which the same are found. -/
theorem Backed.mono {m' : Keys κ ν} (h : Backed R m now k) (hR : ∀ v, R' v → R v)
    (hget : m'.get now k = m.get now k) : Backed R' m' now k := by
  intro v hv
  rw [hget]
  exact h v (hR v hv)

/-- While no value is found, nobody relies on the lock. -/
theorem Backed.not_of_none (h : Backed R m now k) (hget : m.get now k = none) (v : ν) :
    ¬R v := by
  intro hv
  rw [h v hv] at hget
  cases hget

/-- A party that sets its value may rely on the lock. -/
theorem Backed.setNX [DecidableEq κ] (h : Backed R m now k)
    (hset : (m.setNX now ttl k v).1 = true) (hR : ∀ w, R' w → w = v ∨ R w) :
    Backed R' (m.setNX now ttl k v).2 now k := by
  intro w hw
  cases hget : m.get now k with
  | some u =>
    rw [setNX_of_some hget] at hset
    cases hset
  | none =>
    rw [setNX_of_none hget]
    rcases hR w hw with rfl | hold
    · exact get_set_self
    · exact absurd hold (h.not_of_none hget w)

/-- A party that does not rely on the lock any more may delete it. -/
theorem Backed.delete [DecidableEq κ] (h : Backed R m now k) (hv : R v)
    (hR : ∀ w, R' w → R w ∧ w ≠ v) : Backed R' (m.delete k) now k := by
  intro w hw
  obtain ⟨hold, hne⟩ := hR w hw
  exact absurd (h.unique hold hv) hne

/-- **Time passes**: the lock may run out under nobody that relies on it. -/
theorem Backed.later_iff (h : Backed R m now k) :
    Backed R m now' k ↔ ∀ e ∈ m.entry k, e.2 < now' → ¬R e.1 := by
  constructor
  · intro hlater e he hlt hrelies
    have hgone := get_of_runOut ⟨e, he, hlt⟩
    rw [hlater e.1 hrelies] at hgone
    cases hgone
  · intro hkeeps v hv
    obtain ⟨last, hentry, -⟩ := get_eq_some.mp (h v hv)
    refine get_eq_some.mpr ⟨last, hentry, ?_⟩
    by_contra hlt
    exact hkeeps (v, last) hentry (Nat.lt_of_not_le hlt) hv

end Expiring.Keys
