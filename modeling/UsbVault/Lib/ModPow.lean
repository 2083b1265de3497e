import Mathlib.FieldTheory.Finite.Basic

/-!
# ModPow

Modular powers and differences on natural numbers, as big-integer
libraries compute them, and the laws a protocol over a prime field needs
of them: what they are in `ZMod n`, and that exponents only matter modulo
`p - 1`. Two residues are compared by comparing them in `ZMod n`.
-/

namespace ModPow

/-- `base ^ exponent mod modulus`. -/
def modpow (base exponent modulus : Nat) : Nat := base ^ exponent % modulus

/-- `a - b mod modulus` for a subtrahend below the modulus, without
negative numbers. -/
def subMod (a b modulus : Nat) : Nat :=
  if a ≥ b then (a - b) % modulus else (a + modulus - b) % modulus

variable {n p : Nat}

theorem modpow_lt (hn : 0 < n) (b e : Nat) : modpow b e n < n :=
  Nat.mod_lt _ hn

@[simp] theorem cast_modpow (b e n : Nat) :
    ((modpow b e n : Nat) : ZMod n) = (b : ZMod n) ^ e := by
  rw [modpow, ZMod.natCast_mod, Nat.cast_pow]

theorem cast_subMod {b : Nat} (hb : b ≤ n) (a : Nat) :
    ((subMod a b n : Nat) : ZMod n) = (a : ZMod n) - (b : ZMod n) := by
  unfold subMod
  split_ifs with hab
  · rw [ZMod.natCast_mod, Nat.cast_sub hab]
  · have hle : b ≤ a + n := Nat.le_trans hb (Nat.le_add_left n a)
    rw [ZMod.natCast_mod, Nat.cast_sub hle, Nat.cast_add, ZMod.natCast_self,
      add_zero]

/-- Residues are equal when they are equal in `ZMod n`. -/
theorem eq_of_cast_eq {a b : Nat} (ha : a < n) (hb : b < n)
    (h : (a : ZMod n) = (b : ZMod n)) : a = b := by
  rw [ZMod.natCast_eq_natCast_iff', Nat.mod_eq_of_lt ha,
    Nat.mod_eq_of_lt hb] at h
  exact h

/-- A number the prime does not divide is not zero in the field. -/
theorem cast_ne_zero {b : Nat} (hb : ¬p ∣ b) : (b : ZMod p) ≠ 0 := by
  rw [Ne, ZMod.natCast_eq_zero_iff]
  exact hb

/-- **Exponents modulo `p - 1`** (Fermat). -/
theorem pow_exponent_mod (hp : p.Prime) {x : ZMod p} (hx : x ≠ 0) (e : Nat) :
    x ^ (e % (p - 1)) = x ^ e := by
  have : Fact p.Prime := ⟨hp⟩
  exact (pow_eq_pow_mod e (ZMod.pow_card_sub_one_eq_one hx)).symm

end ModPow
