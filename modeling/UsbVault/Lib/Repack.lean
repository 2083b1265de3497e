import Mathlib.Data.Nat.Digits.Lemmas

/-!
# Repack

Regrouping a stream of bits: digits of one width are pushed into a machine
register from the right, and digits of another width are pulled from its
left end. The register is never masked; only its low `bits` bits are
pending. `Holds` says what the digits pulled so far and the pending bits
make up together.
-/

namespace Repack

/-- The number that digits, the most significant first, write in a base. -/
def value (b : ℕ) (ds : List ℕ) : ℕ := Nat.ofDigits b ds.reverse

@[simp] theorem value_nil (b : ℕ) : value b [] = 0 := rfl

@[simp] theorem value_concat (b : ℕ) (ds : List ℕ) (d : ℕ) :
    value b (ds ++ [d]) = value b ds * b + d := by
  simp [value, Nat.ofDigits_cons, Nat.add_comm, Nat.mul_comm]

/-- Digits are determined by their number and their count. -/
theorem value_inj {b : ℕ} (hb : 1 < b) {ds es : List ℕ}
    (hlen : ds.length = es.length) (hd : ∀ d ∈ ds, d < b)
    (he : ∀ e ∈ es, e < b) (h : value b ds = value b es) : ds = es := by
  have hrev := Nat.ofDigits_inj_of_len_eq hb (by simpa using hlen)
    (by simpa using hd) (by simpa using he) h
  exact List.reverse_injective hrev

variable {n : ℕ}

/-- Push a digit of `w` bits. -/
def push (w : ℕ) (buffer : BitVec n) (d : ℕ) : BitVec n :=
  buffer <<< w ||| BitVec.ofNat n d

/-- Pull a digit of `v` bits that ends above the low `bits`. -/
def pull (v : ℕ) (buffer : BitVec n) (bits : ℕ) : ℕ :=
  (buffer.sshiftRight bits &&& BitVec.ofNat n (2 ^ v - 1)).toNat

theorem push_mod {w d bits : ℕ} (buffer : BitVec n) (hd : d < 2 ^ w)
    (hbits : bits + w ≤ n) :
    (push w buffer d).toNat % 2 ^ (bits + w)
      = buffer.toNat % 2 ^ bits * 2 ^ w + d := by
  have hdn : d < 2 ^ n := hd.trans_le (Nat.pow_le_pow_right (by decide) (by omega))
  have hw : 2 ^ n = 2 ^ w * 2 ^ (n - w) := by rw [← pow_add]; congr 1; omega
  have hshift : buffer.toNat <<< w % 2 ^ n
      = (buffer.toNat % 2 ^ (n - w)) <<< w := by
    rw [Nat.shiftLeft_eq, Nat.shiftLeft_eq, Nat.mul_comm, hw, Nat.mul_mod_mul_left,
      Nat.mul_comm]
  -- the digit fills the bits that the shift has cleared
  have hpush : (push w buffer d).toNat
      = buffer.toNat % 2 ^ (n - w) * 2 ^ w + d := by
    rw [push, BitVec.toNat_or, BitVec.toNat_shiftLeft, BitVec.toNat_ofNat,
      Nat.mod_eq_of_lt hdn, hshift, ← Nat.shiftLeft_add_eq_or_of_lt hd,
      Nat.shiftLeft_eq]
  have hlow : buffer.toNat % 2 ^ (n - w) % 2 ^ bits = buffer.toNat % 2 ^ bits :=
    Nat.mod_mod_of_dvd _ (pow_dvd_pow 2 (by omega))
  rw [hpush, pow_add, Nat.mul_comm (2 ^ bits), Nat.mod_mul,
    Nat.mul_add_mod_of_lt hd, Nat.mul_comm _ (2 ^ w),
    Nat.mul_add_div (Nat.two_pow_pos w), Nat.div_eq_of_lt hd, Nat.add_zero, hlow]
  ring

theorem pull_eq {v bits : ℕ} (buffer : BitVec n) (hbits : bits + v ≤ n) :
    pull v buffer bits = buffer.toNat / 2 ^ bits % 2 ^ v := by
  refine Nat.eq_of_testBit_eq fun i => ?_
  rw [pull, BitVec.testBit_toNat, BitVec.getLsbD_and, BitVec.getLsbD_sshiftRight,
    Nat.testBit_mod_two_pow, Nat.testBit_div_two_pow, BitVec.getLsbD_ofNat,
    Nat.testBit_two_pow_sub_one, BitVec.testBit_toNat]
  -- inside the digit the shift stays below the register's top bit
  by_cases hi : i < v
  · have hn : i < n := by omega
    have hshift : bits + i < n := by omega
    simp [hi, hn, hshift, Nat.add_comm, Nat.not_le.mpr hn]
  · simp [hi]

theorem pull_lt {v bits : ℕ} (buffer : BitVec n) (hbits : bits + v ≤ n) :
    pull v buffer bits < 2 ^ v := by
  rw [pull_eq buffer hbits]
  exact Nat.mod_lt _ (Nat.two_pow_pos v)

/-! ## The invariant -/

/-- The digits pulled so far, of `v` bits each, followed by the `bits`
pending bits of the register write the number `total`. -/
def Holds (v : ℕ) (out : List ℕ) (buffer : BitVec n) (bits total : ℕ) : Prop :=
  (∀ d ∈ out, d < 2 ^ v)
    ∧ value (2 ^ v) out * 2 ^ bits + buffer.toNat % 2 ^ bits = total

theorem Holds.empty (v : ℕ) (buffer : BitVec n) : Holds v [] buffer 0 0 := by
  simp [Holds, Nat.mod_one]

theorem Holds.push {v w bits total d : ℕ} {out : List ℕ} {buffer : BitVec n}
    (h : Holds v out buffer bits total) (hd : d < 2 ^ w) (hbits : bits + w ≤ n) :
    Holds v out (push w buffer d) (bits + w) (total * 2 ^ w + d) := by
  obtain ⟨hout, htotal⟩ := h
  refine ⟨hout, ?_⟩
  rw [push_mod buffer hd hbits, ← htotal, pow_add]
  ring

theorem Holds.pull {v bits total : ℕ} {out : List ℕ} {buffer : BitVec n}
    (h : Holds v out buffer (bits + v) total) (hbits : bits + v ≤ n) :
    Holds v (out ++ [pull v buffer bits]) buffer bits total := by
  obtain ⟨hout, htotal⟩ := h
  constructor
  · intro d hmem
    rcases List.mem_append.mp hmem with hd | hd
    · exact hout d hd
    · obtain rfl := List.mem_singleton.mp hd
      exact pull_lt buffer hbits
  · rw [value_concat, pull_eq buffer hbits, ← htotal, pow_add, Nat.mod_mul]
    ring

/-- Pushing a digit of all zeros: what pads the last digit. -/
theorem Holds.pad {v bits total : ℕ} {out : List ℕ} {buffer : BitVec n}
    (h : Holds v out buffer bits total) (w : ℕ) (hbits : bits + w ≤ n) :
    Holds v out (buffer <<< w) (bits + w) (total * 2 ^ w) := by
  have hpush := h.push (d := 0) (Nat.two_pow_pos w) hbits
  simpa [Repack.push] using hpush

/-- With no bit pending, the digits write the number. -/
theorem Holds.value_eq {v total : ℕ} {out : List ℕ} {buffer : BitVec n}
    (h : Holds v out buffer 0 total) : value (2 ^ v) out = total := by
  simpa [Holds, Nat.mod_one] using h.2

/-- **The pending bits are padding**: digits that write a padded number write
the number itself, when as many bits are pending as were padded. -/
theorem Holds.value_of_padded {v bits total : ℕ} {out : List ℕ}
    {buffer : BitVec n} (h : Holds v out buffer bits (total * 2 ^ bits)) :
    value (2 ^ v) out = total := by
  have hpos := Nat.two_pow_pos bits
  have hrest : buffer.toNat % 2 ^ bits < 2 ^ bits := Nat.mod_lt _ hpos
  have hdiv := congrArg (· / 2 ^ bits) h.2
  simpa [Nat.mul_comm _ (2 ^ bits), Nat.mul_add_div hpos, Nat.div_eq_of_lt hrest,
    Nat.mul_div_cancel_left _ hpos] using hdiv

end Repack
