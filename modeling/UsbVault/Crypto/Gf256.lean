import Mathlib.Algebra.Field.Basic
import Mathlib.Data.LawfulXor.Basic
import Mathlib.Data.Nat.Bitwise
import Mathlib.Tactic.Ring
import UsbVault.Lib.Bytes

/-!
# Gf256

The GF(2⁸) arithmetic of `shamir.rs`, and that it is a field. The
multiplication is the source's shift-and-xor loop. It is additive in
both arguments (`gf256Mul_xor_left`, `gf256Mul_xor_right`), so an
identity between additive functions holds everywhere once it holds on
the eight powers of two (`additive_ext`).
-/

namespace UsbVault

/-! ## The functions of the source -/

/-- One round of the multiplication loop: `a` times `x`, reduced. -/
def gf256Double (a : UInt8) : UInt8 :=
  let carry := a &&& 0x80
  let a := a <<< 1
  if carry ≠ 0 then a ^^^ 0x1B else a

/-- The loop of `gf256_mul`, for at most `fuel` rounds. -/
def gf256MulLoop : Nat → UInt8 → UInt8 → UInt8 → UInt8
  | 0, _, _, result => result
  | fuel + 1, a, b, result =>
    if b > 0 then
      gf256MulLoop fuel (gf256Double a) (b >>> 1)
        (if b &&& 1 ≠ 0 then result ^^^ a else result)
    else result

/-- `gf256_mul`. Eight rounds shift every bit of `b` out. -/
def gf256Mul (a b : UInt8) : UInt8 := gf256MulLoop 8 a b 0

/-- `gf256_inv`. -/
def gf256Inv (a : UInt8) : UInt8 :=
  if a = 0 then 0
  else
    let result := (List.range 6).foldl
      (fun result _ => gf256Mul (gf256Mul result result) a) a
    gf256Mul result result

/-- `gf256_eval`: Horner's rule, the constant term first. -/
def gf256Eval (coefficients : List UInt8) (x : UInt8) : UInt8 :=
  coefficients.reverse.foldl (fun result coeff => gf256Mul result x ^^^ coeff) 0

/-! ## The loop -/

/-- The loop without its early exit, as a sum over the bits of `b`. -/
def gf256Bits : Nat → UInt8 → UInt8 → UInt8
  | 0, _, _ => 0
  | n + 1, a, b =>
    (if b &&& 1 ≠ 0 then a else 0) ^^^ gf256Bits n (gf256Double a) (b >>> 1)

theorem gf256Bits_zero (n : Nat) (a : UInt8) : gf256Bits n a 0 = 0 := by
  induction n generalizing a with
  | zero => rfl
  | succ n ih =>
    have hshift : (0 : UInt8) >>> 1 = 0 := by decide
    simp [gf256Bits, hshift, ih]

theorem gf256MulLoop_eq (n : Nat) (a b result : UInt8) :
    gf256MulLoop n a b result = result ^^^ gf256Bits n a b := by
  induction n generalizing a b result with
  | zero => simp [gf256MulLoop, gf256Bits]
  | succ n ih =>
    by_cases hb : b > 0
    · simp only [gf256MulLoop, if_pos hb, ih, gf256Bits]
      split_ifs <;> simp [UInt8.xor_assoc]
    · obtain rfl : b = 0 := UInt8.le_zero_iff.mp (UInt8.not_lt.mp hb)
      simp [gf256MulLoop, gf256Bits_zero]

theorem gf256Mul_eq (a b : UInt8) : gf256Mul a b = gf256Bits 8 a b := by
  rw [gf256Mul, gf256MulLoop_eq, UInt8.zero_xor]

/-! ## Multiplication is additive -/

theorem forall_byte {p : UInt8 → Prop} (h : ∀ n < 256, p (UInt8.ofNat n))
    (a : UInt8) : p a := by
  have ha := h a.toNat (by simpa using a.toNat_lt)
  rwa [UInt8.ofNat_toNat] at ha

theorem and_xor_distrib (a b c : UInt8) :
    (a ^^^ b) &&& c = (a &&& c) ^^^ (b &&& c) := by
  refine UInt8.toBitVec_inj.mp ?_
  ext i hi
  simp [Bool.and_xor_distrib_right]

theorem xor_left_comm (a b c : UInt8) :
    a ^^^ (b ^^^ c) = b ^^^ (a ^^^ c) := by ac_rfl

def powersOfTwo : List UInt8 := [1, 2, 4, 8, 16, 32, 64, 128]

set_option maxRecDepth 4096 in
theorem and_power (a : UInt8) :
    ∀ p ∈ powersOfTwo, a &&& p = 0 ∨ a &&& p = p := by
  have hpowers : ∀ p ∈ powersOfTwo, ∃ i < 8, p.toNat = 2 ^ i := by decide
  intro p hp
  obtain ⟨i, -, hpower⟩ := hpowers p hp
  have hand : (a &&& p).toNat = (a.toNat.testBit i).toNat * 2 ^ i := by
    rw [UInt8.toNat_and, hpower, Nat.and_two_pow]
  cases htest : a.toNat.testBit i with
  | false =>
    rw [htest, Bool.toNat_false, Nat.zero_mul] at hand
    exact .inl (UInt8.toNat_inj.mp hand)
  | true =>
    rw [htest, Bool.toNat_true, Nat.one_mul, ← hpower] at hand
    exact .inr (UInt8.toNat_inj.mp hand)

theorem and_carry (a : UInt8) : a &&& 0x80 = 0 ∨ a &&& 0x80 = 0x80 :=
  and_power a 0x80 (by decide)

theorem and_one (a : UInt8) : a &&& 1 = 0 ∨ a &&& 1 = 1 := and_power a 1 (by decide)

theorem gf256Double_xor (a b : UInt8) :
    gf256Double (a ^^^ b) = gf256Double a ^^^ gf256Double b := by
  simp only [gf256Double, UInt8.shiftLeft_xor, and_xor_distrib]
  rcases and_carry a with ha | ha <;> rcases and_carry b with hb | hb <;>
    simp [ha, hb, UInt8.xor_assoc, UInt8.xor_comm, xor_left_comm]

theorem gf256Bits_xor_left (n : Nat) (a a' b : UInt8) :
    gf256Bits n (a ^^^ a') b = gf256Bits n a b ^^^ gf256Bits n a' b := by
  induction n generalizing a a' b with
  | zero => simp [gf256Bits]
  | succ n ih =>
    simp only [gf256Bits, gf256Double_xor, ih]
    split_ifs
    · ac_rfl
    · simp

theorem gf256Bits_xor_right (n : Nat) (a b b' : UInt8) :
    gf256Bits n a (b ^^^ b') = gf256Bits n a b ^^^ gf256Bits n a b' := by
  induction n generalizing a b b' with
  | zero => simp [gf256Bits]
  | succ n ih =>
    simp only [gf256Bits, UInt8.shiftRight_xor, and_xor_distrib, ih]
    rcases and_one b with hb | hb <;> rcases and_one b' with hb' | hb' <;>
      simp [hb, hb', UInt8.xor_assoc, xor_left_comm]

theorem gf256Mul_xor_left (a a' b : UInt8) :
    gf256Mul (a ^^^ a') b = gf256Mul a b ^^^ gf256Mul a' b := by
  simp only [gf256Mul_eq, gf256Bits_xor_left]

theorem gf256Mul_xor_right (a b b' : UInt8) :
    gf256Mul a (b ^^^ b') = gf256Mul a b ^^^ gf256Mul a b' := by
  simp only [gf256Mul_eq, gf256Bits_xor_right]

/-! ## Additive functions -/

def Additive (f : UInt8 → UInt8) : Prop := ∀ a b, f (a ^^^ b) = f a ^^^ f b

theorem Additive.zero {f : UInt8 → UInt8} (hf : Additive f) : f 0 = 0 := by
  have h0 : f 0 = f 0 ^^^ f 0 := by simpa using hf 0 0
  rw [h0, UInt8.xor_self]

theorem Additive.comp {f g : UInt8 → UInt8} (hf : Additive f)
    (hg : Additive g) : Additive (f ∘ g) := by
  intro a b
  simp only [Function.comp, hg a b, hf (g a) (g b)]

theorem Additive.iterate {f : UInt8 → UInt8} (hf : Additive f) (n : Nat) :
    Additive f^[n] := by
  induction n with
  | zero => intro a b; rfl
  | succ n ih =>
    rw [Function.iterate_succ']
    exact hf.comp ih

theorem additive_mul_left (b : UInt8) : Additive fun a => gf256Mul a b :=
  fun a a' => gf256Mul_xor_left a a' b

theorem additive_mul_right (a : UInt8) : Additive fun b => gf256Mul a b :=
  fun b b' => gf256Mul_xor_right a b b'

theorem sum_bits (a : UInt8) :
    powersOfTwo.foldr (fun p acc => (a &&& p) ^^^ acc) 0 = a :=
  forall_byte (p := fun a =>
    powersOfTwo.foldr (fun p acc => (a &&& p) ^^^ acc) 0 = a)
    (by decide +kernel) a

theorem Additive.foldr {f : UInt8 → UInt8} (hf : Additive f) (a : UInt8)
    (ps : List UInt8) :
    f (ps.foldr (fun p acc => (a &&& p) ^^^ acc) 0)
      = ps.foldr (fun p acc => f (a &&& p) ^^^ acc) 0 := by
  induction ps with
  | nil => simpa using hf.zero
  | cons p ps ih => simp only [List.foldr_cons, hf _ _, ih]

/-- **Additive functions that agree on the powers of two are equal.** -/
theorem additive_ext {f g : UInt8 → UInt8} (hf : Additive f) (hg : Additive g)
    (h : ∀ p ∈ powersOfTwo, f p = g p) (a : UInt8) : f a = g a := by
  have hbit : ∀ p ∈ powersOfTwo, f (a &&& p) = g (a &&& p) := by
    intro p hp
    rcases and_power a p hp with hzero | hpow
    · rw [hzero, hf.zero, hg.zero]
    · rw [hpow, h p hp]
  calc f a = powersOfTwo.foldr (fun p acc => f (a &&& p) ^^^ acc) 0 := by
        rw [← hf.foldr, sum_bits]
    _ = powersOfTwo.foldr (fun p acc => g (a &&& p) ^^^ acc) 0 :=
        List.foldr_ext _ _ _ fun p hp acc => by rw [hbit p hp]
    _ = g a := by rw [← hg.foldr, sum_bits]

/-! ## The ring -/

theorem gf256Double_zero : gf256Double 0 = 0 := by decide

theorem gf256Bits_double (n : Nat) (a b : UInt8) :
    gf256Bits n (gf256Double a) b = gf256Double (gf256Bits n a b) := by
  induction n generalizing a b with
  | zero => exact gf256Double_zero.symm
  | succ n ih =>
    simp only [gf256Bits, ih, gf256Double_xor]
    split_ifs
    · rfl
    · rfl

theorem gf256Mul_iterate (n : Nat) (a b : UInt8) :
    gf256Mul (gf256Double^[n] a) b = gf256Double^[n] (gf256Mul a b) := by
  induction n with
  | zero => rfl
  | succ n ih =>
    rw [Function.iterate_succ_apply', Function.iterate_succ_apply', gf256Mul_eq,
      gf256Bits_double, ← gf256Mul_eq, ih]

set_option maxRecDepth 4096 in
theorem powersOfTwo_iterate : ∀ p ∈ powersOfTwo, ∃ i < 8, p = gf256Double^[i] 1 := by
  decide

set_option maxRecDepth 4096 in
theorem one_gf256Mul (a : UInt8) : gf256Mul 1 a = a :=
  additive_ext (g := id) (additive_mul_right 1) (fun _ _ => rfl) (by decide) a

theorem gf256Mul_comm (a b : UInt8) : gf256Mul a b = gf256Mul b a := by
  refine additive_ext (additive_mul_left b) (additive_mul_right b) ?_ a
  intro p hp
  refine additive_ext (additive_mul_right p) (additive_mul_left p) ?_ b
  intro q hq
  obtain ⟨i, -, rfl⟩ := powersOfTwo_iterate p hp
  obtain ⟨j, -, rfl⟩ := powersOfTwo_iterate q hq
  rw [gf256Mul_iterate, gf256Mul_iterate, one_gf256Mul, one_gf256Mul,
    ← Function.iterate_add_apply, ← Function.iterate_add_apply, Nat.add_comm]

theorem gf256Mul_assoc (a b c : UInt8) :
    gf256Mul (gf256Mul a b) c = gf256Mul a (gf256Mul b c) := by
  -- each side is additive in `a`, and a power of two only doubles
  refine additive_ext ((additive_mul_left c).comp (additive_mul_left b))
    (additive_mul_left (gf256Mul b c)) ?_ a
  intro p hp
  obtain ⟨i, -, rfl⟩ := powersOfTwo_iterate p hp
  rw [Function.comp_apply, gf256Mul_iterate, gf256Mul_iterate, gf256Mul_iterate,
    one_gf256Mul, one_gf256Mul]

theorem gf256Mul_one (a : UInt8) : gf256Mul a 1 = a := by
  have hshift : (1 : UInt8) >>> 1 = 0 := by decide
  simp [gf256Mul_eq, gf256Bits, hshift]

theorem gf256Mul_zero (a : UInt8) : gf256Mul a 0 = 0 := by
  rw [gf256Mul_eq, gf256Bits_zero]

/-- A byte as an element of GF(2⁸). -/
@[ext] structure GF256 where
  byte : UInt8
  deriving DecidableEq

namespace GF256

instance : Zero GF256 := ⟨⟨0⟩⟩
instance : One GF256 := ⟨⟨1⟩⟩
instance : Add GF256 := ⟨fun a b => ⟨a.byte ^^^ b.byte⟩⟩
instance : Neg GF256 := ⟨fun a => a⟩
instance : Mul GF256 := ⟨fun a b => ⟨gf256Mul a.byte b.byte⟩⟩

@[simp] theorem zero_byte : (0 : GF256).byte = 0 := rfl
@[simp] theorem one_byte : (1 : GF256).byte = 1 := rfl
@[simp] theorem add_byte (a b : GF256) : (a + b).byte = a.byte ^^^ b.byte := rfl
@[simp] theorem neg_byte (a : GF256) : (-a).byte = a.byte := rfl
@[simp] theorem mul_byte (a b : GF256) :
    (a * b).byte = gf256Mul a.byte b.byte := rfl

instance : CommRing GF256 where
  add_assoc a b c := by ext; simp [UInt8.xor_assoc]
  zero_add a := by ext; simp
  add_zero a := by ext; simp
  add_comm a b := by ext; simp [UInt8.xor_comm]
  neg_add_cancel a := by ext; simp
  mul_assoc a b c := by ext; simp [gf256Mul_assoc]
  mul_comm a b := by ext; simp [gf256Mul_comm a.byte]
  one_mul a := by ext; simp [gf256Mul_comm 1, gf256Mul_one]
  mul_one a := by ext; simp [gf256Mul_one]
  zero_mul a := by ext; simp [gf256Mul_comm 0, gf256Mul_zero]
  mul_zero a := by ext; simp [gf256Mul_zero]
  left_distrib a b c := by ext; simp [gf256Mul_xor_right]
  right_distrib a b c := by ext; simp [gf256Mul_xor_left]
  nsmul := nsmulRec
  zsmul := zsmulRec

/-! ## The field

Squaring is additive, so `x ^ 256 = x` holds everywhere because it holds
on the powers of two. Then `x ^ 255` is idempotent, and zero and one are
the only idempotents. -/

theorem additive_square : Additive fun a => gf256Mul a a := by
  intro a b
  simp only [gf256Mul_xor_left, gf256Mul_xor_right, gf256Mul_comm b a]
  simp [UInt8.xor_assoc]

theorem iterate_square_byte (n : Nat) (x : GF256) :
    (fun a => gf256Mul a a)^[n] x.byte = (x ^ 2 ^ n).byte := by
  induction n with
  | zero => simp
  | succ n ih =>
    rw [Function.iterate_succ_apply', ih, pow_succ 2 n, pow_mul, pow_two]
    rfl

theorem pow_256 (x : GF256) : x ^ 256 = x := by
  -- the 256th power is eight squarings, each additive
  have hpowers : ∀ p ∈ powersOfTwo, (fun a => gf256Mul a a)^[8] p = p := by
    decide +kernel
  have hall : (fun a => gf256Mul a a)^[8] x.byte = x.byte :=
    additive_ext (g := id) (additive_square.iterate 8) (fun _ _ => rfl)
      hpowers x.byte
  rw [iterate_square_byte] at hall
  exact GF256.ext hall

theorem eq_zero_or_one_of_idempotent (x : GF256) (hx : x * x = x) :
    x = 0 ∨ x = 1 := by
  have hbyte : ∀ a : UInt8, gf256Mul a a = a → a = 0 ∨ a = 1 :=
    forall_byte (by decide +kernel)
  rcases hbyte x.byte (congrArg byte hx) with h | h
  · exact .inl (GF256.ext h)
  · exact .inr (GF256.ext h)

theorem pow_255 {x : GF256} (hx : x ≠ 0) : x ^ 255 = 1 := by
  have hidem : x ^ 255 * x ^ 255 = x ^ 255 := by
    calc x ^ 255 * x ^ 255 = x ^ 256 * x ^ 254 := by ring
      _ = x ^ 255 := by rw [pow_256]; ring
  rcases eq_zero_or_one_of_idempotent _ hidem with h0 | h1
  · have hzero : x = 0 := by
      calc x = x ^ 256 := (pow_256 x).symm
        _ = x ^ 255 * x := by ring
        _ = 0 := by rw [h0, zero_mul]
    exact absurd hzero hx
  · exact h1

instance : Inv GF256 := ⟨fun a => ⟨gf256Inv a.byte⟩⟩

@[simp] theorem inv_byte (a : GF256) : (a⁻¹).byte = gf256Inv a.byte := rfl

theorem inv_eq_pow (x : GF256) (hx : x ≠ 0) : x⁻¹ = x ^ 254 := by
  have hbyte : x.byte ≠ 0 := fun h => hx (GF256.ext h)
  -- six rounds of square-and-multiply, then a square: 254 = 0b11111110
  have hpow : x ^ 254
      = (fun r => r * r) ((List.range 6).foldl (fun r _ => r * r * x) x) := by
    simp only [List.range, List.range.loop, List.foldl]
    ring
  ext
  rw [hpow, inv_byte, gf256Inv, if_neg hbyte]
  rfl

/-- **GF(2⁸) under the source's operations is a field.** -/
instance : Field GF256 where
  exists_pair_ne := ⟨0, 1, by decide⟩
  mul_inv_cancel x hx := by
    rw [inv_eq_pow x hx, ← pow_succ', pow_255 hx]
  inv_zero := by
    ext
    simp [gf256Inv]
  nnqsmul := _
  qsmul := _

theorem sub_byte (a b : GF256) : (a - b).byte = a.byte ^^^ b.byte := by
  rw [sub_eq_add_neg]
  rfl

end GF256

end UsbVault
