import Mathlib.Data.List.GetD
import UsbVault.Lib.Bytes

/-!
# Bits

Lists of bits, the most significant first: the bits of a number at a given
width, the number that bits write, and byte strings as bit strings. The two
directions are inverse to each other (`number_bits`, `bits_number`), and
`bytesOf` reads bytes back from their bits; a shorter last byte is filled up
with zeros.
-/

namespace Bits

open Wire

/-- The `w` low bits of a number. -/
def bits (w v : ℕ) : List Bool := (List.range w).map fun j => v.testBit (w - 1 - j)

/-- The number that bits write. -/
def number (bs : List Bool) : ℕ := bs.foldl (fun result bit => 2 * result + bit.toNat) 0

/-- The bits of a byte string. -/
def bitsOf (data : Bytes) : List Bool := data.flatMap fun byte => bits 8 byte.toNat

/-- One bit of a byte string. -/
def bitAt (data : Bytes) (i : ℕ) : Bool := (data.getD (i / 8) 0).toNat.testBit (7 - i % 8)

/-- Overwrite one bit of a byte string. -/
def setBit (data : Bytes) (i : ℕ) (bit : Bool) : Bytes :=
  let mask := (1 : UInt8) <<< UInt8.ofNat (7 - i % 8)
  let byte := data.getD (i / 8) 0
  data.set (i / 8) (if bit then byte ||| mask else byte &&& ~~~mask)

/-- The bytes of a bit string. -/
def bytesOf (bs : List Bool) : Bytes :=
  (List.range ((bs.length + 7) / 8)).map fun i =>
    UInt8.ofNat (number ((List.range 8).map fun j => bs.getD (8 * i + j) false))

/-! ## Numbers -/

@[simp] theorem bits_length (w v : ℕ) : (bits w v).length = w := by simp [bits]

@[simp] theorem number_nil : number [] = 0 := rfl

theorem number_concat (bs : List Bool) (b : Bool) :
    number (bs ++ [b]) = 2 * number bs + b.toNat := by
  simp [number]

theorem bits_succ (w v : ℕ) : bits (w + 1) v = bits w (v / 2) ++ [v.testBit 0] := by
  rw [bits, List.range_succ, List.map_append, List.map_singleton]
  congr 1
  · refine List.map_congr_left fun j hj => ?_
    have hjw : j < w := List.mem_range.mp hj
    rw [← Nat.testBit_add_one]
    congr 1
    omega
  · simp

theorem number_lt (bs : List Bool) : number bs < 2 ^ bs.length := by
  induction bs using List.reverseRecOn with
  | nil => decide
  | append_singleton bs b ih =>
    have hb := b.toNat_lt
    rw [number_concat, List.length_append, List.length_singleton, pow_succ]
    omega

/-- **The bits of a number write it.** -/
theorem number_bits {w v : ℕ} (h : v < 2 ^ w) : number (bits w v) = v := by
  induction w generalizing v with
  | zero =>
    have hzero : v = 0 := by simpa using h
    simp [hzero, bits]
  | succ w ih =>
    have hhalf : v / 2 < 2 ^ w := by
      rw [pow_succ] at h
      omega
    rw [bits_succ, number_concat, ih hhalf, Nat.testBit_zero]
    rcases Nat.mod_two_eq_zero_or_one v with hmod | hmod <;> simp [hmod] <;> omega

/-- **Bits are the bits of the number they write.** -/
theorem bits_number (bs : List Bool) : bits bs.length (number bs) = bs := by
  induction bs using List.reverseRecOn with
  | nil => rfl
  | append_singleton bs b ih =>
    have hb := b.toNat_lt
    have hhalf : (2 * number bs + b.toNat) / 2 = number bs := by omega
    rw [List.length_append, List.length_singleton, bits_succ, number_concat, hhalf, ih,
      Nat.testBit_zero]
    cases b <;> simp

/-! ## Byte strings -/

@[simp] theorem bitsOf_nil : bitsOf [] = [] := rfl

theorem bitsOf_cons (byte : UInt8) (data : Bytes) :
    bitsOf (byte :: data) = bits 8 byte.toNat ++ bitsOf data := rfl

@[simp] theorem bitsOf_append (data data' : Bytes) :
    bitsOf (data ++ data') = bitsOf data ++ bitsOf data' := List.flatMap_append

@[simp] theorem bitsOf_length (data : Bytes) : (bitsOf data).length = 8 * data.length := by
  induction data with
  | nil => rfl
  | cons byte data ih =>
    rw [bitsOf_cons, List.length_append, ih, bits_length, List.length_cons]
    ring

@[simp] theorem bytesOf_nil : bytesOf [] = [] := rfl

/-- Eight bits are a byte. -/
theorem bytesOf_append {chunk : List Bool} (hchunk : chunk.length = 8) (rest : List Bool) :
    bytesOf (chunk ++ rest) = UInt8.ofNat (number chunk) :: bytesOf rest := by
  have hcount : ((chunk ++ rest).length + 7) / 8 = (rest.length + 7) / 8 + 1 := by
    rw [List.length_append, hchunk]
    omega
  have hfirst : ((List.range 8).map fun j => (chunk ++ rest).getD (8 * 0 + j) false)
      = chunk := by
    refine List.ext_getElem (by simp [hchunk]) fun j hj hj' => ?_
    simp [List.getElem?_append_left hj', hj']
  rw [bytesOf, hcount, List.range_succ_eq_map (n := (rest.length + 7) / 8), List.map_cons, hfirst,
    List.map_map]
  congr 1
  refine List.map_congr_left fun i _ => ?_
  have hshift : ∀ j, (chunk ++ rest).getD (8 * (i + 1) + j) false
      = rest.getD (8 * i + j) false := by
    intro j
    rw [List.getD_append_right _ _ _ _ (by omega), hchunk]
    congr 1
    omega
  simp only [Function.comp_apply, Nat.succ_eq_add_one, hshift]

/-- **Bytes are read back from their bits**, whatever follows. -/
theorem bytesOf_bitsOf_append (data : Bytes) (rest : List Bool) :
    bytesOf (bitsOf data ++ rest) = data ++ bytesOf rest := by
  induction data with
  | nil => rfl
  | cons byte data ih =>
    rw [bitsOf_cons, List.append_assoc, bytesOf_append (bits_length 8 _), ih,
      number_bits byte.toNat_lt, UInt8.ofNat_toNat, List.cons_append]

theorem bytesOf_bitsOf (data : Bytes) : bytesOf (bitsOf data) = data := by
  have happend := bytesOf_bitsOf_append data []
  rwa [List.append_nil, bytesOf_nil, List.append_nil] at happend

theorem bitsOf_inj {data data' : Bytes} (h : bitsOf data = bitsOf data') : data = data' := by
  rw [← bytesOf_bitsOf data, h, bytesOf_bitsOf]

theorem bytesOf_length (bs : List Bool) : (bytesOf bs).length = (bs.length + 7) / 8 := by
  simp [bytesOf]

/-! ## Single bits -/

theorem bitAt_eq (data : Bytes) (i : ℕ) : bitAt data i = (bitsOf data).getD i false := by
  induction data generalizing i with
  | nil => simp [bitAt]
  | cons byte data ih =>
    by_cases hi : i < 8
    · have hdiv : i / 8 = 0 := Nat.div_eq_of_lt hi
      have hmod : i % 8 = i := Nat.mod_eq_of_lt hi
      rw [bitsOf_cons, List.getD_append _ _ _ _ (by simpa using hi), bitAt, hdiv, hmod,
        List.getD_cons_zero, List.getD_eq_getElem _ _ (by simpa using hi)]
      simp [bits]
    · have hdiv : i / 8 = (i - 8) / 8 + 1 := by omega
      have hmod : i % 8 = (i - 8) % 8 := by omega
      have hrest := ih (i - 8)
      rw [bitAt] at hrest
      rw [bitsOf_cons, List.getD_append_right _ _ _ _ (by simpa using hi), bits_length,
        bitAt, hdiv, hmod, List.getD_cons_succ, hrest]

/-- The mask of a bit has that bit alone. -/
theorem getLsbD_mask : ∀ i < 8, ∀ m < 8,
    ((1 : UInt8) <<< UInt8.ofNat (7 - i)).toBitVec.getLsbD m = decide (m = 7 - i) := by
  decide

theorem bits_setBit_byte (byte : UInt8) {i : ℕ} (hi : i < 8) (bit : Bool) :
    bits 8 (if bit then byte ||| (1 : UInt8) <<< UInt8.ofNat (7 - i)
      else byte &&& ~~~((1 : UInt8) <<< UInt8.ofNat (7 - i))).toNat
      = (bits 8 byte.toNat).set i bit := by
  refine List.ext_getElem (by simp) fun j hj hj' => ?_
  have hj8 : j < 8 := by simpa using hj
  have hmask := getLsbD_mask i hi (7 - j) (by omega)
  have hsame : 7 - j = 7 - i ↔ i = j := by omega
  rw [List.getElem_set]
  cases bit with
  | true =>
    simp only [bits, List.getElem_map, List.getElem_range, if_true, ← UInt8.toNat_toBitVec,
      BitVec.testBit_toNat, UInt8.toBitVec_or, BitVec.getLsbD_or, Nat.reduceSub, hmask,
      hsame]
    split_ifs with hij <;> simp [hij]
  | false =>
    simp only [bits, List.getElem_map, List.getElem_range, ← UInt8.toNat_toBitVec,
      BitVec.testBit_toNat, UInt8.toBitVec_and, UInt8.toBitVec_not, BitVec.getLsbD_and,
      BitVec.getLsbD_not, Nat.reduceSub, hmask, hsame, Bool.false_eq_true, if_false]
    split_ifs with hij
    · simp [hij]
    · have hlt : 7 - j < 8 := by omega
      simp [hij, hlt]

theorem bitsOf_setBit (data : Bytes) (i : ℕ) (bit : Bool) :
    bitsOf (setBit data i bit) = (bitsOf data).set i bit := by
  induction data generalizing i with
  | nil => simp [setBit]
  | cons byte data ih =>
    by_cases hi : i < 8
    · have hdiv : i / 8 = 0 := Nat.div_eq_of_lt hi
      have hmod : i % 8 = i := Nat.mod_eq_of_lt hi
      have hbyte := bits_setBit_byte byte hi bit
      rw [setBit, hdiv, hmod, bitsOf_cons, List.set_append_left _ _ (by simpa using hi),
        ← hbyte]
      rfl
    · have hdiv : i / 8 = (i - 8) / 8 + 1 := by omega
      have hmod : i % 8 = (i - 8) % 8 := by omega
      have hrest := ih (i - 8)
      rw [bitsOf_cons, List.set_append_right _ _ (by simpa using hi), bits_length, ← hrest,
        setBit, setBit, hdiv, hmod]
      rfl

end Bits
