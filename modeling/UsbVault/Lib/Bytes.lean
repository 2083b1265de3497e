import Mathlib.Data.Vector.Basic
import Mathlib.Tactic.Ring
import Mathlib.Data.Nat.Digits.Lemmas

/-!
# Bytes

Byte strings and the fixed-width little-endian integers written in them.
Everything here is generic: a byte string is a `List UInt8`, a fixed
array `[u8; N]` is a `List.Vector UInt8 n` (the length is a field of the
value), and a machine integer crosses into bytes through `leBytes`.

The two directions are `leNat_leBytes` (decode after encode, below the
width's bound) and `leBytes_leNat` (encode after decode, on a string of
the right length); the injectivity and unique-decodability lemmas at the
end are what a message format needs to be read back unambiguously.
-/

namespace Wire

/-- A byte string (`Vec<u8>`, `&[u8]`). -/
abbrev Bytes := List UInt8

/-- A byte array of fixed length (`[u8; N]`). -/
abbrev ByteVec (n : Nat) := List.Vector UInt8 n

/-- The all-zero byte string of length `n` (`vec![0u8; n]`). -/
def zeros (n : Nat) : Bytes := List.replicate n 0

@[simp] theorem zeros_length (n : Nat) : (zeros n).length = n :=
  List.length_replicate

theorem zeros_drop (n k : Nat) : (zeros n).drop k = zeros (n - k) :=
  List.drop_replicate

/-- The fixed array holding `n` zero bytes (`[0u8; N]`). -/
def zeroVec (n : Nat) : ByteVec n := ⟨zeros n, zeros_length n⟩

theorem take32_length {bs : Bytes} (h : ¬bs.length < 32) : (bs.take 32).length = 32 := by
  rw [List.length_take]
  omega

theorem padded32_length (bs : Bytes) : ((bs ++ zeros 32).take 32).length = 32 := by
  rw [List.length_take, List.length_append, zeros_length]
  omega

theorem replicate32_length (b : UInt8) : (List.replicate 32 b).length = 32 :=
  List.length_replicate

theorem xor32_length (a b : ByteVec 32) :
    (List.zipWith (· ^^^ ·) a.toList b.toList).length = 32 := by
  rw [List.length_zipWith, a.toList_length, b.toList_length, Nat.min_self]

/-- The bytes of an ASCII literal (`b"..."`). -/
def ascii (s : String) : Bytes := s.toList.map fun c => UInt8.ofNat c.toNat

/-- Overwriting consecutive elements, one after the other. -/
theorem foldl_set {α : Type} (f : Nat → α) (n : Nat) (front old back : List α)
    (hn : n ≤ old.length) :
    (List.range n).foldl (fun l i => l.set (front.length + i) (f i)) (front ++ old ++ back)
      = front ++ (List.range n).map f ++ old.drop n ++ back := by
  induction n with
  | zero => simp
  | succ n ih =>
    have hdrop : old.drop n = old[n] :: old.drop (n + 1) := List.drop_eq_getElem_cons hn
    have hlen : (front ++ (List.range n).map f).length = front.length + n := by simp
    rw [List.range_succ, List.foldl_append, ih (by omega), List.foldl_cons, List.foldl_nil,
      hdrop, List.append_assoc, ← hlen, List.set_append_right _ _ le_rfl, Nat.sub_self,
        List.cons_append, List.set_cons_zero]
    simp

/-! ## Little-endian integers -/

/-- The `n` low bytes of `v`, least significant first. Higher bytes are
dropped, exactly as `(v as uN).to_le_bytes()` drops them. -/
def leBytes : Nat → Nat → Bytes
  | 0, _ => []
  | n + 1, v => UInt8.ofNat v :: leBytes n (v / 256)

/-- The value of a little-endian byte string. -/
def leNat : Bytes → Nat
  | [] => 0
  | b :: bs => b.toNat + 256 * leNat bs

@[simp] theorem leBytes_length (n v : Nat) : (leBytes n v).length = n := by
  induction n generalizing v with
  | zero => rfl
  | succ n ih => rw [leBytes, List.length_cons, ih]

theorem leNat_lt (bs : Bytes) : leNat bs < 256 ^ bs.length := by
  induction bs with
  | nil => decide
  | cons b bs ih =>
    have hb : b.toNat < 256 := b.toNat_lt
    rw [leNat, List.length_cons, pow_succ]
    omega

/-- Decode after encode keeps the value modulo the width's bound. -/
theorem leNat_leBytes_mod (n v : Nat) : leNat (leBytes n v) = v % 256 ^ n := by
  induction n generalizing v with
  | zero => simp [leBytes, leNat, Nat.mod_one]
  | succ n ih =>
    have hb : (UInt8.ofNat v).toNat = v % 256 := UInt8.toNat_ofNat'
    rw [leBytes, leNat, ih, hb, pow_succ', Nat.mod_mul]

theorem leNat_leBytes {n v : Nat} (h : v < 256 ^ n) :
    leNat (leBytes n v) = v := by
  rw [leNat_leBytes_mod, Nat.mod_eq_of_lt h]

/-- Encode after decode is the identity on strings of the right length. -/
theorem leBytes_leNat (bs : Bytes) : leBytes bs.length (leNat bs) = bs := by
  induction bs with
  | nil => rfl
  | cons b bs ih =>
    have hb : b.toNat < 256 := b.toNat_lt
    have hlow : UInt8.ofNat (b.toNat + 256 * leNat bs) = b := by
      apply UInt8.toNat_inj.mp
      rw [UInt8.toNat_ofNat', show (2 ^ 8 : Nat) = 256 from rfl]
      omega
    have hhigh : (b.toNat + 256 * leNat bs) / 256 = leNat bs := by omega
    rw [List.length_cons, leNat, leBytes, hlow, hhigh, ih]

/-- Only the value modulo the width's bound is encoded. -/
theorem leBytes_mod (n v : Nat) : leBytes n (v % 256 ^ n) = leBytes n v := by
  have hdecode := leBytes_leNat (leBytes n v)
  rwa [leBytes_length, leNat_leBytes_mod] at hdecode

/-! ## Big-endian naturals -/

/-- The value of a big-endian byte string. -/
def beNat (bs : Bytes) : Nat := leNat bs.reverse

/-- The shortest big-endian byte string of a natural, empty for zero. -/
def beBytes (n : Nat) : Bytes := ((Nat.digits 256 n).map UInt8.ofNat).reverse

theorem leNat_eq_ofDigits (ds : List Nat) (h : ∀ d ∈ ds, d < 256) :
    leNat (ds.map UInt8.ofNat) = Nat.ofDigits 256 ds := by
  induction ds with
  | nil => rfl
  | cons d ds ih =>
    have hd : (UInt8.ofNat d).toNat = d := by
      rw [UInt8.toNat_ofNat', Nat.mod_eq_of_lt (h d (by simp))]
    rw [List.map_cons, leNat, hd, ih fun e he => h e (by simp [he]),
      Nat.ofDigits_cons]

theorem beNat_beBytes (n : Nat) : beNat (beBytes n) = n := by
  have hlt : ∀ d ∈ Nat.digits 256 n, d < 256 :=
    fun d hd => Nat.digits_lt_base (by decide) hd
  rw [beNat, beBytes, List.reverse_reverse, leNat_eq_ofDigits _ hlt,
    Nat.ofDigits_digits]

@[simp] theorem beBytes_zero : beBytes 0 = [] := by
  rw [beBytes, Nat.digits_zero]
  rfl

theorem leNat_append (bs cs : Bytes) :
    leNat (bs ++ cs) = leNat bs + 256 ^ bs.length * leNat cs := by
  induction bs with
  | nil => simp [leNat]
  | cons b bs ih =>
    rw [List.cons_append, leNat, leNat, ih, List.length_cons, pow_succ]
    ring

theorem beNat_append (bs cs : Bytes) :
    beNat (bs ++ cs) = beNat bs * 256 ^ cs.length + beNat cs := by
  rw [beNat, beNat, beNat, List.reverse_append, leNat_append, List.length_reverse]
  ring

@[simp] theorem beNat_zeros (n : Nat) : beNat (zeros n) = 0 := by
  induction n with
  | zero => rfl
  | succ n ih =>
    have hzeros : zeros (n + 1) = zeros n ++ [0] := List.replicate_succ'
    rw [hzeros, beNat_append, ih]
    rfl

/-- Right-aligned in `n` zero bytes, or cut to its last `n` bytes, a
big-endian number is its own `n` low bytes. -/
theorem rightAligned_eq (n : Nat) (bs : Bytes) :
    (if bs.length ≤ n then zeros (n - bs.length) ++ bs
      else bs.drop (bs.length - n)) = (leBytes n (beNat bs)).reverse := by
  generalize haligned : (if bs.length ≤ n then zeros (n - bs.length) ++ bs
    else bs.drop (bs.length - n)) = aligned
  have hspec : aligned.length = n ∧ beNat aligned % 256 ^ n = beNat bs % 256 ^ n := by
    subst haligned
    split_ifs with hlen
    · simp [beNat_append, hlen]
    · have hsplit := beNat_append (bs.take (bs.length - n)) (bs.drop (bs.length - n))
      have hdrop : (bs.drop (bs.length - n)).length = n := by simp; omega
      rw [List.take_append_drop, hdrop] at hsplit
      exact ⟨hdrop, by rw [hsplit, Nat.mul_add_mod_self_right]⟩
  obtain ⟨hlen, hmod⟩ := hspec
  have hread := leBytes_leNat aligned.reverse
  rw [List.length_reverse, hlen] at hread
  rw [← leBytes_mod, ← hmod, leBytes_mod, beNat, hread, List.reverse_reverse]

/-! ## The fixed widths -/

/-- `x.to_le_bytes()` for the three widths the formats use. -/
def u16le (x : UInt16) : Bytes := leBytes 2 x.toNat

@[inherit_doc u16le] def u32le (x : UInt32) : Bytes := leBytes 4 x.toNat

@[inherit_doc u16le] def u64le (x : UInt64) : Bytes := leBytes 8 x.toNat

/-- `uN::from_le_bytes`. -/
def u16OfLe (bs : Bytes) : UInt16 := UInt16.ofNat (leNat bs)

@[inherit_doc u16OfLe] def u32OfLe (bs : Bytes) : UInt32 :=
  UInt32.ofNat (leNat bs)

@[inherit_doc u16OfLe] def u64OfLe (bs : Bytes) : UInt64 :=
  UInt64.ofNat (leNat bs)

@[simp] theorem u16le_length (x : UInt16) : (u16le x).length = 2 :=
  leBytes_length 2 _

@[simp] theorem u32le_length (x : UInt32) : (u32le x).length = 4 :=
  leBytes_length 4 _

@[simp] theorem u64le_length (x : UInt64) : (u64le x).length = 8 :=
  leBytes_length 8 _

@[simp] theorem u16OfLe_u16le (x : UInt16) : u16OfLe (u16le x) = x := by
  rw [u16OfLe, u16le, leNat_leBytes (by simpa using x.toNat_lt)]
  exact UInt16.ofNat_toNat

@[simp] theorem u32OfLe_u32le (x : UInt32) : u32OfLe (u32le x) = x := by
  rw [u32OfLe, u32le, leNat_leBytes (by simpa using x.toNat_lt)]
  exact UInt32.ofNat_toNat

@[simp] theorem u64OfLe_u64le (x : UInt64) : u64OfLe (u64le x) = x := by
  rw [u64OfLe, u64le, leNat_leBytes (by simpa using x.toNat_lt)]
  exact UInt64.ofNat_toNat

theorem u32le_inj {x y : UInt32} (h : u32le x = u32le y) : x = y := by
  rw [← u32OfLe_u32le x, h, u32OfLe_u32le]

theorem u64le_inj {x y : UInt64} (h : u64le x = u64le y) : x = y := by
  rw [← u64OfLe_u64le x, h, u64OfLe_u64le]

/-- A two-byte string is the encoding of the integer it decodes to. -/
theorem u16le_u16OfLe {bs : Bytes} (h : bs.length = 2) :
    u16le (u16OfLe bs) = bs := by
  have hlt : leNat bs < 2 ^ 16 := by
    have := leNat_lt bs
    rwa [h] at this
  rw [u16le, u16OfLe, UInt16.toNat_ofNat', Nat.mod_eq_of_lt hlt, ← h,
    leBytes_leNat]

theorem u32le_u32OfLe {bs : Bytes} (h : bs.length = 4) : u32le (u32OfLe bs) = bs := by
  have hlt : leNat bs < 2 ^ 32 := by
    have := leNat_lt bs
    rwa [h] at this
  rw [u32le, u32OfLe, UInt32.toNat_ofNat', Nat.mod_eq_of_lt hlt, ← h, leBytes_leNat]

theorem u64le_u64OfLe {bs : Bytes} (h : bs.length = 8) : u64le (u64OfLe bs) = bs := by
  have hlt : leNat bs < 2 ^ 64 := by
    have := leNat_lt bs
    rwa [h] at this
  rw [u64le, u64OfLe, UInt64.toNat_ofNat', Nat.mod_eq_of_lt hlt, ← h, leBytes_leNat]

/-! ## Reading a message back field by field

A message is a concatenation of fields. Two equal messages whose first
fields have equal lengths agree on the first field and on the rest; a
length-prefixed field brings its own length along. -/

/-- A fixed-width field splits off. -/
theorem append_inj_of_length {a b s t : Bytes} (hlen : a.length = b.length)
    (h : a ++ s = b ++ t) : a = b ∧ s = t :=
  List.append_inj h hlen

theorem vec_append_inj {n : Nat} {a b : ByteVec n} {s t : Bytes}
    (h : a.toList ++ s = b.toList ++ t) : a = b ∧ s = t := by
  obtain ⟨hab, hst⟩ := append_inj_of_length (by simp) h
  exact ⟨List.Vector.toList_injective hab, hst⟩

theorem u32le_append_inj {x y : UInt32} {s t : Bytes}
    (h : u32le x ++ s = u32le y ++ t) : x = y ∧ s = t := by
  obtain ⟨hxy, hst⟩ := append_inj_of_length (by simp) h
  exact ⟨u32le_inj hxy, hst⟩

theorem u64le_append_inj {x y : UInt64} {s t : Bytes}
    (h : u64le x ++ s = u64le y ++ t) : x = y ∧ s = t := by
  obtain ⟨hxy, hst⟩ := append_inj_of_length (by simp) h
  exact ⟨u64le_inj hxy, hst⟩

theorem ofNat_u32_inj {m n : Nat} (hm : m < 2 ^ 32) (hn : n < 2 ^ 32)
    (h : UInt32.ofNat m = UInt32.ofNat n) : m = n := by
  have := congrArg UInt32.toNat h
  rwa [UInt32.toNat_ofNat', UInt32.toNat_ofNat', Nat.mod_eq_of_lt hm,
    Nat.mod_eq_of_lt hn] at this

/-- **A length-prefixed field splits off**, as long as the prefix holds
the true length. -/
theorem prefixed_append_inj {a b s t : Bytes} (ha : a.length < 2 ^ 32)
    (hb : b.length < 2 ^ 32)
    (h : u32le (UInt32.ofNat a.length) ++ (a ++ s)
      = u32le (UInt32.ofNat b.length) ++ (b ++ t)) : a = b ∧ s = t := by
  obtain ⟨hlen, hrest⟩ := u32le_append_inj h
  exact append_inj_of_length (ofNat_u32_inj ha hb hlen) hrest

end Wire
