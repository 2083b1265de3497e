import UsbVault.Lib.Bytes

/-!
# UTF-8 text

`encode` writes characters; `decode` reads any bytes at all, with a
replacement character for each run of bytes that belongs to no character,
as the `TextDecoder` and `Buffer.toString` do. Decoding undoes encoding
(`decode_encode`), and it never passes over a zero byte: only the NUL
character contains one, and it stands in the text wherever the byte stood
(`nul_mem_decode`).
-/

namespace Utf8

open Wire

def encode (text : List Char) : Bytes := text.flatMap String.utf8EncodeChar

theorem length_le_encode (text : List Char) : text.length ≤ (encode text).length := by
  induction text with
  | nil => exact Nat.le_refl _
  | cons c text ih =>
    have hchar := List.length_pos_of_ne_nil (String.utf8EncodeChar_ne_nil (c := c))
    rw [encode, List.flatMap_cons, List.length_append, List.length_cons]
    rw [encode] at ih
    omega

/-- U+FFFD -/
def replacement : Char := '\ufffd'

/-- A character whose first bytes have been read: how many are to come,
the range of the next one, and the bits read so far. -/
structure Pending where
  owed : Nat
  low : Nat
  high : Nat
  point : Nat
  /-- A continuation byte has its high bit set. -/
  continuation : 0x80 ≤ low

/-- A byte between characters. -/
def begin (b : Nat) : Option Pending × List Char :=
  if b ≤ 0x7f then (none, [Char.ofNat b])
  else if 0xc2 ≤ b ∧ b ≤ 0xdf then (some ⟨1, 0x80, 0xbf, b - 0xc0, Nat.le_refl _⟩, [])
  else if 0xe0 ≤ b ∧ b ≤ 0xef then
    (some ⟨2, if b = 0xe0 then 0xa0 else 0x80, if b = 0xed then 0x9f else 0xbf, b - 0xe0,
      by split <;> decide⟩, [])
  else if 0xf0 ≤ b ∧ b ≤ 0xf4 then
    (some ⟨3, if b = 0xf0 then 0x90 else 0x80, if b = 0xf4 then 0x8f else 0xbf, b - 0xf0,
      by split <;> decide⟩, [])
  else (none, [replacement])

/-- A byte of a character begun. A byte that cannot continue it ends it and
is read again, between characters. -/
def Pending.next (p : Pending) (b : Nat) : Option Pending × List Char :=
  if p.low ≤ b ∧ b ≤ p.high then
    if p.owed = 1 then (none, [Char.ofNat (p.point * 64 + (b - 0x80))])
    else (some ⟨p.owed - 1, 0x80, 0xbf, p.point * 64 + (b - 0x80), Nat.le_refl _⟩, [])
  else ((begin b).1, replacement :: (begin b).2)

def next : Option Pending → Nat → Option Pending × List Char
  | none, b => begin b
  | some p, b => p.next b

/-- The characters of the bytes, behind a character begun or none. -/
def decodeFrom : Option Pending → Bytes → List Char
  | none, [] => []
  | some _, [] => [replacement]
  | p, b :: bs => (next p b.toNat).2 ++ decodeFrom (next p b.toNat).1 bs

def decode (bs : Bytes) : List Char := decodeFrom none bs

/-- `new TextDecoder().decode(bytes)`, which drops a byte order mark. -/
def decodeText : Bytes → List Char
  | 0xef :: 0xbb :: 0xbf :: rest => decode rest
  | bytes => decode bytes

/-! ## Zero bytes -/

/-- Whatever has been read, a zero byte reads as the NUL character. -/
theorem nul_mem_next (p : Option Pending) : Char.ofNat 0 ∈ (next p 0).2 := by
  have hbegin : (begin 0).2 = [Char.ofNat 0] := rfl
  cases p with
  | none =>
    rw [next, hbegin]
    exact List.mem_cons_self
  | some p =>
    have hlow := p.continuation
    rw [next, Pending.next, if_neg (by omega), hbegin]
    exact List.mem_cons_of_mem _ List.mem_cons_self

/-- **A zero byte stands in the text as the NUL character.** -/
theorem nul_mem_decodeFrom {bs : Bytes} (h : 0 ∈ bs) (p : Option Pending) :
    Char.ofNat 0 ∈ decodeFrom p bs := by
  induction bs generalizing p with
  | nil => cases h
  | cons b bs ih =>
    have hcons : decodeFrom p (b :: bs)
        = (next p b.toNat).2 ++ decodeFrom (next p b.toNat).1 bs := by
      cases p <;> rfl
    rw [hcons, List.mem_append]
    rcases List.mem_cons.mp h with rfl | hbs
    · exact .inl (nul_mem_next p)
    · exact .inr (ih hbs _)

theorem nul_mem_decode {bs : Bytes} (h : 0 ∈ bs) : Char.ofNat 0 ∈ decode bs :=
  nul_mem_decodeFrom h none

/-! ## Decoding undoes encoding -/

theorem decodeFrom_begin {b : Nat} (hb : b < 256) (bs : Bytes) :
    decodeFrom none (UInt8.ofNat b :: bs) = (begin b).2 ++ decodeFrom (begin b).1 bs := by
  rw [decodeFrom, next, UInt8.toNat_ofNat_of_lt' hb]

/-- A continuation byte in the range of a character begun. -/
theorem decodeFrom_next {p : Pending} {b : Nat} (hb : b < 256) (hlow : p.low ≤ b)
    (hhigh : b ≤ p.high) (bs : Bytes) :
    decodeFrom (some p) (UInt8.ofNat b :: bs)
      = if p.owed = 1 then Char.ofNat (p.point * 64 + (b - 0x80)) :: decodeFrom none bs
        else decodeFrom
          (some ⟨p.owed - 1, 0x80, 0xbf, p.point * 64 + (b - 0x80), Nat.le_refl _⟩) bs := by
  rw [decodeFrom, next, UInt8.toNat_ofNat_of_lt' hb, Pending.next, if_pos ⟨hlow, hhigh⟩]
  split <;> rfl

/-- The last byte of a character. -/
theorem decodeFrom_last {p : Pending} {b : Nat} {c : Char} (hb : b < 256) (hlow : p.low ≤ b)
    (hhigh : b ≤ p.high) (howed : p.owed = 1) (hc : p.point * 64 + (b - 0x80) = c.toNat)
    (bs : Bytes) : decodeFrom (some p) (UInt8.ofNat b :: bs) = c :: decodeFrom none bs := by
  rw [decodeFrom_next hb hlow hhigh, if_pos howed, hc, Char.ofNat_toNat]

theorem decodeFrom_utf8EncodeChar (c : Char) (bs : Bytes) :
    decodeFrom none (String.utf8EncodeChar c ++ bs) = c :: decodeFrom none bs := by
  have hvalid : c.toNat < 0xd800 ∨ 0xdfff < c.toNat ∧ c.toNat < 0x110000 := c.valid
  have hval : c.val.toNat = c.toNat := rfl
  simp only [String.utf8EncodeChar, hval]
  generalize hn : c.toNat = n at hvalid
  split_ifs with h1 h2 h3
  · rw [List.singleton_append, decodeFrom_begin (by omega), begin, if_pos h1, ← hn,
      Char.ofNat_toNat]
    rfl
  · simp only [List.cons_append, List.nil_append]
    rw [decodeFrom_begin (by omega), begin, if_neg (by omega), if_pos (by omega),
      List.nil_append]
    exact decodeFrom_last (by omega) (by simp) (by simp only; omega) rfl
      (by simp only; omega) bs
  · simp only [List.cons_append, List.nil_append]
    rw [decodeFrom_begin (by omega), begin, if_neg (by omega), if_neg (by omega),
      if_pos (by omega), List.nil_append, decodeFrom_next (by omega)
        (by simp only; split_ifs <;> omega) (by simp only; split_ifs <;> omega),
      if_neg (by simp)]
    exact decodeFrom_last (by omega) (by simp) (by simp only; omega) rfl
      (by simp only; omega) bs
  · simp only [List.cons_append, List.nil_append]
    rw [decodeFrom_begin (by omega), begin, if_neg (by omega), if_neg (by omega),
      if_neg (by omega), if_pos (by omega), List.nil_append, decodeFrom_next (by omega)
        (by simp only; split_ifs <;> omega) (by simp only; split_ifs <;> omega),
      if_neg (by simp), decodeFrom_next (by omega) (by simp) (by simp only; omega),
      if_neg (by simp)]
    exact decodeFrom_last (by omega) (by simp) (by simp only; omega) (by simp)
      (by simp only; omega) bs

/-- **Decoding undoes encoding.** -/
theorem decode_encode (text : List Char) : decode (encode text) = text := by
  induction text with
  | nil => rfl
  | cons c text ih =>
    rw [encode, List.flatMap_cons, decode, decodeFrom_utf8EncodeChar]
    exact congrArg (c :: ·) ih

/-- A text without a byte order mark is read back. -/
theorem decodeText_encode {text : List Char} (h : (encode text).head? ≠ some 0xef) :
    decodeText (encode text) = text := by
  rw [decodeText.eq_def]
  split
  · rename_i rest heq
    rw [heq] at h
    exact absurd rfl h
  · exact decode_encode text

end Utf8
