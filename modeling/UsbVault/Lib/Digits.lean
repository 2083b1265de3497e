import UsbVault.Lib.Bytes

/-!
# Digits

Numbers written with a fixed number of digits. Decimal numbers of the same
width, joined by a character that is no digit, can be read back
(`joined_inj`); so can bytes written with two hexadecimal digits each
(`decodeHex_encodeHex`).
-/

namespace Digits

open Wire

/-- `text.padStart(width, '0')` -/
def padStart (width : Nat) (text : List Char) : List Char :=
  List.replicate (width - text.length) '0' ++ text

/-- A number in decimal, with leading zeros. -/
def padded (width n : Nat) : List Char := padStart width (Nat.toDigits 10 n)

/-- Leading zeros do not change the number. -/
theorem ofDigitChars_padded (width n : Nat) : Nat.ofDigitChars 10 (padded width n) 0 = n := by
  rw [padded, padStart, Nat.ofDigitChars_append, Nat.ofDigitChars_replicate_zero, Nat.mul_zero,
    Nat.ofDigitChars_ten_toDigits]

theorem padded_inj {width m n : Nat} (h : padded width m = padded width n) : m = n := by
  have hread := congrArg (fun text => Nat.ofDigitChars 10 text 0) h
  simpa only [ofDigitChars_padded] using hread

theorem isDigit_of_mem_padded {width n : Nat} {c : Char} (h : c ∈ padded width n) :
    c.isDigit := by
  rcases List.mem_append.mp h with hzero | hdigit
  · rw [List.eq_of_mem_replicate hzero]
    rfl
  · exact Nat.isDigit_of_mem_toDigits (by decide) (by decide) hdigit

theorem length_padded {width n : Nat} (hn : n < 10 ^ width) (hwidth : 0 < width) :
    (padded width n).length = width := by
  have hle := Nat.toDigits_length 10 n width hwidth hn
  rw [padded, padStart, List.length_append, List.length_replicate]
  omega

/-! ## Joined numbers -/

/-- Numbers of one width, joined by a character. -/
def joined (separator : Char) (width : Nat) (ns : List Nat) : List Char :=
  [separator].intercalate (ns.map (padded width))

/-- **The numbers can be read back.** -/
theorem joined_inj {separator : Char} (hsep : separator.isDigit = false) {width : Nat}
    {ms ns : List Nat} (hms : ms ≠ []) (hns : ns ≠ [])
    (h : joined separator width ms = joined separator width ns) : ms = ns := by
  have hsplit : ∀ {ls : List Nat}, ls ≠ [] →
      (joined separator width ls).splitOn separator = ls.map (padded width) := by
    intro ls hls
    refine List.splitOn_intercalate separator ?_ (by simpa using hls)
    intro text htext hmem
    obtain ⟨n, -, rfl⟩ := List.mem_map.mp htext
    have hdigit := isDigit_of_mem_padded hmem
    rw [hsep] at hdigit
    cases hdigit
  have htexts : ms.map (padded width) = ns.map (padded width) := by
    rw [← hsplit hms, h, hsplit hns]
  exact List.map_injective_iff.mpr (fun _ _ => padded_inj) htexts

/-! ## Hexadecimal text -/

def hexDigits : List Char :=
  ['0', '1', '2', '3', '4', '5', '6', '7', '8', '9', 'a', 'b', 'c', 'd', 'e', 'f']

/-- The value of a digit in either letter case. -/
def hexValue (c : Char) : Option Nat := hexDigits.idxOf? c.toLower

/-- Two digits for each byte, in lower case. -/
def encodeHex (bytes : Bytes) : List Char :=
  bytes.flatMap fun b => padStart 2 (Nat.toDigits 16 b.toNat)

/-- `parseInt(text, 16)`, of text that begins with no blank, sign or `0x`: the
number its first digits write. Zero stands for `NaN`. -/
def parseHex (text : List Char) : Nat :=
  (text.takeWhile fun c => (hexValue c).isSome).foldl
    (fun total c => 16 * total + (hexValue c).getD 0) 0

/-- Two characters a byte; a last character that is left over is a byte. -/
def decodeHex : List Char → Bytes
  | [] => []
  | [c] => [UInt8.ofNat (parseHex [c])]
  | c :: d :: rest => UInt8.ofNat (parseHex [c, d]) :: decodeHex rest

theorem padStart_toDigits {n : Nat} (h : n < 256) :
    padStart 2 (Nat.toDigits 16 n) = [(n / 16).digitChar, (n % 16).digitChar] := by
  by_cases hone : n < 16
  · rw [Nat.toDigits_of_lt_base hone, Nat.div_eq_of_lt hone, Nat.mod_eq_of_lt hone]
    rfl
  · have htwo : n / 16 < 16 := by omega
    rw [Nat.toDigits_of_base_le (by decide) (by omega), Nat.toDigits_of_lt_base htwo]
    rfl

theorem hexValue_digitChar : ∀ n < 16, hexValue n.digitChar = some n := by decide +kernel

theorem parseHex_byte {n : Nat} (h : n < 256) :
    parseHex [(n / 16).digitChar, (n % 16).digitChar] = n := by
  have hhigh := hexValue_digitChar (n / 16) (by omega)
  have hlow := hexValue_digitChar (n % 16) (by omega)
  simp only [parseHex, List.takeWhile, hhigh, hlow, Option.isSome_some, List.foldl_cons,
    List.foldl_nil, Option.getD_some]
  omega

/-- **Bytes can be read back.** -/
theorem decodeHex_encodeHex (bytes : Bytes) : decodeHex (encodeHex bytes) = bytes := by
  induction bytes with
  | nil => rfl
  | cons b bytes ih =>
    rw [encodeHex, List.flatMap_cons, padStart_toDigits b.toNat_lt]
    show UInt8.ofNat (parseHex [_, _]) :: decodeHex (encodeHex bytes) = b :: bytes
    rw [parseHex_byte b.toNat_lt, UInt8.ofNat_toNat, ih]

theorem encodeHex_inj {a b : Bytes} (h : encodeHex a = encodeHex b) : a = b := by
  rw [← decodeHex_encodeHex a, h, decodeHex_encodeHex]

end Digits
