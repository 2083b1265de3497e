import UsbVault.Lib.Repack
import UsbVault.App.RecoveryShares

/-!
# Recovery codes

The text codes of the app's `services/vault/recovery.ts`: a share as base-32
text in groups of four, and the way back from a code as a person types it.
`base32Decode_base32Encode` inverts the text code on all byte sequences, and
`recoverMEK_generateRecoveryCodes` is the whole way round.

Text is a list of Unicode scalar values. `toUpperCase` follows the Unicode
tables outside ASCII; what is needed of it is `UpperCase.ascii`.
-/

namespace UsbVault.App.Recovery

open Wire Repack

/-- `String.prototype.toUpperCase`: on ASCII it maps letter by letter. -/
structure UpperCase where
  toUpperCase : List Char → List Char
  ascii : ∀ text, (∀ c ∈ text, c.toNat < 128) →
    toUpperCase text = text.map Char.toUpper

/-! ## Base 32 -/

/-- `BASE32_ALPHABET` -/
def base32Alphabet : List Char := "ABCDEFGHIJKLMNOPQRSTUVWXYZ234567".toList

/-- `BASE32_ALPHABET[i]`, for an index below 32. -/
def base32Char (i : BitVec 32) : Char := base32Alphabet.getD i.toNat 'A'

/-- `result`, `buffer` and `bitsLeft` of `base32Encode`. The buffer is a
signed 32-bit number and is never masked. -/
structure Encoder where
  result : List Char
  buffer : BitVec 32
  bitsLeft : Nat

/-- `while (bitsLeft >= 5)` -/
def encodeWhile (buffer : BitVec 32) : Nat → List Char → Encoder
  | bitsLeft + 5, result =>
    encodeWhile buffer bitsLeft
      (result ++ [base32Char (buffer.sshiftRight bitsLeft &&& 0x1f)])
  | bitsLeft, result => ⟨result, buffer, bitsLeft⟩

def encodeByte (s : Encoder) (byte : UInt8) : Encoder :=
  encodeWhile (s.buffer <<< 8 ||| BitVec.ofNat 32 byte.toNat) (s.bitsLeft + 8)
    s.result

/-- `base32Encode` -/
def base32Encode (data : Bytes) : List Char :=
  let s := data.foldl encodeByte ⟨[], 0, 0⟩
  if s.bitsLeft > 0 then
    s.result ++ [base32Char (s.buffer <<< (5 - s.bitsLeft) &&& 0x1f)]
  else s.result

/-- `bytes`, `buffer` and `bitsLeft` of `base32Decode`. -/
structure Decoder where
  bytes : List Nat
  buffer : BitVec 32
  bitsLeft : Nat

def decodeChar (s : Decoder) (char : Char) : Except String Decoder :=
  match base32Alphabet.idxOf? char with
  | none => .error s!"Invalid base32 character: {char}"
  | some value =>
    let buffer := s.buffer <<< 5 ||| BitVec.ofNat 32 value
    let bitsLeft := s.bitsLeft + 5
    if bitsLeft ≥ 8 then
      .ok ⟨s.bytes ++ [(buffer.sshiftRight (bitsLeft - 8) &&& 0xff).toNat],
        buffer, bitsLeft - 8⟩
    else .ok ⟨s.bytes, buffer, bitsLeft⟩

/-- `base32Decode` -/
def base32Decode (encoded : List Char) : Except String Bytes := do
  let s ← encoded.foldlM decodeChar ⟨[], 0, 0⟩
  return s.bytes.map UInt8.ofNat

/-! ## Codes -/

/-- Groups of four characters. -/
def groupsOf (base32 : List Char) : List (List Char) :=
  (List.range ((base32.length + 3) / 4)).map fun i => (base32.drop (4 * i)).take 4

/-- `encodeRecoveryCode` -/
def encodeRecoveryCode (share : ShamirShare) : List Char :=
  let payload := UInt8.ofNat share.index :: share.data
  ['-'].intercalate (groupsOf (base32Encode payload))

/-- What `\s` matches in a regular expression. -/
def isSpace (c : Char) : Bool :=
  [0x9, 0xa, 0xb, 0xc, 0xd, 0x20, 0xa0, 0x1680, 0x2028, 0x2029, 0x202f, 0x205f,
    0x3000, 0xfeff].contains c.toNat || (0x2000 ≤ c.toNat && c.toNat ≤ 0x200a)

/-- What `/[-\s]/g` removes. -/
def isSeparator (c : Char) : Bool := c == '-' || isSpace c

def strip (code : List Char) : List Char := code.filter fun c => !isSeparator c

section

variable (js : UpperCase)

/-- `decodeRecoveryCode` -/
def decodeRecoveryCode (code : List Char) : Except String ShamirShare := do
  let cleaned := js.toUpperCase (strip code)
  let payload ← base32Decode cleaned
  match payload with
  | index :: byte :: data => return ⟨index.toNat, byte :: data⟩
  | _ => throw "Recovery code too short"

structure RecoveryConfig where
  totalShares : Nat
  threshold : Nat

/-- `generateRecoveryCodes`, with the bytes that `randomBytes` returns. -/
def generateRecoveryCodes (mek : Bytes) (config : RecoveryConfig)
    (coefficientBytes : Bytes) : Except String (List (List Char)) :=
  match splitSecret mek config.totalShares config.threshold coefficientBytes with
  | .ok shares => .ok (shares.map encodeRecoveryCode)
  | .error message => .error s!"Recovery code generation failed: {message}"

/-- `recoverMEK` -/
def recoverMEK (codes : List (List Char)) : Except String Bytes :=
  match codes.mapM (decodeRecoveryCode js) >>= (reconstructSecret · (some 64)) with
  | .ok mek => .ok mek
  | .error message => .error s!"MEK recovery failed: {message}"

end

/-! ## Encoding -/

/-- The digit that a character stands for. -/
def digit (c : Char) : ℕ := base32Alphabet.idxOf c

/-- The number that a sequence of bytes writes. -/
def number (data : Bytes) : ℕ := value (2 ^ 8) (data.map UInt8.toNat)

@[simp] theorem number_concat (data : Bytes) (byte : UInt8) :
    number (data ++ [byte]) = number data * 2 ^ 8 + byte.toNat := by
  simp [number]

theorem digit_base32Char {i : BitVec 32} (hi : i.toNat < 32) :
    digit (base32Char i) = i.toNat := by
  have hall : ∀ n < 32, base32Alphabet.idxOf (base32Alphabet.getD n 'A') = n := by
    decide
  exact hall i.toNat hi

theorem base32Char_mem (i : BitVec 32) : base32Char i ∈ base32Alphabet := by
  rw [base32Char]
  by_cases hi : i.toNat < base32Alphabet.length
  · rw [List.getD_eq_getElem _ _ hi]
    exact List.getElem_mem hi
  · rw [List.getD_eq_default _ _ (Nat.not_lt.mp hi)]
    decide

/-- The characters written so far and the pending bits are `count` bits that
write `total`. -/
structure Encodes (s : Encoder) (total count : ℕ) : Prop where
  holds : Holds 5 (s.result.map digit) s.buffer s.bitsLeft total
  letters : ∀ c ∈ s.result, c ∈ base32Alphabet
  count_eq : 5 * s.result.length + s.bitsLeft = count

theorem Encodes.emit {buffer : BitVec 32} {bitsLeft total count : ℕ}
    {result : List Char} (hbits : bitsLeft + 5 ≤ 32)
    (h : Encodes ⟨result, buffer, bitsLeft + 5⟩ total count) :
    Encodes ⟨result ++ [base32Char (buffer.sshiftRight bitsLeft &&& 0x1f)], buffer,
      bitsLeft⟩ total count := by
  have hdigit : digit (base32Char (buffer.sshiftRight bitsLeft &&& 0x1f))
      = pull 5 buffer bitsLeft := digit_base32Char (pull_lt buffer hbits)
  have hcount := h.count_eq
  constructor
  · show Holds 5 (List.map digit (result ++ [_])) buffer bitsLeft total
    rw [List.map_append, List.map_singleton, hdigit]
    exact h.holds.pull hbits
  · intro c hc
    rcases List.mem_append.mp hc with hc | hc
    · exact h.letters c hc
    · obtain rfl := List.mem_singleton.mp hc
      exact base32Char_mem _
  · simp only [List.length_append, List.length_singleton] at hcount ⊢
    omega

theorem encodeWhile_encodes {buffer : BitVec 32} {bitsLeft total count : ℕ}
    {result : List Char} (hbits : bitsLeft ≤ 32)
    (h : Encodes ⟨result, buffer, bitsLeft⟩ total count) :
    Encodes (encodeWhile buffer bitsLeft result) total count
      ∧ (encodeWhile buffer bitsLeft result).bitsLeft < 5 := by
  induction bitsLeft, result using encodeWhile.induct buffer with
  | case1 bitsLeft result ih => exact ih (by omega) (h.emit hbits)
  | case2 bitsLeft result hlast =>
    have hlt : bitsLeft < 5 := by
      by_contra hge
      exact hlast (bitsLeft - 5) (by omega)
    rw [encodeWhile]
    · exact ⟨h, hlt⟩
    · exact hlast

theorem foldl_encodeByte (data : Bytes) :
    Encodes (data.foldl encodeByte ⟨[], 0, 0⟩) (number data) (8 * data.length)
      ∧ (data.foldl encodeByte ⟨[], 0, 0⟩).bitsLeft < 5 := by
  induction data using List.reverseRecOn with
  | nil =>
    constructor
    · constructor
      · exact Holds.empty 5 0
      · simp
      · rfl
    · simp
  | append_singleton data byte ih =>
    obtain ⟨h, hlt⟩ := ih
    rw [List.foldl_append, List.foldl_cons, List.foldl_nil, number_concat]
    generalize data.foldl encodeByte ⟨[], 0, 0⟩ = s at h hlt
    have hcount := h.count_eq
    refine encodeWhile_encodes (by omega) ⟨?_, h.letters, ?_⟩
    · exact h.holds.push byte.toNat_lt (by omega)
    · simp only [List.length_append, List.length_singleton]
      omega

/-- **The code of a byte sequence**: characters of the alphabet whose digits
write its number, padded to a multiple of five bits. -/
theorem base32Encode_spec (data : Bytes) :
    (∀ c ∈ base32Encode data, c ∈ base32Alphabet)
      ∧ ∃ pad < 5, 5 * (base32Encode data).length = 8 * data.length + pad
        ∧ value (2 ^ 5) ((base32Encode data).map digit) = number data * 2 ^ pad := by
  obtain ⟨h, hlt⟩ := foldl_encodeByte data
  rw [base32Encode]
  generalize data.foldl encodeByte ⟨[], 0, 0⟩ = s at h hlt
  have hcount := h.count_eq
  by_cases hpos : s.bitsLeft > 0
  · -- the last character is one more emission, from the padded buffer
    have hpad := h.holds.pad (5 - s.bitsLeft) (by omega)
    rw [Nat.add_sub_cancel' hlt.le, ← Nat.zero_add 5] at hpad
    have hlast : Encodes ⟨s.result ++ [base32Char
        ((s.buffer <<< (5 - s.bitsLeft)).sshiftRight 0 &&& 0x1f)],
          s.buffer <<< (5 - s.bitsLeft), 0⟩
        (number data * 2 ^ (5 - s.bitsLeft)) (8 * data.length + (5 - s.bitsLeft)) := by
      refine Encodes.emit (by decide) ⟨hpad, h.letters, ?_⟩
      show 5 * s.result.length + (0 + 5) = _
      omega
    rw [BitVec.sshiftRight_zero] at hlast
    rw [if_pos hpos]
    exact ⟨hlast.letters, 5 - s.bitsLeft, by omega, hlast.count_eq,
      hlast.holds.value_eq⟩
  · have hzero : s.bitsLeft = 0 := by omega
    have hholds := h.holds
    rw [hzero] at hholds hcount
    rw [if_neg hpos]
    refine ⟨h.letters, 0, by decide, hcount, ?_⟩
    rw [hholds.value_eq, pow_zero, Nat.mul_one]

/-! ## Decoding -/

/-- The bytes read so far and the pending bits are `count` bits that write
`total`. -/
structure Decodes (s : Decoder) (total count : ℕ) : Prop where
  holds : Holds 8 s.bytes s.buffer s.bitsLeft total
  count_eq : 8 * s.bytes.length + s.bitsLeft = count
  bitsLeft_lt : s.bitsLeft < 8

theorem idxOf_letter {c : Char} (hc : c ∈ base32Alphabet) :
    base32Alphabet.idxOf? c = some (digit c) ∧ digit c < 2 ^ 5 := by
  have hall : base32Alphabet.all (fun c =>
      base32Alphabet.idxOf? c == some (digit c) && digit c < 2 ^ 5) = true := by
    decide
  have hletter := List.all_eq_true.mp hall c hc
  simpa using hletter

theorem decodeChar_decodes {s : Decoder} {total count : ℕ} {c : Char}
    (hc : c ∈ base32Alphabet) (h : Decodes s total count) :
    ∃ s', decodeChar s c = .ok s'
      ∧ Decodes s' (total * 2 ^ 5 + digit c) (count + 5) := by
  obtain ⟨hidx, hdigit⟩ := idxOf_letter hc
  have hlt := h.bitsLeft_lt
  have hcount := h.count_eq
  have hpush := h.holds.push hdigit (by omega)
  by_cases hge : s.bitsLeft + 5 ≥ 8
  · have hpull := hpush
    rw [← Nat.sub_add_cancel hge] at hpull
    refine ⟨_, by rw [decodeChar, hidx]; exact if_pos hge, hpull.pull (by omega), ?_, ?_⟩
    · simp only [List.length_append, List.length_singleton]
      omega
    · show s.bitsLeft + 5 - 8 < 8
      omega
  · refine ⟨_, by rw [decodeChar, hidx]; exact if_neg hge, hpush, ?_, ?_⟩
    · show 8 * s.bytes.length + (s.bitsLeft + 5) = count + 5
      omega
    · exact Nat.not_le.mp hge

theorem foldlM_decodeChar {text : List Char} (h : ∀ c ∈ text, c ∈ base32Alphabet) :
    ∃ s, text.foldlM decodeChar ⟨[], 0, 0⟩ = .ok s
      ∧ Decodes s (value (2 ^ 5) (text.map digit)) (5 * text.length) := by
  induction text using List.reverseRecOn with
  | nil => exact ⟨_, rfl, Holds.empty 8 0, rfl, by decide⟩
  | append_singleton text c ih =>
    obtain ⟨s, hs, hdecodes⟩ := ih fun d hd => h d (by simp [hd])
    obtain ⟨s', hs', hdecodes'⟩ := decodeChar_decodes (h c (by simp)) hdecodes
    refine ⟨s', ?_, ?_⟩
    · rw [List.foldlM_append, hs]
      show (decodeChar s c >>= pure) = Except.ok s'
      rw [hs']
      rfl
    · simpa [Nat.mul_add] using hdecodes'

/-- **The text code inverts**: every byte sequence is read back. -/
theorem base32Decode_base32Encode (data : Bytes) :
    base32Decode (base32Encode data) = .ok data := by
  obtain ⟨hletters, pad, hpad, hlen, hvalue⟩ := base32Encode_spec data
  obtain ⟨s, hs, hdecodes⟩ := foldlM_decodeChar hletters
  have hcount := hdecodes.count_eq
  have hlt := hdecodes.bitsLeft_lt
  have hholds := hdecodes.holds
  -- the bits left over are the padding
  have hbits : s.bitsLeft = pad := by omega
  rw [hvalue, ← hbits] at hholds
  have hbytes : s.bytes = data.map UInt8.toNat := by
    refine value_inj (by decide) ?_ hholds.1 ?_ hholds.value_of_padded
    · rw [List.length_map]
      omega
    · intro d hd
      obtain ⟨byte, -, rfl⟩ := List.mem_map.mp hd
      exact byte.toNat_lt
  have hmap : s.bytes.map UInt8.ofNat = data := by
    rw [hbytes, List.map_map]
    simp [Function.comp_def]
  rw [base32Decode, hs]
  exact congrArg Except.ok hmap

example : base32Encode [0x66, 0x6f, 0x6f] = "MZXW6".toList := by decide

/-! ## Codes as they are typed -/

/-- A character in either case. -/
def SameLetter (c t : Char) : Prop := t = c ∨ t = c.toLower ∨ t = c.toUpper

/-- `typed` is `code` with the case of letters changed, and dashes and white
space removed or added. -/
inductive Retyped : List Char → List Char → Prop
  | nil : Retyped [] []
  | keep {c t : Char} {code typed : List Char} :
      SameLetter c t → Retyped code typed → Retyped (c :: code) (t :: typed)
  | remove {c : Char} {code typed : List Char} :
      isSeparator c = true → Retyped code typed → Retyped (c :: code) typed
  | add {t : Char} {code typed : List Char} :
      isSeparator t = true → Retyped code typed → Retyped code (t :: typed)

theorem Retyped.refl (code : List Char) : Retyped code code := by
  induction code with
  | nil => exact .nil
  | cons c code ih => exact .keep (.inl rfl) ih

theorem Retyped.lower (code : List Char) : Retyped code (code.map Char.toLower) := by
  induction code with
  | nil => exact .nil
  | cons c code ih => exact .keep (.inr (.inl rfl)) ih

theorem sameLetter_letter {c t : Char} (hc : c ∈ base32Alphabet)
    (ht : SameLetter c t) :
    isSeparator t = false ∧ t.toUpper = c ∧ t.toNat < 128 := by
  have hall : base32Alphabet.all (fun c => [c, c.toLower, c.toUpper].all fun t =>
      !isSeparator t && t.toUpper == c && t.toNat < 128) = true := by
    decide
  have hmem : t ∈ [c, c.toLower, c.toUpper] := by simpa [SameLetter] using ht
  have hletter := List.all_eq_true.mp (List.all_eq_true.mp hall c hc) t hmem
  simpa [and_assoc] using hletter

theorem isSeparator_letter {c : Char} (hc : c ∈ base32Alphabet) :
    isSeparator c = false :=
  (sameLetter_letter hc (.inl rfl)).1

theorem strip_letter {c : Char} (code : List Char) (hc : isSeparator c = false) :
    strip (c :: code) = c :: strip code := by
  simp [strip, hc]

theorem strip_separator {c : Char} (code : List Char) (hc : isSeparator c = true) :
    strip (c :: code) = strip code := by
  simp [strip, hc]

/-- The characters of a code. -/
def CodeChar (c : Char) : Prop := c ∈ base32Alphabet ∨ c = '-'

/-- Typing a code again changes nothing that is left after normalisation. -/
theorem strip_retyped {code typed : List Char} (h : Retyped code typed)
    (hcode : ∀ c ∈ code, CodeChar c) :
    (strip typed).map Char.toUpper = strip code
      ∧ ∀ t ∈ strip typed, t.toNat < 128 := by
  induction h with
  | nil => simp [strip]
  | @keep c t code typed hsame _ ih =>
    obtain ⟨hmap, hascii⟩ := ih fun d hd => hcode d (by simp [hd])
    rcases hcode c (by simp) with hletter | rfl
    · obtain ⟨hsep, hupper, hlt⟩ := sameLetter_letter hletter hsame
      rw [strip_letter _ hsep, strip_letter _ (isSeparator_letter hletter),
        List.map_cons, hupper, hmap]
      exact ⟨rfl, List.forall_mem_cons.mpr ⟨hlt, hascii⟩⟩
    · -- a dash has no case
      have hdash : isSeparator '-' = true := by decide
      obtain rfl : t = '-' := by
        rcases hsame with h | h | h <;> exact h
      rw [strip_separator _ hdash, strip_separator _ hdash]
      exact ⟨hmap, hascii⟩
  | remove hsep _ ih =>
    rw [strip_separator _ hsep]
    exact ih fun d hd => hcode d (by simp [hd])
  | add hsep _ ih =>
    rw [strip_separator _ hsep]
    exact ih hcode

/-! ## Groups -/

theorem flatten_groupsOf (base32 : List Char) : (groupsOf base32).flatten = base32 := by
  have htake : ∀ m, ((List.range m).map fun i => (base32.drop (4 * i)).take 4).flatten
      = base32.take (4 * m) := by
    intro m
    induction m with
    | zero => simp
    | succ m ih =>
      rw [List.range_succ, List.map_append, List.flatten_append, ih, Nat.mul_add,
        List.take_add]
      simp
  rw [groupsOf, htake, List.take_of_length_le (by omega)]

/-- Joining groups by dashes adds only dashes, which normalisation removes. -/
theorem strip_intercalate {groups : List (List Char)}
    (h : ∀ group ∈ groups, ∀ c ∈ group, c ∈ base32Alphabet) :
    strip (['-'].intercalate groups) = groups.flatten
      ∧ ∀ c ∈ ['-'].intercalate groups, CodeChar c := by
  induction groups with
  | nil => simp [strip]
  | cons group groups ih =>
    obtain ⟨hrest, hchars⟩ := ih fun g hg => h g (by simp [hg])
    have hgroup : strip group = group := by
      refine List.filter_eq_self.mpr fun c hc => ?_
      simp [isSeparator_letter (h group (by simp) c hc)]
    have hletters : ∀ c ∈ group, CodeChar c :=
      fun c hc => .inl (h group (by simp) c hc)
    by_cases hempty : groups = []
    · subst hempty
      simpa [hgroup] using hletters
    · have happend : ∀ xs ys, strip (xs ++ ys) = strip xs ++ strip ys := by
        simp [strip]
      have hdash : strip ['-'] = [] := by decide
      rw [List.intercalate_cons_of_ne_nil hempty, happend, happend, hgroup, hdash,
        hrest]
      refine ⟨by simp, fun c hc => ?_⟩
      rcases List.mem_append.mp hc with hc | hc
      · rcases List.mem_append.mp hc with hc | hc
        · exact hletters c hc
        · exact .inr (List.mem_singleton.mp hc)
      · exact hchars c hc

/-- The payload of a share: its index, then its data. -/
def payload (share : ShamirShare) : Bytes := UInt8.ofNat share.index :: share.data

theorem encodeRecoveryCode_spec (share : ShamirShare) :
    strip (encodeRecoveryCode share) = base32Encode (payload share)
      ∧ ∀ c ∈ encodeRecoveryCode share, CodeChar c := by
  have hgroups : ∀ group ∈ groupsOf (base32Encode (payload share)), ∀ c ∈ group,
      c ∈ base32Alphabet := by
    intro group hgroup c hc
    refine (base32Encode_spec (payload share)).1 c ?_
    rw [← flatten_groupsOf (base32Encode (payload share))]
    exact List.mem_flatten.mpr ⟨group, hgroup, hc⟩
  have hstrip := strip_intercalate hgroups
  rwa [flatten_groupsOf] at hstrip

/-! ## The way round -/

/-- A share with data and an index of one byte is read back from its code,
however it is typed. -/
theorem decodeRecoveryCode_retyped (js : UpperCase) {share : ShamirShare}
    (hindex : share.index ≤ 255) (hdata : share.data ≠ []) {typed : List Char}
    (h : Retyped (encodeRecoveryCode share) typed) :
    decodeRecoveryCode js typed = .ok share := by
  obtain ⟨hcode, hchars⟩ := encodeRecoveryCode_spec share
  obtain ⟨hmap, hascii⟩ := strip_retyped h hchars
  have hcleaned : js.toUpperCase (strip typed) = base32Encode (payload share) := by
    rw [js.ascii _ hascii, hmap, hcode]
  have hmod : share.index % 256 = share.index := Nat.mod_eq_of_lt (by omega)
  obtain ⟨index, data⟩ := share
  cases data with
  | nil => exact absurd rfl hdata
  | cons byte data =>
    rw [decodeRecoveryCode, hcleaned, base32Decode_base32Encode]
    show Except.ok (⟨(UInt8.ofNat index).toNat, byte :: data⟩ : ShamirShare) = _
    rw [UInt8.toNat_ofNat', hmod]

theorem encodeRecoveryCode_inj (js : UpperCase) {share other : ShamirShare}
    (hindex : share.index ≤ 255) (hdata : share.data ≠ [])
    (hindex' : other.index ≤ 255) (hdata' : other.data ≠ [])
    (h : encodeRecoveryCode share = encodeRecoveryCode other) : share = other := by
  have hshare := decodeRecoveryCode_retyped js hindex hdata (Retyped.refl _)
  rw [h, decodeRecoveryCode_retyped js hindex' hdata' (Retyped.refl _)] at hshare
  exact (Except.ok.inj hshare).symm

theorem mapM_decodeRecoveryCode (js : UpperCase) {shares : List ShamirShare}
    {typed : List (List Char)}
    (hshare : ∀ share ∈ shares, share.index ≤ 255 ∧ share.data ≠ [])
    (h : List.Forall₂ Retyped (shares.map encodeRecoveryCode) typed) :
    typed.mapM (decodeRecoveryCode js) = .ok shares := by
  induction shares generalizing typed with
  | nil =>
    obtain rfl := List.forall₂_nil_left_iff.mp h
    rfl
  | cons share shares ih =>
    obtain ⟨code, rest, hcode, hrest, rfl⟩ := List.forall₂_cons_left_iff.mp h
    obtain ⟨hindex, hdata⟩ := hshare share (by simp)
    rw [List.mapM_cons, decodeRecoveryCode_retyped js hindex hdata hcode,
      ih (fun other hmem => hshare other (by simp [hmem])) hrest]
    rfl

theorem exists_chosen {shares : List ShamirShare} {picked : List (List Char)}
    (h : ∀ code ∈ picked, code ∈ shares.map encodeRecoveryCode) :
    ∃ chosen : List ShamirShare, (∀ share ∈ chosen, share ∈ shares)
      ∧ chosen.map encodeRecoveryCode = picked := by
  induction picked with
  | nil => exact ⟨[], by simp, rfl⟩
  | cons code picked ih =>
    obtain ⟨chosen, hchosen, rfl⟩ := ih fun other hmem => h other (by simp [hmem])
    obtain ⟨share, hshare, rfl⟩ := List.mem_map.mp (h code (by simp))
    exact ⟨share :: chosen, List.forall_mem_cons.mpr ⟨hshare, hchosen⟩, rfl⟩

/-- **Recovery codes recover the key**: of the generated codes, any `k`
distinct ones or more, in any order and however they are typed, give back
the MEK. -/
theorem recoverMEK_generateRecoveryCodes (js : UpperCase) (mek : ByteVec 64)
    (n k : Nat) (hk : 2 ≤ k) (hkn : k ≤ n) (hn : n ≤ 255)
    (coefficientBytes : Bytes) :
    ∃ codes, generateRecoveryCodes mek.toList ⟨n, k⟩ coefficientBytes = .ok codes
      ∧ codes.length = n ∧ codes.Nodup
      ∧ ∀ picked typed : List (List Char), picked.Nodup →
        (∀ code ∈ picked, code ∈ codes) → k ≤ picked.length →
        List.Forall₂ Retyped picked typed →
        recoverMEK js typed = .ok mek.toList := by
  let share := shareAt mek.toList coefficientBytes k
  let shares := (List.range n).map fun i => share (i + 1)
  have hlen : mek.toList.length = 64 := mek.toList_length
  have hsplit : splitSecret mek.toList n k coefficientBytes = .ok shares :=
    splitSecret_ok (List.ne_nil_of_length_pos (by omega)) hk hkn hn _
  have hshare : ∀ s ∈ shares, s.index ≤ 255 ∧ s.data ≠ [] := by
    intro s hs
    obtain ⟨i, hi, rfl⟩ := List.mem_map.mp hs
    have hin : i < n := List.mem_range.mp hi
    refine ⟨?_, List.ne_nil_of_length_pos ?_⟩
    · show i + 1 ≤ 255
      omega
    · simp [share, shareAt]
  have hinj : ∀ s ∈ shares, ∀ t ∈ shares,
      encodeRecoveryCode s = encodeRecoveryCode t → s = t :=
    fun s hs t ht => encodeRecoveryCode_inj js (hshare s hs).1 (hshare s hs).2
      (hshare t ht).1 (hshare t ht).2
  have hnodup : shares.Nodup := by
    refine List.Nodup.map ?_ List.nodup_range
    intro i j hij
    simpa [share, shareAt] using congrArg ShamirShare.index hij
  refine ⟨shares.map encodeRecoveryCode, by rw [generateRecoveryCodes, hsplit],
    by simp [shares], List.Nodup.map_on hinj hnodup, ?_⟩
  intro picked typed hdistinct hmem hcount htyped
  -- each picked code is the code of a share
  obtain ⟨chosen, hchosen, rfl⟩ := exists_chosen hmem
  have hdecode := mapM_decodeRecoveryCode js
    (fun s hs => hshare s (hchosen s hs)) htyped
  have hrecover := reconstructSecret_splitSecret hk hn hchosen hdistinct.of_map
    (by simpa using hcount)
  rw [hlen] at hrecover
  rw [recoverMEK, hdecode]
  show (match reconstructSecret chosen (some 64) with
    | .ok mek => Except.ok mek
    | .error message => .error s!"MEK recovery failed: {message}") = _
  rw [hrecover]

def asciiUpper : UpperCase := ⟨fun text => text.map Char.toUpper, fun _ _ => rfl⟩

/-- A key of sevens split 2-of-3; all codes, in reverse and in lower case. -/
theorem recoverMEK_generateRecoveryCodes_sample :
    ∃ codes, generateRecoveryCodes (List.Vector.replicate 64 7).toList ⟨3, 2⟩ [5, 200]
        = .ok codes
      ∧ recoverMEK asciiUpper (codes.reverse.map (·.map Char.toLower))
        = .ok (List.Vector.replicate 64 7).toList := by
  obtain ⟨codes, hcodes, hlen, hnodup, hrecover⟩ :=
    recoverMEK_generateRecoveryCodes asciiUpper (List.Vector.replicate 64 7) 3 2
      (by decide) (by decide) (by decide) [5, 200]
  refine ⟨codes, hcodes, hrecover codes.reverse _ (List.nodup_reverse.mpr hnodup)
    (by simp) (by simp [hlen]) ?_⟩
  rw [List.forall₂_map_right_iff]
  exact List.forall₂_same.mpr fun code _ => Retyped.lower code

end UsbVault.App.Recovery
