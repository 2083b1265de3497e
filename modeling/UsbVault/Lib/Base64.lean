import UsbVault.Lib.Bytes

/-!
# Base64

The text `btoa` gives for bytes, and what `atob` reads from a text: blanks
are passed over, and the padding may be missing. What was encoded is decoded
(`decode_encode`).
-/

namespace Base64

open Wire

/-! ## Groups of six bits -/

def sextets : List Nat → List Nat
  | [] => []
  | [a] => [a / 4, a % 4 * 16]
  | [a, b] => [a / 4, a % 4 * 16 + b / 16, b % 16 * 4]
  | a :: b :: c :: bytes =>
    (a / 4) :: (a % 4 * 16 + b / 16) :: (b % 16 * 4 + c / 64) :: (c % 64) :: sextets bytes

/-- What is left of a byte at the end is dropped. -/
def octets : List Nat → List Nat
  | w :: x :: y :: z :: values =>
    (w * 4 + x / 16) :: (x % 16 * 16 + y / 4) :: (y % 4 * 64 + z) :: octets values
  | [w, x, y] => [w * 4 + x / 16, x % 16 * 16 + y / 4]
  | [w, x] => [w * 4 + x / 16]
  | _ => []

theorem octets_sextets {bytes : List Nat} (h : ∀ b ∈ bytes, b < 256) :
    octets (sextets bytes) = bytes := by
  induction bytes using sextets.induct with
  | case1 => rfl
  | case2 a =>
    have hback : a / 4 * 4 + a % 4 * 16 / 16 = a := by omega
    rw [sextets, octets, hback]
  | case3 a b =>
    have ha : a < 256 := h a (by simp)
    have hb : b < 256 := h b (by simp)
    have hfirst : a / 4 * 4 + (a % 4 * 16 + b / 16) / 16 = a := by omega
    have hsecond : (a % 4 * 16 + b / 16) % 16 * 16 + b % 16 * 4 / 4 = b := by omega
    rw [sextets, octets, hfirst, hsecond]
  | case4 a b c bytes ih =>
    have ha : a < 256 := h a (by simp)
    have hb : b < 256 := h b (by simp)
    have hc : c < 256 := h c (by simp)
    have hfirst : a / 4 * 4 + (a % 4 * 16 + b / 16) / 16 = a := by omega
    have hsecond : (a % 4 * 16 + b / 16) % 16 * 16 + (b % 16 * 4 + c / 64) / 4 = b := by omega
    have hthird : (b % 16 * 4 + c / 64) % 4 * 64 + c % 64 = c := by omega
    rw [sextets, octets, hfirst, hsecond, hthird, ih fun d hd => h d (by simp [hd])]

theorem sextets_lt {bytes : List Nat} (h : ∀ b ∈ bytes, b < 256) : ∀ d ∈ sextets bytes, d < 64 := by
  induction bytes using sextets.induct with
  | case1 => simp [sextets]
  | case2 a =>
    have ha : a < 256 := h a (by simp)
    simp only [sextets, List.mem_cons, List.not_mem_nil, or_false]
    omega
  | case3 a b =>
    have ha : a < 256 := h a (by simp)
    have hb : b < 256 := h b (by simp)
    simp only [sextets, List.mem_cons, List.not_mem_nil, or_false]
    omega
  | case4 a b c bytes ih =>
    have ha : a < 256 := h a (by simp)
    have hb : b < 256 := h b (by simp)
    have hc : c < 256 := h c (by simp)
    have hrest := ih fun d hd => h d (by simp [hd])
    intro d hd
    simp only [sextets, List.mem_cons] at hd
    rcases hd with rfl | rfl | rfl | rfl | hd
    · omega
    · omega
    · omega
    · omega
    · exact hrest d hd

/-! ## Characters -/

def alphabet : List Char :=
  ['A', 'B', 'C', 'D', 'E', 'F', 'G', 'H', 'I', 'J', 'K', 'L', 'M', 'N', 'O', 'P', 'Q', 'R', 'S',
    'T', 'U', 'V', 'W', 'X', 'Y', 'Z', 'a', 'b', 'c', 'd', 'e', 'f', 'g', 'h', 'i', 'j', 'k', 'l',
    'm', 'n', 'o', 'p', 'q', 'r', 's', 't', 'u', 'v', 'w', 'x', 'y', 'z', '0', '1', '2', '3', '4',
    '5', '6', '7', '8', '9', '+', '/']

def digit (n : Nat) : Char := alphabet.getD n '='

def digitValue (c : Char) : Option Nat := alphabet.idxOf? c

def blank (c : Char) : Bool := c ∈ [' ', '\t', '\n', '\x0c', '\r']

def padding (bytes : List Nat) : List Char := List.replicate ((3 - bytes.length % 3) % 3) '='

def encode (bytes : Bytes) : List Char :=
  let values := bytes.map UInt8.toNat
  (sextets values).map digit ++ padding values

/-- Without one or two `=` at its end. -/
def unpadded (text : List Char) : List Char :=
  match text.reverse with
  | '=' :: '=' :: rest => rest.reverse
  | '=' :: rest => rest.reverse
  | _ => text

def decode (text : List Char) : Option Bytes :=
  let text := text.filter fun c => !blank c
  let text := if text.length % 4 = 0 then unpadded text else text
  if text.length % 4 = 1 then none
  else (text.mapM digitValue).map fun values => (octets values).map UInt8.ofNat

theorem digit_spec : ∀ n < 64,
    digitValue (digit n) = some n ∧ digit n ≠ '=' ∧ blank (digit n) = false := by decide

theorem mapM_digitValue {values : List Nat} (h : ∀ d ∈ values, d < 64) :
    (values.map digit).mapM digitValue = some values := by
  induction values with
  | nil => rfl
  | cons d values ih =>
    have hd := (digit_spec d (h d List.mem_cons_self)).1
    have hrest := ih fun d' hd' => h d' (List.mem_cons_of_mem _ hd')
    rw [List.map_cons, List.mapM_cons, hd, hrest]
    rfl

theorem length_sextets (bytes : List Nat) :
    (sextets bytes).length % 4 ≠ 1
      ∧ ((sextets bytes).length + (3 - bytes.length % 3) % 3) % 4 = 0 := by
  induction bytes using sextets.induct with
  | case1 => decide
  | case2 a => simp [sextets]
  | case3 a b => simp [sextets]
  | case4 a b c bytes ih =>
    simp only [sextets, List.length_cons]
    omega

theorem unpadded_append {text : List Char} (h : '=' ∉ text) (n : Nat) (hn : n ≤ 2) :
    unpadded (text ++ List.replicate n '=') = text := by
  have hplain : ∀ rest : List Char, text.reverse ≠ '=' :: rest := by
    intro rest heq
    exact h (List.mem_reverse.mp (heq ▸ List.mem_cons_self))
  match n, hn with
  | 0, _ =>
    rw [List.replicate_zero, List.append_nil, unpadded]
    split
    · rename_i rest heq
      exact absurd heq (hplain _)
    · rename_i rest heq
      exact absurd heq (hplain _)
    · rfl
  | 1, _ =>
    rw [unpadded, List.reverse_append, List.reverse_replicate]
    simp only [List.replicate_one, List.cons_append, List.nil_append]
    exact List.reverse_reverse text
  | 2, _ =>
    rw [unpadded, List.reverse_append, List.reverse_replicate]
    exact List.reverse_reverse text

theorem toNat_lt {bytes : Bytes} : ∀ b ∈ bytes.map UInt8.toNat, b < 256 := by
  intro b hb
  obtain ⟨u, -, rfl⟩ := List.mem_map.mp hb
  exact u.toNat_lt

theorem blank_encode {bytes : Bytes} {c : Char} (hc : c ∈ encode bytes) : blank c = false := by
  rcases List.mem_append.mp hc with hc | hc
  · obtain ⟨d, hd, rfl⟩ := List.mem_map.mp hc
    exact (digit_spec d (sextets_lt toNat_lt d hd)).2.2
  · rw [List.eq_of_mem_replicate hc]
    decide

theorem length_encode (bytes : Bytes) : (encode bytes).length % 4 = 0 := by
  rw [encode, List.length_append, List.length_map, padding, List.length_replicate]
  exact (length_sextets (bytes.map UInt8.toNat)).2

theorem unpadded_encode (bytes : Bytes) :
    unpadded (encode bytes) = (sextets (bytes.map UInt8.toNat)).map digit := by
  refine unpadded_append ?_ _ (by omega)
  rw [List.mem_map]
  rintro ⟨d, hd, heq⟩
  exact (digit_spec d (sextets_lt toNat_lt d hd)).2.1 heq

/-- The bytes of the digits. -/
theorem octets_encode (bytes : Bytes) :
    (((sextets (bytes.map UInt8.toNat)).map digit).mapM digitValue).map
      (fun values => (octets values).map UInt8.ofNat) = some bytes := by
  have hback : (UInt8.ofNat ∘ UInt8.toNat) = id := funext fun u => UInt8.ofNat_toNat
  rw [mapM_digitValue (sextets_lt toNat_lt), Option.map_some, octets_sextets toNat_lt,
    List.map_map, hback, List.map_id]

/-- **What was encoded is decoded.** -/
theorem decode_encode (bytes : Bytes) : decode (encode bytes) = some bytes := by
  have hfilter : (encode bytes).filter (fun c => !blank c) = encode bytes :=
    List.filter_eq_self.mpr fun c hc => by rw [blank_encode hc]; rfl
  obtain ⟨hone, -⟩ := length_sextets (bytes.map UInt8.toNat)
  rw [decode, hfilter, if_pos (length_encode bytes), unpadded_encode, List.length_map,
    if_neg hone, octets_encode]

/-! ## The strict form -/

/-- Line breaks are passed over, and the padding must be there. -/
def decodeStrict (text : List Char) : Option Bytes :=
  let text := text.filter fun c => c ≠ '\r' ∧ c ≠ '\n'
  if text.length % 4 = 0 then
    ((unpadded text).mapM digitValue).map fun values => (octets values).map UInt8.ofNat
  else none

theorem decodeStrict_encode (bytes : Bytes) : decodeStrict (encode bytes) = some bytes := by
  have hfilter : (encode bytes).filter (fun c => c ≠ '\r' ∧ c ≠ '\n') = encode bytes := by
    refine List.filter_eq_self.mpr fun c hc => ?_
    have hblank := blank_encode hc
    rw [decide_eq_true_iff]
    constructor
    · rintro rfl
      cases hblank
    · rintro rfl
      cases hblank
  rw [decodeStrict, hfilter, if_pos (length_encode bytes), unpadded_encode, octets_encode]

end Base64
