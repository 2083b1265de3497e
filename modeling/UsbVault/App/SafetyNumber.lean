import Mathlib.Data.Sym.Sym2
import UsbVault.Lib.Digits
import UsbVault.Lib.Utf8

/-!
# Safety numbers

`generateSafetyNumber` and `formatSafetyNumber` of the key verification
service. SHA-256 is a parameter. The number is made of the first 24 bytes of
the hash of the local key's text followed by the remote key's.

The two texts can be read back from the hash input (`hashInput_inj`), and the
24 bytes from the number (`formatSafetyNumber_inj`): two safety numbers are
equal when both keys are, in this order and as text.
-/

namespace UsbVault.App.KeyVerification

open Wire Digits

/-- `/^[0-9a-f]{64}$/i.test(key)` -/
def isKeyHex (key : List Char) : Bool :=
  key.length = 64 ∧ key.all fun c => (hexValue c).isSome

def SAFETY_NUMBER_GROUPS : Nat := 12

def DIGITS_PER_GROUP : Nat := 5

/-- One group: two bytes of the hash. -/
def group (hashBytes : Bytes) (i : Nat) : Nat :=
  let byte1 := (hashBytes.getD (i * 2) 0).toNat
  let byte2 := (hashBytes.getD (i * 2 + 1) 0).toNat
  ((byte1 <<< 8) ||| byte2) % 100000

def formatSafetyNumber (hash : List Char) : List Char :=
  let hashBytes := decodeHex hash
  joined ' ' DIGITS_PER_GROUP ((List.range SAFETY_NUMBER_GROUPS).map (group hashBytes))

/-- `encoder.encode(localPublicKey + remotePublicKey)` -/
def hashInput (localPublicKey remotePublicKey : List Char) : Bytes :=
  Utf8.encode (localPublicKey ++ remotePublicKey)

/-- The `try` block of `generateSafetyNumber`. -/
def safetyNumberOf (sha256 : Bytes → ByteVec 32) (localPublicKey remotePublicKey : List Char) :
    Except String (List Char) :=
  if isKeyHex localPublicKey = false then
    .error "Invalid local public key: expected 64 hex characters"
  else if isKeyHex remotePublicKey = false then
    .error "Invalid remote public key: expected 64 hex characters"
  else
    let hashHex := encodeHex (sha256 (hashInput localPublicKey remotePublicKey)).toList
    .ok (formatSafetyNumber hashHex)

def generateSafetyNumber (sha256 : Bytes → ByteVec 32)
    (localPublicKey remotePublicKey : List Char) : Except String (List Char) :=
  (safetyNumberOf sha256 localPublicKey remotePublicKey).mapError fun message =>
    s!"Failed to generate safety number: {message}"

variable {sha256 : Bytes → ByteVec 32} {a b c d : List Char}

theorem length_of_isKeyHex (h : isKeyHex a) : a.length = 64 := by
  simp only [isKeyHex, decide_eq_true_eq] at h
  exact h.1

theorem generateSafetyNumber_eq (ha : isKeyHex a) (hb : isKeyHex b) :
    generateSafetyNumber sha256 a b
      = .ok (formatSafetyNumber (encodeHex (sha256 (hashInput a b)).toList)) := by
  simp only [generateSafetyNumber, safetyNumberOf, ha, hb, Bool.true_eq_false, if_false]
  rfl

/-- **Keys of any other form are refused**, and the error says which. -/
theorem generateSafetyNumber_error (h : isKeyHex a = false ∨ isKeyHex b = false) :
    generateSafetyNumber sha256 a b
      = .error ("Failed to generate safety number: Invalid "
          ++ (if isKeyHex a then "remote" else "local")
          ++ " public key: expected 64 hex characters") := by
  cases ha : isKeyHex a with
  | false =>
    simp only [generateSafetyNumber, safetyNumberOf, ha, if_true]
    rfl
  | true =>
    have hb : isKeyHex b = false := by simpa [ha] using h
    simp only [generateSafetyNumber, safetyNumberOf, ha, hb, Bool.true_eq_false, if_true,
      if_false]
    rfl

/-! ## What is hashed -/

/-- **Both keys can be read back from the hash input.** -/
theorem hashInput_inj (ha : isKeyHex a) (hc : isKeyHex c) (h : hashInput a b = hashInput c d) :
    a = c ∧ b = d := by
  have htext : a ++ b = c ++ d := by
    have hdecode := congrArg Utf8.decode h
    simpa only [hashInput, Utf8.decode_encode] using hdecode
  refine List.append_inj htext ?_
  rw [length_of_isKeyHex ha, length_of_isKeyHex hc]

/-! ## What the number says about the hash -/

theorem group_eq (bytes : Bytes) (i : Nat) :
    group bytes i
      = (bytes.getD (i * 2) 0).toNat * 256 + (bytes.getD (i * 2 + 1) 0).toNat := by
  have hhigh := (bytes.getD (i * 2) 0).toNat_lt
  have hlow := (bytes.getD (i * 2 + 1) 0).toNat_lt
  rw [group, ← Nat.shiftLeft_add_eq_or_of_lt (by omega), Nat.shiftLeft_eq,
    Nat.mod_eq_of_lt (by omega)]

theorem getD_of_group {bs cs : Bytes} {i : Nat} (h : group bs (i / 2) = group cs (i / 2)) :
    bs.getD i 0 = cs.getD i 0 := by
  rw [group_eq, group_eq] at h
  have hb := (bs.getD (i / 2 * 2) 0).toNat_lt
  have hb' := (bs.getD (i / 2 * 2 + 1) 0).toNat_lt
  have hc := (cs.getD (i / 2 * 2) 0).toNat_lt
  have hc' := (cs.getD (i / 2 * 2 + 1) 0).toNat_lt
  refine UInt8.toNat_inj.mp ?_
  rcases Nat.mod_two_eq_zero_or_one i with heven | hodd
  · have hi : i = i / 2 * 2 := by omega
    rw [hi]
    omega
  · have hi : i = i / 2 * 2 + 1 := by omega
    rw [hi]
    omega

/-- **The first 24 bytes of the hash can be read back from the number.** -/
theorem formatSafetyNumber_inj {g h : ByteVec 32}
    (heq : formatSafetyNumber (encodeHex g.toList) = formatSafetyNumber (encodeHex h.toList)) :
    g.toList.take 24 = h.toList.take 24 := by
  simp only [formatSafetyNumber, decodeHex_encodeHex] at heq
  have hgroups := joined_inj (by decide) (by simp [SAFETY_NUMBER_GROUPS])
    (by simp [SAFETY_NUMBER_GROUPS]) heq
  have hlen : g.toList.length = h.toList.length := by
    rw [List.Vector.toList_length, List.Vector.toList_length]
  refine List.ext_getElem (by rw [List.length_take, List.length_take, hlen]) ?_
  intro i hi hi'
  rw [List.length_take] at hi hi'
  have hgroup : group g.toList (i / 2) = group h.toList (i / 2) := by
    refine List.map_inj_left.mp hgroups (i / 2) ?_
    rw [List.mem_range, SAFETY_NUMBER_GROUPS]
    omega
  have hbyte := getD_of_group hgroup
  rw [List.getD_eq_getElem?_getD, List.getD_eq_getElem?_getD,
    List.getElem?_eq_getElem (by omega), List.getElem?_eq_getElem (by omega)] at hbyte
  rw [List.getElem_take, List.getElem_take]
  exact hbyte

/-- No collision in the bytes that the number is made of. -/
def NoCollision (sha256 : Bytes → ByteVec 32) (inputs : Set Bytes) : Prop :=
  Set.InjOn (fun input => (sha256 input).toList.take 24) inputs

/-- **Two safety numbers are equal** when both keys are, in this order and as
text. -/
theorem generateSafetyNumber_eq_iff (ha : isKeyHex a) (hb : isKeyHex b) (hc : isKeyHex c)
    (hd : isKeyHex d) (hcoll : NoCollision sha256 {hashInput a b, hashInput c d}) :
    generateSafetyNumber sha256 a b = generateSafetyNumber sha256 c d ↔ a = c ∧ b = d := by
  constructor
  · intro h
    rw [generateSafetyNumber_eq ha hb, generateSafetyNumber_eq hc hd] at h
    have hbytes := formatSafetyNumber_inj (Except.ok.inj h)
    exact hashInput_inj ha hc (hcoll (by simp) (by simp) hbytes)
  · rintro ⟨rfl, rfl⟩
    rfl

/-- **The two phones' numbers** are equal when the two keys are the same text,
and no other pair of keys, in either order, has the same hash input. -/
theorem safetyNumbers_match (ha : isKeyHex a) (hb : isKeyHex b)
    (hcoll : NoCollision sha256 {hashInput a b, hashInput b a}) :
    (generateSafetyNumber sha256 a b = generateSafetyNumber sha256 b a ↔ a = b)
      ∧ ∀ c d, isKeyHex c → isKeyHex d →
          s(decodeHex a, decodeHex b) ≠ s(decodeHex c, decodeHex d) →
          hashInput a b ≠ hashInput c d := by
  refine ⟨?_, ?_⟩
  · rw [generateSafetyNumber_eq_iff ha hb hb ha hcoll]
    exact ⟨And.left, fun h => ⟨h, h.symm⟩⟩
  · intro c d hc _ hne heq
    obtain ⟨rfl, rfl⟩ := hashInput_inj ha hc heq
    exact hne rfl

/-! ## Two keys whose numbers differ -/

def zeroKey : List Char := List.replicate 64 '0'

def oneKey : List Char := List.replicate 64 '1'

/-- The hashes of the two keys' inputs. -/
def sampleSha256 (input : Bytes) : ByteVec 32 :=
  if input.head? = some 0x30 then
    ⟨[0x2c, 0x5a, 0x75, 0x7a, 0xf6, 0x55, 0x40, 0x0d, 0x3c, 0x30, 0xba, 0x6f, 0x2a, 0xec, 0x54,
      0x33, 0x40, 0x06, 0xe4, 0xb7, 0x84, 0xe2, 0xbc, 0xc7, 0x9b, 0x99, 0x45, 0x2a, 0xbf, 0xc6,
      0x6e, 0xc9], rfl⟩
  else
    ⟨[0x40, 0x49, 0x4d, 0x22, 0xc2, 0x6c, 0x5f, 0x5f, 0x78, 0xaa, 0xf8, 0xf8, 0x21, 0x64, 0x6d,
      0x27, 0x80, 0x6e, 0xb9, 0x0c, 0x71, 0x59, 0xe9, 0x01, 0x52, 0x9c, 0x7b, 0x74, 0xd5, 0x11,
      0xec, 0x80], rfl⟩

theorem noCollision_sample :
    NoCollision sampleSha256 {hashInput zeroKey oneKey, hashInput oneKey zeroKey} := by
  have hne : (sampleSha256 (hashInput zeroKey oneKey)).toList.take 24
      ≠ (sampleSha256 (hashInput oneKey zeroKey)).toList.take 24 := by
    decide
  intro x hx y hy heq
  rcases hx with rfl | rfl <;> rcases hy with rfl | rfl
  · rfl
  · exact absurd heq hne
  · exact absurd heq.symm hne
  · rfl

theorem safetyNumbers_match_zeroKey_oneKey :
    NoCollision sampleSha256 {hashInput zeroKey oneKey, hashInput oneKey zeroKey}
      ∧ (generateSafetyNumber sampleSha256 zeroKey oneKey
          = generateSafetyNumber sampleSha256 oneKey zeroKey ↔ zeroKey = oneKey) :=
  ⟨noCollision_sample, (safetyNumbers_match (by decide) (by decide) noCollision_sample).1⟩

/-- The two phones show different numbers. -/
theorem safetyNumbers_differ :
    ¬∀ (sha256 : Bytes → ByteVec 32) (a b : List Char), isKeyHex a → isKeyHex b →
      NoCollision sha256 {hashInput a b, hashInput b a} →
      generateSafetyNumber sha256 a b = generateSafetyNumber sha256 b a := by
  intro h
  have heq := h sampleSha256 zeroKey oneKey (by decide) (by decide) noCollision_sample
  rw [generateSafetyNumber_eq_iff (by decide) (by decide) (by decide) (by decide)
    noCollision_sample] at heq
  exact absurd heq.1 (by decide)

end UsbVault.App.KeyVerification
