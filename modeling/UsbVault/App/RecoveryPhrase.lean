import UsbVault.Lib.Bits

/-!
# Recovery phrases

The 24 words of a recovery phrase: the app's `services/vault/recoveryPhrase.ts`
generates them with a checksum and validates it, the companion's
`generateRecoveryPhrase` (`usbProvisioner.js`) draws every word at random.

A phrase of words of the list is valid when the bits of its indices are an
entropy and the first byte of its hash (`validateMnemonic_iff`). The app's
phrases always are, the companion's when the dice fall that way
(`phrases_valid_iff`).
-/

namespace UsbVault.App.RecoveryPhrase

open Wire Bits

/-- `BIP39_ENGLISH_WORDLIST` of the app, `BIP39_WORDLIST` of the companion. -/
structure WordList where
  words : List String
  length_eq : words.length = 2048
  nodup : words.Nodup

/-- `BIP39_WORDLIST[index]` -/
def WordList.word (W : WordList) (index : Nat) : String := W.words.getD index ""

def WORD_COUNT : Nat := 24
def ENTROPY_BITS : Nat := 256

/-! ## Bits -/

/-- `setBits` -/
def setBits (data : Bytes) (startBit length value : Nat) : Bytes :=
  (List.range length).foldl
    (fun data i => setBit data (startBit + i) (value.testBit (length - 1 - i))) data

/-- `extractBits` -/
def extractBits (data : Bytes) (startBit length : Nat) : Nat :=
  (List.range length).foldl
    (fun result i => 2 * result + (bitAt data (startBit + i)).toNat) 0

/-- `combineBitsToBytes` -/
def combineBitsToBytes (entropy checksumBuffer : Bytes) (checksumBits : Nat) : Bytes :=
  let totalBits := entropy.length * 8 + checksumBits
  let combined := zeros ((totalBits + 7) / 8)
  let combined := (List.range entropy.length).foldl
    (fun combined i => setBits combined (8 * i) 8 (entropy.getD i 0).toNat) combined
  (List.range checksumBits).foldl
    (fun combined i =>
      setBits combined (8 * entropy.length + i) 1 (bitAt checksumBuffer i).toNat) combined

section

variable (W : WordList) (sha256 : Bytes → ByteVec 32)

/-! ## Generating -/

/-- The values of `wordIndex` in `generateMnemonic`. -/
def mnemonicIndices (entropy : ByteVec 32) : List Nat :=
  let checksumBits := ENTROPY_BITS / 32
  let checksumBuffer := (sha256 entropy.toList).toList.take ((checksumBits + 7) / 8)
  let combined := combineBitsToBytes entropy.toList checksumBuffer checksumBits
  (List.range WORD_COUNT).map fun i => extractBits combined (i * 11) 11

/-- `generateMnemonic`, with the random bytes. -/
def generateMnemonic (entropy : ByteVec 32) : List String :=
  (mnemonicIndices sha256 entropy).map W.word

/-- `bytes.readUInt16BE(at)` -/
def readUInt16BE (bytes : Bytes) (i : Nat) : Nat :=
  256 * (bytes.getD i 0).toNat + (bytes.getD (i + 1) 0).toNat

/-- The indices that `generateRecoveryPhrase` of the companion draws. -/
def drawnIndices (bytes : ByteVec 48) : List Nat :=
  (List.range WORD_COUNT).map fun i => readUInt16BE bytes.toList (i * 2) % W.words.length

/-- `generateRecoveryPhrase`, with the random bytes. -/
def generateRecoveryPhrase (bytes : ByteVec 48) : List String :=
  (drawnIndices W bytes).map W.word

/-! ## Validating -/

structure ValidationResult where
  valid : Bool
  errors : List String

/-- The bits of the words' indices, as `validateChecksum` collects them. -/
def bitsOfWords (words : List String) : List Bool :=
  words.flatMap fun word =>
    let wordIndex := W.words.idxOf word
    (List.range 11).map fun i => wordIndex.testBit (10 - i)

/-- `validateChecksum` -/
def validateChecksum (words : List String) : Bool :=
  let bits := bitsOfWords W words
  let entropyLength := ENTROPY_BITS / 8
  let checksumLength := ENTROPY_BITS / 32
  let entropy := (List.range (entropyLength * 8)).foldl
    (fun entropy i => if bits.getD i false then setBit entropy i true else entropy)
    (zeros entropyLength)
  let hashArray := (sha256 entropy).toList
  (List.range checksumLength).all fun i =>
    bitAt hashArray i == bits.getD (entropyLength * 8 + i) false

/-- `validateMnemonic` -/
def validateMnemonic (words : List String) : ValidationResult :=
  let errors := if words.length ≠ WORD_COUNT then
    [s!"Expected {WORD_COUNT} words, got {words.length}"] else []
  let errors := errors ++ words.zipIdx.filterMap fun (word, i) =>
    if word ∈ W.words then none
    else some s!"Word \"{word}\" at position {i} not in BIP39 wordlist"
  let errors :=
    if words.length = WORD_COUNT ∧ errors.length = 0 ∧ ¬validateChecksum W sha256 words then
      errors ++ ["Invalid mnemonic checksum"]
    else errors
  { valid := errors.length = 0, errors }

end

/-- The 264 bits of the indices are 256 bits of entropy and the first byte of
its hash. -/
def Checksummed (sha256 : Bytes → ByteVec 32) (indices : List Nat) : Prop :=
  let bs := indices.flatMap (bits 11)
  bs.drop 256 = (bitsOf (sha256 (bytesOf (bs.take 256))).toList).take 8

variable {W : WordList} {sha256 : Bytes → ByteVec 32}

/-! ## What the bit loops do -/

theorem extractBits_eq (data : Bytes) (startBit length : Nat) :
    extractBits data startBit length
      = number ((List.range length).map fun i => (bitsOf data).getD (startBit + i) false) := by
  simp only [extractBits, number, List.foldl_map, bitAt_eq]

/-- The loop that is in two of the functions: bits overwritten in a row. -/
theorem bitsOf_foldl_setBit {data : Bytes} {front old back : List Bool} (f : Nat → Bool)
    (h : bitsOf data = front ++ old ++ back) :
    bitsOf ((List.range old.length).foldl
        (fun data i => setBit data (front.length + i) (f i)) data)
      = front ++ (List.range old.length).map f ++ back := by
  have hhom : (List.range old.length).foldl
        (fun bs i => bs.set (front.length + i) (f i)) (bitsOf data)
      = bitsOf ((List.range old.length).foldl
        (fun data i => setBit data (front.length + i) (f i)) data) :=
    List.foldl_hom bitsOf fun data i => (bitsOf_setBit data _ _).symm
  rw [← hhom, h, foldl_set f _ front old back le_rfl]
  simp

theorem bitsOf_setBits {data : Bytes} {front old back : List Bool} (value : Nat)
    (h : bitsOf data = front ++ old ++ back) :
    bitsOf (setBits data front.length old.length value)
      = front ++ bits old.length value ++ back :=
  bitsOf_foldl_setBit (fun i => value.testBit (old.length - 1 - i)) h

/-! ## The phrase of the app -/

theorem bitsOf_zeros (n : Nat) : bitsOf (zeros n) = List.replicate (8 * n) false := by
  induction n with
  | zero => rfl
  | succ n ih =>
    have hcons : zeros (n + 1) = 0 :: zeros n := rfl
    have hbyte : bits 8 (0 : UInt8).toNat = List.replicate 8 false := by decide
    rw [hcons, bitsOf_cons, ih, hbyte, List.replicate_append_replicate]
    congr 1
    ring

theorem setBits_one (data : Bytes) (startBit : Nat) (bit : Bool) :
    setBits data startBit 1 bit.toNat = setBit data startBit bit := by
  cases bit <;> rfl

/-- The loop over the bytes of the entropy, after `n` of them. -/
theorem bitsOf_entropyLoop (entropy : Bytes) (rest : List Bool) {start : Bytes}
    (hstart : bitsOf start = List.replicate (8 * entropy.length) false ++ rest) {n : Nat}
    (hn : n ≤ entropy.length) :
    bitsOf ((List.range n).foldl
        (fun combined i => setBits combined (8 * i) 8 (entropy.getD i 0).toNat) start)
      = bitsOf (entropy.take n) ++ List.replicate (8 * (entropy.length - n)) false
        ++ rest := by
  induction n with
  | zero => simpa using hstart
  | succ n ih =>
    have hlt : n < entropy.length := hn
    let old := List.replicate 8 false
    let back := List.replicate (8 * (entropy.length - (n + 1))) false
    have hsplit : List.replicate (8 * (entropy.length - n)) false = old ++ back := by
      rw [List.replicate_append_replicate]
      congr 1
      omega
    have hfront : (bitsOf (entropy.take n)).length = 8 * n := by
      rw [bitsOf_length, List.length_take, Nat.min_eq_left hlt.le]
    have hbits := ih hlt.le
    rw [hsplit, List.append_assoc, List.append_assoc, ← List.append_assoc _ old] at hbits
    have hset := bitsOf_setBits (entropy.getD n 0).toNat hbits
    rw [hfront, show old.length = 8 from rfl] at hset
    have htake : entropy.take (n + 1) = entropy.take n ++ [entropy[n]] :=
      List.take_succ_eq_append_getElem hlt
    rw [List.range_succ, List.foldl_append, List.foldl_cons, List.foldl_nil, hset, htake,
      bitsOf_append, List.getD_eq_getElem _ _ hlt]
    simp [bitsOf, back]

theorem bitsOf_combineBitsToBytes (entropy : Bytes) {checksumBuffer : Bytes}
    (hlen : checksumBuffer.length = 1) :
    bitsOf (combineBitsToBytes entropy checksumBuffer 8)
      = bitsOf entropy ++ bitsOf checksumBuffer := by
  have hbytes : (entropy.length * 8 + 8 + 7) / 8 = entropy.length + 1 := by omega
  have hstart : bitsOf (zeros (entropy.length + 1))
      = List.replicate (8 * entropy.length) false ++ List.replicate 8 false := by
    rw [bitsOf_zeros, List.replicate_append_replicate]
    congr 1
  have hentropy := bitsOf_entropyLoop entropy _ hstart le_rfl
  rw [List.take_length, Nat.sub_self] at hentropy
  rw [Nat.mul_zero, List.replicate_zero, List.append_nil,
    ← List.append_nil (bitsOf entropy ++ List.replicate 8 false)] at hentropy
  have hchecksum := bitsOf_foldl_setBit (bitAt checksumBuffer) hentropy
  have hmap : (List.range 8).map (bitAt checksumBuffer) = bitsOf checksumBuffer := by
    refine List.ext_getElem (by simp [hlen]) fun i hi hi' => ?_
    rw [List.getElem_map, List.getElem_range, bitAt_eq, List.getD_eq_getElem _ _ hi']
  rw [combineBitsToBytes, hbytes]
  simp only [setBits_one]
  rw [List.length_replicate, bitsOf_length, hmap, List.append_nil] at hchecksum
  exact hchecksum

/-- The index of the word `i` is a group of eleven bits. -/
theorem extractBits_group {data : Bytes} {groups : Nat}
    (hlen : 11 * groups ≤ (bitsOf data).length) {i : Nat} (hi : i < groups) :
    extractBits data (i * 11) 11 = number (((bitsOf data).drop (11 * i)).take 11) := by
  rw [extractBits_eq]
  congr 1
  refine List.ext_getElem ?_ fun j hj hj' => ?_
  · rw [List.length_map, List.length_range, List.length_take, List.length_drop]
    omega
  · have hj11 : j < 11 := by simpa using hj
    rw [List.getElem_map, List.getElem_range, List.getElem_take, List.getElem_drop,
      List.getD_eq_getElem _ _ (by omega)]
    congr 1
    omega

theorem flatMap_groups {bs : List Bool} {groups : Nat} (hlen : bs.length = 11 * groups) :
    ((List.range groups).map fun i => number ((bs.drop (11 * i)).take 11)).flatMap (bits 11)
      = bs := by
  have htake : ∀ m ≤ groups,
      ((List.range m).map fun i => number ((bs.drop (11 * i)).take 11)).flatMap (bits 11)
        = bs.take (11 * m) := by
    intro m hm
    induction m with
    | zero => simp
    | succ m ih =>
      have hgroup : ((bs.drop (11 * m)).take 11).length = 11 := by
        rw [List.length_take, List.length_drop]
        omega
      have hbits := bits_number ((bs.drop (11 * m)).take 11)
      rw [hgroup] at hbits
      rw [List.range_succ, List.map_append, List.flatMap_append, ih (by omega), Nat.mul_add,
        List.take_add]
      simp [hbits]
  rw [htake groups le_rfl, List.take_of_length_le hlen.le]

theorem take_bitsOf_one (data : Bytes) : bitsOf (data.take 1) = (bitsOf data).take 8 := by
  cases data with
  | nil => rfl
  | cons byte data =>
    have hlen : (bits 8 byte.toNat).length = 8 := bits_length 8 _
    rw [bitsOf_cons, List.take_append_of_le_length hlen.ge, List.take_of_length_le hlen.le]
    simp [bitsOf]

/-- **The bits of an app phrase** are the entropy and the checksum. -/
theorem flatMap_mnemonicIndices (entropy : ByteVec 32) :
    (mnemonicIndices sha256 entropy).flatMap (bits 11)
      = bitsOf entropy.toList ++ (bitsOf (sha256 entropy.toList).toList).take 8 := by
  have hone : ((sha256 entropy.toList).toList.take 1).length = 1 := by
    rw [List.length_take, (sha256 entropy.toList).toList_length]
    rfl
  have hbits := bitsOf_combineBitsToBytes entropy.toList hone
  have hlen : (bitsOf (combineBitsToBytes entropy.toList
      ((sha256 entropy.toList).toList.take 1) 8)).length = 11 * 24 := by
    rw [hbits, List.length_append, bitsOf_length, bitsOf_length, entropy.toList_length, hone]
  rw [← take_bitsOf_one, ← hbits, ← flatMap_groups hlen]
  refine congrArg (List.flatMap (bits 11)) (List.map_congr_left fun i hi => ?_)
  exact extractBits_group hlen.ge (List.mem_range.mp hi)

theorem mnemonicIndices_lt (entropy : ByteVec 32) :
    ∀ index ∈ mnemonicIndices sha256 entropy, index < 2048 := by
  intro index hmem
  obtain ⟨i, -, rfl⟩ := List.mem_map.mp hmem
  have hlt := number_lt ((List.range 11).map fun j => (bitsOf (combineBitsToBytes
    entropy.toList ((sha256 entropy.toList).toList.take 1) 8)).getD (i * 11 + j) false)
  rw [List.length_map, List.length_range] at hlt
  exact (extractBits_eq _ _ _).trans_lt hlt

/-! ## Validation -/

theorem WordList.word_mem {index : Nat} (h : index < 2048) : W.word index ∈ W.words := by
  have hlt : index < W.words.length := by rwa [W.length_eq]
  rw [word, List.getD_eq_getElem _ _ hlt]
  exact List.getElem_mem hlt

theorem WordList.idxOf_word {index : Nat} (h : index < 2048) :
    W.words.idxOf (W.word index) = index := by
  have hlt : index < W.words.length := by rwa [W.length_eq]
  rw [word, List.getD_eq_getElem _ _ hlt]
  exact W.nodup.idxOf_getElem index hlt

theorem bitsOfWords_map {indices : List Nat} (h : ∀ index ∈ indices, index < 2048) :
    bitsOfWords W (indices.map W.word) = indices.flatMap (bits 11) := by
  rw [bitsOfWords, List.flatMap_map]
  refine List.flatMap_congr fun index hmem => ?_
  simp only [W.idxOf_word (h index hmem)]
  rfl

/-- The entropy that `validateChecksum` collects. -/
theorem bitsOf_collected (bs : List Bool) {total n : Nat} (hlen : 8 * total ≤ bs.length)
    (hn : n ≤ 8 * total) :
    bitsOf ((List.range n).foldl
        (fun entropy i => if bs.getD i false then setBit entropy i true else entropy)
        (zeros total))
      = bs.take n ++ List.replicate (8 * total - n) false := by
  induction n with
  | zero => simp [bitsOf_zeros]
  | succ n ih =>
    have hlt : n < bs.length := by omega
    have hsplit : List.replicate (8 * total - n) false
        = false :: List.replicate (8 * total - (n + 1)) false := by
      rw [← List.replicate_succ]
      congr 1
      omega
    have htake : bs.take (n + 1) = bs.take n ++ [bs[n]] :=
      List.take_succ_eq_append_getElem hlt
    have hfront : (bs.take n).length = n := by
      rw [List.length_take]
      omega
    rw [List.range_succ, List.foldl_append, List.foldl_cons, List.foldl_nil,
      List.getD_eq_getElem _ _ hlt, htake]
    cases hbit : bs[n] with
    | true =>
      rw [if_pos rfl, bitsOf_setBit, ih (by omega), hsplit,
        List.set_append_right _ _ hfront.le, hfront, Nat.sub_self]
      simp
    | false =>
      rw [if_neg (by simp), ih (by omega), hsplit]
      simp

theorem validateChecksum_iff {indices : List Nat} (hcount : indices.length = 24)
    (h : ∀ index ∈ indices, index < 2048) :
    validateChecksum W sha256 (indices.map W.word) = true ↔ Checksummed sha256 indices := by
  have hlen : (indices.flatMap (bits 11)).length = 264 := by
    simp [List.length_flatMap, hcount]
  rw [validateChecksum, bitsOfWords_map h, Checksummed]
  generalize indices.flatMap (bits 11) = bs at hlen
  have hcollected := @bitsOf_collected bs 32 256 (by omega) le_rfl
  have hentropy := congrArg bytesOf hcollected
  rw [bytesOf_bitsOf, Nat.sub_self, List.replicate_zero, List.append_nil] at hentropy
  show ((List.range 8).all fun i =>
    bitAt (sha256 ((List.range 256).foldl _ (zeros 32))).toList i
      == bs.getD (256 + i) false) = true ↔ _
  rw [hentropy]
  simp only [List.all_eq_true, List.mem_range, beq_iff_eq, bitAt_eq]
  generalize hhash : bitsOf (sha256 (bytesOf (bs.take 256))).toList = hash
  have h256 : hash.length = 256 := by
    rw [← hhash, bitsOf_length, List.Vector.toList_length]
  constructor
  · intro hcheck
    refine List.ext_getElem (by simp [hlen, h256]) fun i hi hi' => ?_
    have hi8 : i < 8 := by simpa [hlen] using hi
    have hbit := hcheck i hi8
    rw [List.getD_eq_getElem _ _ (by omega), List.getD_eq_getElem _ _ (by omega)] at hbit
    rw [List.getElem_drop, List.getElem_take, hbit]
  · intro hsame i hi
    have hbit := congrArg (fun l => l.getD i false) hsame
    simpa [hi] using hbit.symm

/-- **Which phrases of words of the list are valid.** -/
theorem validateMnemonic_iff {indices : List Nat} (hcount : indices.length = 24)
    (h : ∀ index ∈ indices, index < 2048) :
    (validateMnemonic W sha256 (indices.map W.word)).valid = true
      ↔ Checksummed sha256 indices := by
  have hwords : (indices.map W.word).length = WORD_COUNT := by rwa [List.length_map]
  have hknown : (indices.map W.word).zipIdx.filterMap (fun (word, i) =>
      if word ∈ W.words then none
      else some s!"Word \"{word}\" at position {i} not in BIP39 wordlist") = [] := by
    refine List.filterMap_eq_nil_iff.mpr fun (word, i) hmem => ?_
    obtain ⟨index, hindex, rfl⟩ := List.mem_map.mp (List.fst_mem_of_mem_zipIdx hmem)
    exact if_pos (W.word_mem (h index hindex))
  rw [← validateChecksum_iff (W := W) hcount h]
  simp only [validateMnemonic, hwords, hknown, ne_eq, not_true_eq_false, if_false,
    List.append_nil, List.length_nil, true_and]
  cases validateChecksum W sha256 (indices.map W.word) <;> simp

/-! ## Both generators -/

theorem generateMnemonic_valid (W : WordList) (sha256 : Bytes → ByteVec 32)
    (entropy : ByteVec 32) :
    (validateMnemonic W sha256 (generateMnemonic W sha256 entropy)).valid = true := by
  have hcount : (mnemonicIndices sha256 entropy).length = 24 := by
    simp [mnemonicIndices, WORD_COUNT]
  have hlen : (bitsOf entropy.toList).length = 256 := by
    rw [bitsOf_length, entropy.toList_length]
  rw [generateMnemonic, validateMnemonic_iff hcount (mnemonicIndices_lt entropy), Checksummed,
    flatMap_mnemonicIndices]
  rw [List.drop_append_of_le_length hlen.ge, List.drop_of_length_le hlen.le,
    List.take_append_of_le_length hlen.ge, List.take_of_length_le hlen.le, bytesOf_bitsOf,
    List.nil_append]

theorem generateMnemonic_inj (W : WordList) {entropy entropy' : ByteVec 32}
    (h : generateMnemonic W sha256 entropy = generateMnemonic W sha256 entropy') :
    entropy = entropy' := by
  -- the words give back their indices, and these their bits
  have hback : ∀ e, (generateMnemonic W sha256 e).map W.words.idxOf
      = mnemonicIndices sha256 e := by
    intro e
    rw [generateMnemonic, List.map_map]
    exact (List.map_congr_left fun index hmem =>
      W.idxOf_word (mnemonicIndices_lt e index hmem)).trans (List.map_id _)
  have hbits : (mnemonicIndices sha256 entropy).flatMap (bits 11)
      = (mnemonicIndices sha256 entropy').flatMap (bits 11) := by
    rw [← hback, h, hback]
  rw [flatMap_mnemonicIndices, flatMap_mnemonicIndices] at hbits
  have hlen : (bitsOf entropy.toList).length = (bitsOf entropy'.toList).length := by
    rw [bitsOf_length, bitsOf_length, entropy.toList_length, entropy'.toList_length]
  exact List.Vector.eq _ _ (bitsOf_inj (List.append_inj hbits hlen).1)

theorem drawnIndices_lt (W : WordList) (bytes : ByteVec 48) :
    ∀ index ∈ drawnIndices W bytes, index < 2048 := by
  intro index hmem
  obtain ⟨i, -, rfl⟩ := List.mem_map.mp hmem
  rw [W.length_eq]
  exact Nat.mod_lt _ (by decide)

/-- **Every phrase validates, exactly when the random bytes of the companion
happen to hold a checksum.** -/
theorem phrases_valid_iff (W : WordList) (sha256 : Bytes → ByteVec 32) (bytes : ByteVec 48)
    (entropy entropy' : ByteVec 32) :
    ((validateMnemonic W sha256 (generateRecoveryPhrase W bytes)).valid = true
      ∧ (validateMnemonic W sha256 (generateMnemonic W sha256 entropy)).valid = true
      ∧ (generateMnemonic W sha256 entropy = generateMnemonic W sha256 entropy' →
        entropy = entropy'))
      ↔ Checksummed sha256 (drawnIndices W bytes) := by
  have hlength : (drawnIndices W bytes).length = 24 := by simp [drawnIndices, WORD_COUNT]
  rw [generateRecoveryPhrase, validateMnemonic_iff hlength (drawnIndices_lt W bytes)]
  exact and_iff_left ⟨generateMnemonic_valid W sha256 entropy, generateMnemonic_inj W⟩

/-! ## Zeros -/

/-- A word list of the right size: words of one letter, by their length. -/
def sampleWords : WordList where
  words := (List.range 2048).map fun i => String.ofList (List.replicate i 'a')
  length_eq := by rw [List.length_map, List.length_range]
  nodup := by
    refine List.Nodup.map (fun i j hij => ?_) List.nodup_range
    simpa using congrArg (fun word => word.toList.length) hij

/-- The SHA-256 of 32 zero bytes. -/
def zerosHash : ByteVec 32 :=
  ⟨[0x66, 0x68, 0x7a, 0xad, 0xf8, 0x62, 0xbd, 0x77, 0x6c, 0x8f, 0xc1,
    0x8b, 0x8e, 0x9f, 0x8e, 0x20, 0x08, 0x97, 0x14, 0x85, 0x6e, 0xe2,
    0x33, 0xb3, 0x90, 0x2a, 0x59, 0x1d, 0x0d, 0x5f, 0x29, 0x25], rfl⟩

/-- When all random bytes of the companion are zero, so are the indices and the
checksum they hold; the hash of 32 zero bytes begins with `0x66`. -/
theorem generateRecoveryPhrase_zeros :
    ¬ ∀ (W : WordList) (sha256 : Bytes → ByteVec 32) (bytes : ByteVec 48)
        (entropy entropy' : ByteVec 32),
      (validateMnemonic W sha256 (generateRecoveryPhrase W bytes)).valid = true
      ∧ (validateMnemonic W sha256 (generateMnemonic W sha256 entropy)).valid = true
      ∧ (generateMnemonic W sha256 entropy = generateMnemonic W sha256 entropy' →
        entropy = entropy') := by
  intro h
  have hvalid := (h sampleWords (fun _ => zerosHash) (zeroVec 48) (zeroVec 32)
    (zeroVec 32)).1
  have hindices : drawnIndices sampleWords (zeroVec 48) = List.replicate 24 0 := by
    rw [drawnIndices, sampleWords.length_eq]
    decide
  rw [generateRecoveryPhrase, hindices, validateMnemonic_iff (by simp) (by simp)] at hvalid
  exact absurd hvalid (by rw [Checksummed]; decide +kernel)

end UsbVault.App.RecoveryPhrase
