import UsbVault.Vault.Header

/-!
# HeaderFormat

The header format as a byte layout (`encode`), and what the reader and
the writer do with it: the writer emits exactly `encode h` and zeros,
or panics when that exceeds the fixed header size (`write_eq`); the
reader takes `encode h` back to `h` whatever follows it
(`read_encode`); and every header the reader returns is one the writer
can describe (`read_wellFormed`).
-/

namespace UsbVault.VaultHeader

open Wire

/-! ## The layout -/

/-- An optional block on disk: its length, then its bytes. -/
def encodeBlock (block : Option Bytes) : Bytes :=
  u32le (blockLen block) ++ block.getD []

/-- The fields every version carries. -/
def encodeBase (h : VaultHeader) : Bytes :=
  magicOf h.version ++ [h.kdfHashId] ++ [h.cipherId] ++ h.salt.toList
    ++ h.verifyIv.toList ++ u16le (UInt16.ofNat h.verifyCiphertext.length)
    ++ h.verifyCiphertext ++ h.headerHmac.toList ++ [h.activeIndexSlot]
    ++ u32le h.index1Offset ++ u32le h.index1Length ++ u32le h.index2Offset
    ++ u32le h.index2Length ++ u64le h.commitCounter ++ u32le h.argon2Memory
    ++ u32le h.argon2Time ++ [h.argon2Parallelism]

/-- The blocks carried from V3 on. -/
def encodeOptional (h : VaultHeader) : Bytes :=
  if h.version ≥ 3 then
    encodeBlock h.identityBlock ++ (encodeBlock h.tfaBlock
      ++ encodeBlock h.failCounterBlock)
  else []

/-- The fields carried from V4 on. -/
def encodeExtended (h : VaultHeader) : Bytes :=
  if h.version ≥ 4 then
    encodeBlock h.wrappedMek ++ (u64le h.stateVersion
      ++ [if h.indexEncrypted then 1 else 0])
  else []

/-- The whole header, without the padding to the fixed size. -/
def encode (h : VaultHeader) : Bytes :=
  encodeBase h ++ (encodeOptional h ++ encodeExtended h)

/-- The number of bytes a block adds to its length field. -/
def blockSize (block : Option Bytes) : Nat := (block.getD []).length

/-- The length of the encoding, counted field by field. -/
def encodedLen (h : VaultHeader) : Nat :=
  134 + h.verifyCiphertext.length
    + (if h.version ≥ 3 then
        12 + blockSize h.identityBlock + blockSize h.tfaBlock
          + blockSize h.failCounterBlock
       else 0)
    + (if h.version ≥ 4 then 13 + blockSize h.wrappedMek else 0)

/-- The encoding fits the fixed header size of its version. -/
def Fits (h : VaultHeader) : Prop := encodedLen h ≤ headerSize h.version

instance (h : VaultHeader) : Decidable h.Fits :=
  inferInstanceAs (Decidable (_ ≤ _))

theorem magicOf_length (v : UInt8) : (magicOf v).length = 8 := by
  unfold magicOf
  split_ifs <;> decide

theorem encodeBlock_length (block : Option Bytes) :
    (encodeBlock block).length = 4 + blockSize block := by
  rw [encodeBlock, List.length_append, u32le_length, blockSize]

theorem encode_length (h : VaultHeader) : (encode h).length = encodedLen h := by
  have hbase : (encodeBase h).length = 134 + h.verifyCiphertext.length := by
    unfold encodeBase
    simp only [List.length_append, magicOf_length,
      List.length_cons, List.length_nil, List.Vector.toList_length,
      u16le_length, u32le_length, u64le_length]
    omega
  have hopt : (encodeOptional h).length
      = if h.version ≥ 3 then
          12 + blockSize h.identityBlock + blockSize h.tfaBlock
            + blockSize h.failCounterBlock
        else 0 := by
    unfold encodeOptional
    split_ifs
    · simp only [List.length_append, encodeBlock_length]
      omega
    · rfl
  have hext : (encodeExtended h).length
      = if h.version ≥ 4 then 13 + blockSize h.wrappedMek else 0 := by
    unfold encodeExtended
    split_ifs <;>
      simp only [List.length_append, encodeBlock_length, u64le_length,
        List.length_cons, List.length_nil]
    · omega
    · omega
  rw [encode, List.length_append, List.length_append, hbase, hopt, hext,
    encodedLen]
  omega

/-! ## The writer -/

theorem emits_putOptionalBlock (block : Option Bytes) :
    Emits (putOptionalBlock block) (encodeBlock block) := by
  refine (emits_put _).bind ?_
  cases block with
  | none => exact Emits.pure
  | some block => exact emits_put block

theorem emits_writeOptionalBlocks (h : VaultHeader) :
    Emits (writeOptionalBlocks h) (encodeOptional h) :=
  Emits.ite _
    ((emits_putOptionalBlock _).bind
      ((emits_putOptionalBlock _).bind (emits_putOptionalBlock _)))
    Emits.pure

theorem emits_writeExtendedFields (h : VaultHeader) :
    Emits (writeExtendedFields h) (encodeExtended h) :=
  Emits.ite _
    ((emits_putOptionalBlock _).bind ((emits_put _).bind (emits_putU8 _)))
    Emits.pure

theorem emits_writeFields (h : VaultHeader) :
    Emits (writeFields h) (encode h) := by
  simp only [encode, encodeBase, List.append_assoc]
  exact (emits_put _).bind <| (emits_putU8 _).bind <| (emits_putU8 _).bind <|
    (emits_put _).bind <| (emits_put _).bind <| (emits_put _).bind <|
    (emits_put _).bind <| (emits_put _).bind <| (emits_putU8 _).bind <|
    (emits_put _).bind <| (emits_put _).bind <| (emits_put _).bind <|
    (emits_put _).bind <| (emits_put _).bind <| (emits_put _).bind <|
    (emits_put _).bind <| (emits_putU8 _).bind <|
    (emits_writeOptionalBlocks h).bind (emits_writeExtendedFields h)

/-- **The writer is the layout**: it produces the encoding padded with
zeros, and panics exactly when the encoding does not fit. -/
theorem write_eq (h : VaultHeader) :
    write h = if h.Fits then
        some (encode h ++ zeros (headerSize h.version - encodedLen h))
      else none := by
  rw [write, fill_eq (emits_writeFields h), encode_length]
  rfl

theorem write_of_fits {h : VaultHeader} (hf : h.Fits) :
    write h = some (encode h ++ zeros (headerSize h.version - encodedLen h)) := by
  rw [write_eq, if_pos hf]

theorem headerSize_le (v : UInt8) : headerSize v ≤ 24576 := by
  unfold headerSize
  split_ifs <;> decide

theorem write_length {h : VaultHeader} {bytes : Bytes}
    (hw : write h = some bytes) : bytes.length = headerSize h.version := by
  rw [write_eq] at hw
  split_ifs at hw with hf
  rw [← Option.some.inj hw, List.length_append, encode_length, zeros_length]
  exact Nat.add_sub_cancel' hf

theorem write_isSome_iff (h : VaultHeader) : (write h).isSome ↔ h.Fits := by
  rw [write_eq]
  by_cases hf : h.Fits
  · simp [hf]
  · simp [hf]

/-! ## Headers the format can carry -/

/-- A block the format can carry: absent, or non-empty (an empty block
is written like an absent one). -/
def BlockCarried (block : Option Bytes) : Prop := block ≠ some []

theorem blockCarried_none : BlockCarried none := Option.some_ne_none _ ∘ Eq.symm

/-- The headers of the format: a known version, an accepted cipher, a
bounded verify ciphertext, no empty block, and nothing in the fields the
version does not carry. -/
structure WellFormed (h : VaultHeader) : Prop where
  version : h.version = 2 ∨ h.version = 3 ∨ h.version = 4 ∨ h.version = 5
    ∨ h.version = 6
  cipher : ∃ c, CipherId.fromByte h.cipherId = .ok c
  verifyCt : h.verifyCiphertext.length ≤ MAX_VERIFY_CT_LEN
  identity : BlockCarried h.identityBlock
  tfa : BlockCarried h.tfaBlock
  failCounter : BlockCarried h.failCounterBlock
  wrapped : BlockCarried h.wrappedMek
  noOptional : h.version < 3 →
    h.identityBlock = none ∧ h.tfaBlock = none ∧ h.failCounterBlock = none
  noExtended : h.version < 4 →
    h.wrappedMek = none ∧ h.stateVersion = 0 ∧ h.indexEncrypted = false

/-- Every block length is what its `u32` says. -/
structure BlocksAddressable (h : VaultHeader) : Prop where
  identity : blockSize h.identityBlock < 2 ^ 32
  tfa : blockSize h.tfaBlock < 2 ^ 32
  failCounter : blockSize h.failCounterBlock < 2 ^ 32
  wrapped : blockSize h.wrappedMek < 2 ^ 32

theorem versionOfMagic_magicOf {h : VaultHeader} (hwf : WellFormed h) :
    versionOfMagic (magicOf h.version) = .ok h.version := by
  rcases hwf.version with hv | hv | hv | hv | hv <;> rw [hv] <;> decide

/-! ## The reader on a written header -/

theorem blockLen_none : blockLen none = 0 := rfl

theorem blockLen_toNat {block : Bytes} (h : block.length < 2 ^ 32) :
    (blockLen (some block)).toNat = block.length := by
  show (UInt32.ofNat block.length).toNat = block.length
  rw [UInt32.toNat_ofNat', Nat.mod_eq_of_lt h]

theorem yields_readOptionalBlock {block : Option Bytes}
    (hc : BlockCarried block) (hlt : blockSize block < 2 ^ 32) (s : Bytes) :
    Yields readOptionalBlock (encodeBlock block ++ s) s block := by
  rw [encodeBlock, List.append_assoc]
  refine (yields_readU32le _ _ _).bind ?_
  cases block with
  | none =>
    rw [blockLen_none, if_pos rfl]
    exact Yields.pure none s
  | some block =>
    have hlen : (blockLen (some block)).toNat = block.length :=
      blockLen_toNat hlt
    have hne : block.length ≠ 0 := by
      intro h0
      exact hc (by rw [List.length_eq_zero_iff.mp h0])
    -- a length of zero would read as an absent block
    have hnz : blockLen (some block) ≠ 0 := by
      intro h0
      rw [h0] at hlen
      exact hne hlen.symm
    rw [if_neg hnz]
    exact yields_takeAvailable hlen.symm s

theorem yields_readOptionalBlockIfRoom {block : Option Bytes}
    (hc : BlockCarried block) (hlt : blockSize block < 2 ^ 32) (s : Bytes) :
    Yields readOptionalBlockIfRoom (encodeBlock block ++ s) s block := by
  refine (yields_hasRoom ?_).bind ?_
  · rw [List.length_append, encodeBlock_length]
    omega
  · rw [if_pos rfl]
    exact yields_readOptionalBlock hc hlt s

theorem yields_versionGate {α : Type} {n : Nat} {gate : Prop}
    [Decidable gate] {p q : Reader CryptoError α} {s s' : Bytes} {a : α}
    (hyes : gate → n ≤ s.length ∧ Yields p s s' a)
    (hno : ¬gate → Yields q s s' a) :
    Yields (do let room ← hasRoom n; if gate ∧ room then p else q) s s' a := by
  by_cases hg : gate
  · obtain ⟨hroom, hp⟩ := hyes hg
    refine (yields_hasRoom hroom).bind ?_
    rw [if_pos ⟨hg, rfl⟩]
    exact hp
  · -- behind a closed gate the room does not matter
    intro c hc
    obtain ⟨c', hq, hc'⟩ := hno hg c hc
    refine ⟨c', ?_, hc'⟩
    show (if gate ∧ decide (c.offset + n ≤ c.data.length) = true then p else q) c
      = _
    rw [if_neg (fun h => hg h.1)]
    exact hq

theorem yields_readOptionalBlocks {h : VaultHeader} (hwf : WellFormed h)
    (ha : BlocksAddressable h) (s : Bytes) :
    Yields (readOptionalBlocks h.version) (encodeOptional h ++ s) s
      (h.identityBlock, h.tfaBlock, h.failCounterBlock) := by
  refine yields_versionGate (fun hv => ?_) (fun hv => ?_)
  · rw [encodeOptional, if_pos hv]
    constructor
    · simp only [List.length_append, encodeBlock_length]
      omega
    · simp only [List.append_assoc]
      exact (yields_readOptionalBlock hwf.identity ha.identity _).bind <|
        (yields_readOptionalBlockIfRoom hwf.tfa ha.tfa _).bind <|
        (yields_readOptionalBlockIfRoom hwf.failCounter ha.failCounter _).bind <|
        Yields.pure _ _
  · rw [encodeOptional, if_neg hv]
    obtain ⟨h1, h2, h3⟩ := hwf.noOptional (UInt8.not_le.mp hv)
    rw [h1, h2, h3]
    exact Yields.pure _ _

theorem yields_readIndexEncrypted (b : Bool) (s : Bytes) :
    Yields readIndexEncrypted ((if b then 1 else 0) :: s)
      ((if b then 1 else 0) :: s) b := by
  refine (yields_peek _ s).bind ?_
  cases b
  · exact Yields.pure false _
  · exact Yields.pure true _

/-- The extended fields are read back. What is left over is of no
interest: the header ends here. -/
theorem yields_readExtendedFields {h : VaultHeader} (hwf : WellFormed h)
    (ha : BlocksAddressable h) (s : Bytes) :
    ∃ s', Yields (readExtendedFields h.version) (encodeExtended h ++ s) s'
      (h.wrappedMek, h.stateVersion, h.indexEncrypted) := by
  by_cases hv : h.version ≥ 4
  · -- the flag is only peeked at, so it is still there at the end
    refine ⟨(if h.indexEncrypted then 1 else 0) :: s,
      yields_versionGate (fun _ => ?_) (fun hn => absurd hv hn)⟩
    rw [encodeExtended, if_pos hv]
    constructor
    · simp only [List.length_append, encodeBlock_length]
      omega
    · simp only [List.append_assoc, List.cons_append, List.nil_append]
      have hstate : Yields readStateVersion
          (u64le h.stateVersion ++ (if h.indexEncrypted then 1 else 0) :: s)
          ((if h.indexEncrypted then 1 else 0) :: s) h.stateVersion := by
        refine (yields_hasRoom ?_).bind ?_
        · rw [List.length_append, u64le_length]
          omega
        · rw [if_pos rfl]
          exact yields_readU64le _ _ _
      exact (yields_readOptionalBlock hwf.wrapped ha.wrapped _).bind <|
        hstate.bind <| (yields_readIndexEncrypted _ _).bind <| Yields.pure _ _
  · refine ⟨s, yields_versionGate (fun hy => absurd hy hv) (fun _ => ?_)⟩
    rw [encodeExtended, if_neg hv]
    obtain ⟨h1, h2, h3⟩ := hwf.noExtended (UInt8.not_le.mp hv)
    rw [h1, h2, h3]
    exact Yields.pure _ _

/-- **The reader is the layout**: on an encoded header, whatever follows
it, the field chain returns the header. -/
theorem yields_readFields {h : VaultHeader} (hwf : WellFormed h)
    (ha : BlocksAddressable h) (pad : Bytes) :
    ∃ s', Yields readFields (encode h ++ pad) s' h := by
  obtain ⟨s', hext⟩ := yields_readExtendedFields hwf ha pad
  obtain ⟨c, hcipher⟩ := hwf.cipher
  have hct : h.verifyCiphertext.length < 2 ^ 16 :=
    Nat.lt_of_le_of_lt hwf.verifyCt (by decide)
  have hlen : (UInt16.ofNat h.verifyCiphertext.length).toNat
      = h.verifyCiphertext.length := by
    rw [UInt16.toNat_ofNat', Nat.mod_eq_of_lt hct]
  have hcheck : checkVerifyCtLen (UInt16.ofNat h.verifyCiphertext.length)
      = .ok () := by
    rw [checkVerifyCtLen, hlen, if_neg (Nat.not_lt.mpr hwf.verifyCt)]
  refine ⟨s', ?_⟩
  simp only [encode, encodeBase, List.append_assoc, List.cons_append,
    List.nil_append]
  exact (yields_take _ (magicOf_length _) _).bind <|
    (yields_lift (versionOfMagic_magicOf hwf) _).bind <|
    (yields_readU8 _ _ _).bind <| (yields_readU8 _ _ _).bind <|
    (yields_lift hcipher _).bind <|
    (yields_takeVec _ _ _).bind <| (yields_takeVec _ _ _).bind <|
    (yields_readU16le _ _ _).bind <| (yields_lift hcheck _).bind <|
    (yields_take _ hlen.symm _).bind <| (yields_takeVec _ _ _).bind <|
    (yields_readU8 _ _ _).bind <| (yields_readU32le _ _ _).bind <|
    (yields_readU32le _ _ _).bind <| (yields_readU32le _ _ _).bind <|
    (yields_readU32le _ _ _).bind <| (yields_readU64le _ _ _).bind <|
    (yields_readU32le _ _ _).bind <| (yields_readU32le _ _ _).bind <|
    (yields_readU8 _ _ _).bind <|
    (yields_readOptionalBlocks hwf ha _).bind <|
    hext.bind <| Yields.pure _ _

theorem read_encode {h : VaultHeader} (hwf : WellFormed h)
    (ha : BlocksAddressable h) (pad : Bytes) : read (encode h ++ pad) = .ok h := by
  have hlen : ¬(encode h ++ pad).length < 128 := by
    rw [List.length_append, encode_length, encodedLen]
    omega
  obtain ⟨s', hy⟩ := yields_readFields hwf ha pad
  obtain ⟨c', hrun, -⟩ := hy (Cursor.start (encode h ++ pad)) rfl
  rw [read, if_neg hlen, hrun]
  rfl

theorem Fits.blocksAddressable {h : VaultHeader} (hwf : WellFormed h)
    (hf : h.Fits) : BlocksAddressable h := by
  have hbound : encodedLen h ≤ 24576 := Nat.le_trans hf (headerSize_le _)
  -- blocks the version carries are counted, the others are absent
  have h3 : blockSize h.identityBlock < 2 ^ 32 ∧ blockSize h.tfaBlock < 2 ^ 32
      ∧ blockSize h.failCounterBlock < 2 ^ 32 := by
    by_cases hv : h.version ≥ 3
    · rw [encodedLen, if_pos hv] at hbound
      omega
    · obtain ⟨h1, h2, h3⟩ := hwf.noOptional (UInt8.not_le.mp hv)
      rw [h1, h2, h3]
      decide
  have h4 : blockSize h.wrappedMek < 2 ^ 32 := by
    by_cases hv : h.version ≥ 4
    · rw [encodedLen, if_pos hv] at hbound
      omega
    · rw [(hwf.noExtended (UInt8.not_le.mp hv)).1]
      decide
  exact ⟨h3.1, h3.2.1, h3.2.2, h4⟩

/-- Bytes the writer produced for a well-formed header read back to it. -/
theorem read_of_write {h : VaultHeader} {bytes : Bytes} (hwf : WellFormed h)
    (hw : write h = some bytes) : read bytes = .ok h := by
  rw [write_eq] at hw
  by_cases hf : h.Fits
  · rw [if_pos hf] at hw
    rw [← Option.some.inj hw]
    exact read_encode hwf (hf.blocksAddressable hwf) _
  · rw [if_neg hf] at hw
    cases hw

/-! ## What the reader returns -/

theorem versionOfMagic_ok {magic : Bytes} {v : UInt8}
    (h : versionOfMagic magic = .ok v) :
    v = 2 ∨ v = 3 ∨ v = 4 ∨ v = 5 ∨ v = 6 := by
  unfold versionOfMagic at h
  split_ifs at h <;> cases h <;> decide

theorem checkVerifyCtLen_ok {len : UInt16}
    (h : checkVerifyCtLen len = .ok ()) : len.toNat ≤ MAX_VERIFY_CT_LEN := by
  unfold checkVerifyCtLen at h
  split_ifs at h with hlen
  exact Nat.not_lt.mp hlen

theorem ensures_readOptionalBlock :
    Ensures readOptionalBlock BlockCarried := by
  refine Ensures.bind' fun len => Ensures.ite _ (fun _ => ?_) (fun hne => ?_)
  · exact Ensures.pure blockCarried_none
  · intro c block c' hrun hempty
    -- a degraded block is `none`; one that is there has the length read
    have hlen := ensures_takeAvailable len.toNat c block c' hrun [] hempty
    exact hne (UInt32.toNat_inj.mp hlen.symm)

theorem ensures_readOptionalBlockIfRoom :
    Ensures readOptionalBlockIfRoom BlockCarried :=
  Ensures.bind' fun _ => Ensures.ite _
    (fun _ => ensures_readOptionalBlock)
    (fun _ => Ensures.pure blockCarried_none)

theorem ensures_readOptionalBlocks (version : UInt8) :
    Ensures (readOptionalBlocks version) (fun (i, t, f) =>
      BlockCarried i ∧ BlockCarried t ∧ BlockCarried f
        ∧ (version < 3 → i = none ∧ t = none ∧ f = none)) := by
  refine Ensures.bind' fun room => Ensures.ite _ (fun hv => ?_) (fun _ => ?_)
  · refine ensures_readOptionalBlock.bind fun i hi => ?_
    refine ensures_readOptionalBlockIfRoom.bind fun t ht => ?_
    refine ensures_readOptionalBlockIfRoom.bind fun f hf => ?_
    exact Ensures.pure
      ⟨hi, ht, hf, fun hlt => absurd hlt (UInt8.not_lt.mpr hv.1)⟩
  · exact Ensures.pure (by simp [BlockCarried])

theorem ensures_readExtendedFields (version : UInt8) :
    Ensures (readExtendedFields version) (fun (w, sv, ie) =>
      BlockCarried w
        ∧ (version < 4 → w = none ∧ sv = 0 ∧ ie = false)) := by
  refine Ensures.bind' fun room => Ensures.ite _ (fun hv => ?_) (fun _ => ?_)
  · refine ensures_readOptionalBlock.bind fun w hw => ?_
    refine Ensures.bind' fun sv => Ensures.bind' fun ie => ?_
    exact Ensures.pure ⟨hw, fun hlt => absurd hlt (UInt8.not_lt.mpr hv.1)⟩
  · exact Ensures.pure (by simp [BlockCarried])

theorem ensures_readFields : Ensures readFields WellFormed := by
  refine Ensures.bind' fun magic => ?_
  refine (ensures_lift _).bind fun version hversion => ?_
  refine Ensures.bind' fun kdfHashId => Ensures.bind' fun cipherId => ?_
  refine (ensures_lift _).bind fun cipher hcipher => ?_
  refine Ensures.bind' fun salt => Ensures.bind' fun verifyIv => ?_
  refine Ensures.bind' fun verifyCtLen => ?_
  refine (ensures_lift _).bind fun _ hcheck => ?_
  refine (ensures_take _ _).bind fun verifyCiphertext hct => ?_
  refine Ensures.bind' fun headerHmac => Ensures.bind' fun slot => ?_
  refine Ensures.bind' fun i1o => Ensures.bind' fun i1l => ?_
  refine Ensures.bind' fun i2o => Ensures.bind' fun i2l => ?_
  refine Ensures.bind' fun commits => Ensures.bind' fun memory => ?_
  refine Ensures.bind' fun time => Ensures.bind' fun parallelism => ?_
  refine (ensures_readOptionalBlocks version).bind fun blocks hblocks => ?_
  refine (ensures_readExtendedFields version).bind fun ext hext => ?_
  obtain ⟨identity, tfa, failCounter⟩ := blocks
  obtain ⟨wrapped, stateVersion, indexEncrypted⟩ := ext
  obtain ⟨hi, ht, hf, hopt⟩ := hblocks
  obtain ⟨hw, hextended⟩ := hext
  refine Ensures.pure ?_
  exact
    { version := versionOfMagic_ok hversion
      cipher := ⟨cipher, hcipher⟩
      verifyCt := hct.trans_le (checkVerifyCtLen_ok hcheck)
      identity := hi
      tfa := ht
      failCounter := hf
      wrapped := hw
      noOptional := hopt
      noExtended := hextended }

/-- **Whatever the reader returns, the format can carry.** -/
theorem read_wellFormed {data : Bytes} {h : VaultHeader}
    (hr : read data = .ok h) : WellFormed h := by
  unfold read at hr
  split_ifs at hr
  cases hrun : readFields (Cursor.start data) with
  | error e => rw [hrun] at hr; cases hr
  | ok r =>
    rw [hrun] at hr
    cases hr
    exact ensures_readFields _ _ _ hrun

/-! ## Round trips -/

theorem blockCarried_zeros {n : Nat} (hn : n ≠ 0) :
    BlockCarried (some (zeros n)) := by
  intro h
  have hlen := congrArg List.length (Option.some.inj h)
  rw [zeros_length] at hlen
  exact hn hlen

/-- A V5 header with every block a created vault carries. -/
def sampleHeader : VaultHeader :=
  { version := 5, kdfHashId := 2, cipherId := 2, salt := zeroVec 32,
    verifyIv := zeroVec 24, verifyCiphertext := zeros 39,
    headerHmac := zeroVec 32, activeIndexSlot := 0, index1Offset := 24576,
    index1Length := 0, index2Offset := 24576, index2Length := 0,
    commitCounter := 0, argon2Memory := 65536, argon2Time := 3,
    argon2Parallelism := 4, identityBlock := none, tfaBlock := none,
    failCounterBlock := some (zeros 36), wrappedMek := some (zeros 104),
    stateVersion := 1, indexEncrypted := true }

theorem sampleHeader_wellFormed : WellFormed sampleHeader where
  version := by decide
  cipher := ⟨.xchacha20Poly1305, rfl⟩
  verifyCt := by decide
  identity := blockCarried_none
  tfa := blockCarried_none
  failCounter := blockCarried_zeros (by decide)
  wrapped := blockCarried_zeros (by decide)
  noOptional := fun h => absurd h (by decide)
  noExtended := fun h => absurd h (by decide)

/-- **Write then read is the identity** on the headers of the format
that fit their fixed size. -/
theorem write_then_read (h : VaultHeader) (hwf : WellFormed h)
    (hfit : encodedLen h ≤ headerSize h.version) :
    ∃ bytes, write h = some bytes ∧ read bytes = .ok h := by
  have hw := write_of_fits hfit
  exact ⟨_, hw, read_of_write hwf hw⟩

theorem write_then_read_sample :
    ∃ bytes, write sampleHeader = some bytes ∧ read bytes = .ok sampleHeader :=
  write_then_read sampleHeader sampleHeader_wellFormed (by decide)

/-- **Read then write**: re-serialising a parsed header succeeds, and
reads back to it, exactly when its encoding fits the fixed size. The
reader bounds a block by the input, the writer by its own buffer. -/
theorem read_then_write_iff (data : Bytes) (h : VaultHeader)
    (hr : read data = .ok h) :
    (∃ bytes, write h = some bytes ∧ read bytes = .ok h)
      ↔ encodedLen h ≤ headerSize h.version := by
  constructor
  · rintro ⟨bytes, hw, -⟩
    exact (write_isSome_iff h).mp (by rw [hw]; rfl)
  · intro hfit
    have hw := write_of_fits hfit
    exact ⟨_, hw, read_of_write (read_wellFormed hr) hw⟩

theorem read_then_write_iff_sample :
    (∃ bytes, write sampleHeader = some bytes ∧ read bytes = .ok sampleHeader)
      ↔ encodedLen sampleHeader ≤ headerSize sampleHeader.version :=
  read_then_write_iff (encode sampleHeader ++ []) sampleHeader
    (read_encode sampleHeader_wellFormed
      (Fits.blocksAddressable sampleHeader_wellFormed (by decide)) [])

/-- A header whose identity block alone fills the fixed size. -/
def oversizedHeader : VaultHeader :=
  { sampleHeader with identityBlock := some (zeros 24576) }

/-- The input the reader accepts and the writer panics on. -/
theorem oversized_read_then_write_panics :
    read (encode oversizedHeader) = .ok oversizedHeader
      ∧ write oversizedHeader = none := by
  have hid : blockSize oversizedHeader.identityBlock = 24576 :=
    zeros_length 24576
  constructor
  · rw [← List.append_nil (encode oversizedHeader)]
    refine read_encode ?_ ?_ []
    · exact { sampleHeader_wellFormed with
        identity := blockCarried_zeros (by decide)
        noOptional := fun hv => absurd hv (by decide) }
    · exact { Fits.blocksAddressable sampleHeader_wellFormed (by decide) with
        identity := by rw [hid]; decide }
  · have hsize : headerSize oversizedHeader.version = 24576 := by decide
    have hlen : encodedLen oversizedHeader > 24576 := by
      have hv : oversizedHeader.version ≥ 3 := by decide
      rw [encodedLen, if_pos hv, hid]
      omega
    rw [write_eq, if_neg (by rw [Fits, hsize]; omega)]

end UsbVault.VaultHeader
