import UsbVault.Vault.HeaderFormat

/-!
# HeaderMac

The byte sequences `compute_hmac` authenticates. The wide V5/V6 message
is uniquely decodable: it determines every field it covers. The narrow
legacy message carries no domain tag, and `isNarrow_iff` says exactly
which byte strings are legacy messages; from it follows when a wide
message is one of them.
-/

namespace UsbVault.VaultHeader

open Wire

/-! ## The wide message determines its fields -/

/-- The fields the wide MAC covers agree. -/
structure CoveredFieldsAgree (g h : VaultHeader) : Prop where
  version : g.version = h.version
  kdfHashId : g.kdfHashId = h.kdfHashId
  cipherId : g.cipherId = h.cipherId
  salt : g.salt = h.salt
  verifyIv : g.verifyIv = h.verifyIv
  verifyCiphertext : g.verifyCiphertext = h.verifyCiphertext
  activeIndexSlot : g.activeIndexSlot = h.activeIndexSlot
  index1Offset : g.index1Offset = h.index1Offset
  index1Length : g.index1Length = h.index1Length
  index2Offset : g.index2Offset = h.index2Offset
  index2Length : g.index2Length = h.index2Length
  commitCounter : g.commitCounter = h.commitCounter
  stateVersion : g.stateVersion = h.stateVersion
  argon2Memory : g.argon2Memory = h.argon2Memory
  argon2Time : g.argon2Time = h.argon2Time
  argon2Parallelism : g.argon2Parallelism = h.argon2Parallelism
  indexEncrypted : g.indexEncrypted = h.indexEncrypted
  wrappedMek : g.wrappedMek = h.wrappedMek

/-- The lengths the wide message can tell apart: a `u32` below the
sentinel of an absent blob. -/
structure WideLengths (h : VaultHeader) : Prop where
  verifyCt : h.verifyCiphertext.length < 2 ^ 32 - 1
  wrapped : blockSize h.wrappedMek < 2 ^ 32 - 1

theorem boolByte_inj {a b : Bool} (h : boolByte a = boolByte b) : a = b := by
  revert h
  cases a <;> cases b <;> decide

/-- The domain tag the wide message starts with. -/
def wideDomain (version : UInt8) : Bytes :=
  if version ≥ 6 then HEADER_HMAC_DOMAIN_V6 else HEADER_HMAC_DOMAIN_V5

theorem wideDomain_length (version : UInt8) :
    (wideDomain version).length = 23 := by
  unfold wideDomain
  split_ifs <;> decide

/-- The length field of a present blob is never the absent sentinel. -/
theorem u32le_ne_sentinel {n : Nat} (hn : n < 2 ^ 32 - 1) :
    u32le (UInt32.ofNat n) ≠ u32le 0xFFFFFFFF := by
  intro h
  have hlen := congrArg UInt32.toNat (u32le_inj h)
  rw [UInt32.toNat_ofNat', Nat.mod_eq_of_lt (by omega),
    show (0xFFFFFFFF : UInt32).toNat = 2 ^ 32 - 1 from rfl] at hlen
  omega

/-- The wrapped-MEK field, at the end of the message, determines the
blob, absent and present told apart. -/
theorem wrappedMekField_inj {a b : Option Bytes}
    (ha : blockSize a < 2 ^ 32 - 1) (hb : blockSize b < 2 ^ 32 - 1)
    (h : wrappedMekField a = wrappedMekField b) : a = b := by
  cases a with
  | none =>
    cases b with
    | none => rfl
    | some w =>
      -- absent against present: no length is the sentinel
      have hsplit : u32le 0xFFFFFFFF ++ []
          = u32le (UInt32.ofNat w.length) ++ w := (List.append_nil _).trans h
      have hpre := append_inj_of_length (by simp) hsplit
      exact absurd hpre.1.symm (u32le_ne_sentinel hb)
  | some v =>
    have hv : v.length < 2 ^ 32 - 1 := ha
    cases b with
    | none =>
      have hsplit : u32le (UInt32.ofNat v.length) ++ v
          = u32le 0xFFFFFFFF ++ [] := h.trans (List.append_nil _).symm
      have hpre := append_inj_of_length (by simp) hsplit
      exact absurd hpre.1 (u32le_ne_sentinel hv)
    | some w =>
      have hw : w.length < 2 ^ 32 - 1 := hb
      have hvw := prefixed_append_inj (s := []) (t := [])
        (show v.length < 2 ^ 32 by omega) (show w.length < 2 ^ 32 by omega)
        (by simpa [wrappedMekField] using h)
      rw [hvw.1]

/-- **The wide MAC message is injective in what it covers.** -/
theorem hmacMessage_wide_injective (g h : VaultHeader) (hg : g.version ≥ 5)
    (hh : h.version ≥ 5) (lg : WideLengths g) (lh : WideLengths h)
    (heq : hmacMessage g = hmacMessage h) : CoveredFieldsAgree g h := by
  rw [hmacMessage, if_pos hg, hmacMessage, if_pos hh] at heq
  unfold wideMessage at heq
  simp only [List.append_assoc, List.cons_append,
    List.nil_append] at heq
  -- the two tags have one length, so the version bytes line up
  have hdomain := append_inj_of_length
    ((wideDomain_length g.version).trans (wideDomain_length h.version).symm) heq
  obtain ⟨hversion, hrest⟩ := List.cons.inj hdomain.2
  obtain ⟨hkdf, hrest⟩ := List.cons.inj hrest
  obtain ⟨hcipher, hrest⟩ := List.cons.inj hrest
  obtain ⟨hsalt, hrest⟩ := vec_append_inj hrest
  obtain ⟨hiv, hrest⟩ := vec_append_inj hrest
  -- the only field of variable length in the middle carries its length
  obtain ⟨hct, hrest⟩ := prefixed_append_inj
    (Nat.lt_of_lt_of_le lg.verifyCt (by decide))
    (Nat.lt_of_lt_of_le lh.verifyCt (by decide)) hrest
  obtain ⟨hslot, hrest⟩ := List.cons.inj hrest
  obtain ⟨hi1o, hrest⟩ := u32le_append_inj hrest
  obtain ⟨hi1l, hrest⟩ := u32le_append_inj hrest
  obtain ⟨hi2o, hrest⟩ := u32le_append_inj hrest
  obtain ⟨hi2l, hrest⟩ := u32le_append_inj hrest
  obtain ⟨hcommit, hrest⟩ := u64le_append_inj hrest
  obtain ⟨hstate, hrest⟩ := u64le_append_inj hrest
  obtain ⟨hmemory, hrest⟩ := u32le_append_inj hrest
  obtain ⟨htime, hrest⟩ := u32le_append_inj hrest
  obtain ⟨hpar, hrest⟩ := List.cons.inj hrest
  obtain ⟨hflag, hrest⟩ := List.cons.inj hrest
  exact
    { version := hversion, kdfHashId := hkdf, cipherId := hcipher, salt := hsalt,
      verifyIv := hiv, verifyCiphertext := hct, activeIndexSlot := hslot,
      index1Offset := hi1o, index1Length := hi1l, index2Offset := hi2o,
      index2Length := hi2l, commitCounter := hcommit, stateVersion := hstate,
      argon2Memory := hmemory, argon2Time := htime, argon2Parallelism := hpar,
      indexEncrypted := boolByte_inj hflag,
      wrappedMek := wrappedMekField_inj lg.wrapped lh.wrapped hrest }

/-- A header, and the one after its MAC is set and its fail counter dropped. -/
theorem hmacMessage_wide_injective_sample :
    CoveredFieldsAgree sampleHeader
      { sampleHeader with headerHmac := ⟨List.replicate 32 7, rfl⟩, failCounterBlock := none } :=
  hmacMessage_wide_injective sampleHeader
    { sampleHeader with headerHmac := ⟨List.replicate 32 7, rfl⟩, failCounterBlock := none }
    (by decide) (by decide) ⟨by decide, by decide⟩ ⟨by decide, by decide⟩ rfl

/-! ## Which byte strings are legacy messages -/

/-- A header of one of the versions with the narrow MAC. -/
def IsLegacy (g : VaultHeader) : Prop :=
  g.version = 2 ∨ g.version = 3 ∨ g.version = 4

theorem IsLegacy.not_wide {g : VaultHeader} (hg : IsLegacy g) :
    ¬g.version ≥ 5 := by
  rcases hg with hv | hv | hv <;> rw [hv] <;> decide

/-- The V4 header whose narrow message is `m`: the string cut into salt,
IV, (length) and verify ciphertext. -/
def legacyOf (m : Bytes) (hlen : 58 ≤ m.length) : VaultHeader :=
  { sampleHeader with
    version := 4
    salt := ⟨m.take 32, by rw [List.length_take]; omega⟩
    verifyIv := ⟨(m.drop 32).take 24, by
      rw [List.length_take, List.length_drop]; omega⟩
    verifyCiphertext := m.drop 58 }

theorem legacyOf_isLegacy (m : Bytes) (hlen : 58 ≤ m.length) :
    IsLegacy (legacyOf m hlen) :=
  .inr (.inr rfl)

theorem hmacMessage_legacyOf {m : Bytes} (hlen : 58 ≤ m.length)
    (hpre : (m.drop 56).take 2 = u16le (UInt16.ofNat (m.length - 58))) :
    hmacMessage (legacyOf m hlen) = m := by
  rw [hmacMessage, if_neg (legacyOf_isLegacy m hlen).not_wide]
  show m.take 32 ++ (m.drop 32).take 24
    ++ u16le (UInt16.ofNat (m.drop 58).length) ++ m.drop 58 = m
  rw [List.length_drop, ← hpre]
  have htail : (m.drop 56).take 2 ++ m.drop 58 = m.drop 56 := by
    rw [← List.drop_drop (i := 2) (j := 56), List.take_append_drop]
  have hmid : (m.drop 32).take 24 ++ m.drop 56 = m.drop 32 := by
    rw [← List.drop_drop (i := 24) (j := 32), List.take_append_drop]
  rw [List.append_assoc, List.append_assoc, htail, hmid, List.take_append_drop]

/-- **The legacy message space**: a byte string is the narrow message of
some header exactly when it is long enough for salt, IV and length, and
the two bytes behind the IV hold the length of what follows them. -/
theorem isNarrow_iff (m : Bytes) :
    (∃ g, IsLegacy g ∧ hmacMessage g = m)
      ↔ 58 ≤ m.length
        ∧ (m.drop 56).take 2 = u16le (UInt16.ofNat (m.length - 58)) := by
  constructor
  · rintro ⟨g, hg, rfl⟩
    rw [hmacMessage, if_neg hg.not_wide, narrowMessage]
    have hsi : (g.salt.toList ++ g.verifyIv.toList).length = 56 := by simp
    have hlen : (g.salt.toList ++ g.verifyIv.toList
        ++ u16le (UInt16.ofNat g.verifyCiphertext.length)
        ++ g.verifyCiphertext).length = 58 + g.verifyCiphertext.length := by
      simp only [List.length_append, List.Vector.toList_length, u16le_length]
    refine ⟨by omega, ?_⟩
    rw [hlen, Nat.add_sub_cancel_left, List.append_assoc (_ ++ _),
      List.drop_left' hsi, List.take_left' (u16le_length _)]
  · rintro ⟨hlen, hpre⟩
    exact ⟨legacyOf m hlen, legacyOf_isLegacy m hlen,
      hmacMessage_legacyOf hlen hpre⟩

/-! ## Wide messages among the legacy ones -/

theorem wrappedMekField_length (w : Option Bytes) :
    (wrappedMekField w).length = 4 + blockSize w := by
  cases w with
  | none => rfl
  | some w =>
    rw [wrappedMekField, List.length_append, u32le_length]
    rfl

theorem wideMessage_length (h : VaultHeader) :
    (wideMessage h).length
      = 133 + h.verifyCiphertext.length + blockSize h.wrappedMek := by
  have hd := wideDomain_length h.version
  rw [wideDomain] at hd
  unfold wideMessage
  simp only [List.length_append, hd, List.length_cons,
    List.length_nil, List.Vector.toList_length, u32le_length, u64le_length,
    wrappedMekField_length]
  omega

/-- The two bytes a legacy reading takes for the length are the last two
salt bytes of the wide message. -/
theorem wideMessage_lengthField (h : VaultHeader) :
    ((wideMessage h).drop 56).take 2 = h.salt.toList.drop 30 := by
  -- 23 bytes of tag and 3 identifiers, then 30 more of the salt
  have hpre : (wideDomain h.version
      ++ [h.version, h.kdfHashId, h.cipherId]).length = 26 := by
    rw [List.length_append, wideDomain_length]
    rfl
  have hsalt : (h.salt.toList.drop 30).length = 2 := by
    rw [List.length_drop, h.salt.toList_length]
  have h30 : 30 ≤ h.salt.toList.length := by
    rw [h.salt.toList_length]
    decide
  unfold wideMessage
  rw [← wideDomain]
  simp only [List.append_assoc]
  rw [← List.append_assoc, ← List.drop_drop (i := 30) (j := 26),
    List.drop_left' hpre, List.drop_append_of_le_length h30,
    List.take_left' hsalt]

/-- **When the two MAC formats are separated.** A V5/V6 header shares its
MAC message with no legacy header exactly when its last two salt bytes,
as a little-endian integer, differ from the length a legacy reading of
the message gives its verify ciphertext. -/
theorem legacy_wide_separated_iff (h : VaultHeader)
    (hv : h.version = 5 ∨ h.version = 6) :
    (∀ g, IsLegacy g → hmacMessage g ≠ hmacMessage h)
      ↔ u16OfLe (h.salt.toList.drop 30)
        ≠ UInt16.ofNat
          (75 + h.verifyCiphertext.length + blockSize h.wrappedMek) := by
  have hwide : h.version ≥ 5 := by
    rcases hv with hv | hv
    · simp [hv]
    · simp [hv]
  have hmsg : hmacMessage h = wideMessage h := by rw [hmacMessage, if_pos hwide]
  have hsalt : (h.salt.toList.drop 30).length = 2 := by
    rw [List.length_drop, h.salt.toList_length]
  have hnarrow := isNarrow_iff (wideMessage h)
  rw [wideMessage_lengthField, wideMessage_length] at hnarrow
  have hsub : 133 + h.verifyCiphertext.length + blockSize h.wrappedMek - 58
      = 75 + h.verifyCiphertext.length + blockSize h.wrappedMek := by omega
  rw [hsub] at hnarrow
  rw [hmsg]
  constructor
  · intro hsep hcollide
    obtain ⟨g, hg, heq⟩ := hnarrow.mpr
      ⟨by omega, by rw [← hcollide, u16le_u16OfLe hsalt]⟩
    exact hsep g hg heq
  · intro hne g hg heq
    have hfield := (hnarrow.mp ⟨g, hg, heq⟩).2
    exact hne (by rw [hfield, u16OfLe_u16le])

theorem legacy_wide_separated_iff_sample :
    (∀ g, IsLegacy g → hmacMessage g ≠ hmacMessage sampleHeader)
      ↔ u16OfLe (sampleHeader.salt.toList.drop 30)
        ≠ UInt16.ofNat (75 + sampleHeader.verifyCiphertext.length
          + blockSize sampleHeader.wrappedMek) :=
  legacy_wide_separated_iff sampleHeader (.inl rfl)

/-- A V5 header with the usual block sizes whose salt ends in the length
218 of the bytes behind it. -/
def collidingWide : VaultHeader :=
  { sampleHeader with salt := ⟨zeros 30 ++ [218, 0], by decide⟩ }

theorem collidingWide_length : (wideMessage collidingWide).length = 276 := by
  rw [wideMessage_length]
  decide

/-- The V4 header that shares its MAC message. -/
def collidingLegacy : VaultHeader :=
  legacyOf (wideMessage collidingWide) (by rw [collidingWide_length]; decide)

/-- **A V4 and a V5 header with one MAC message**, both of the format:
the verify ciphertext of the legacy one is 218 bytes long. -/
theorem collidingLegacy_collides :
    collidingLegacy.version = 4 ∧ collidingWide.version = 5
      ∧ collidingLegacy.verifyCiphertext.length ≤ MAX_VERIFY_CT_LEN
      ∧ hmacMessage collidingLegacy = hmacMessage collidingWide := by
  refine ⟨rfl, rfl, ?_, ?_⟩
  · show ((wideMessage collidingWide).drop 58).length ≤ MAX_VERIFY_CT_LEN
    rw [List.length_drop, collidingWide_length]
    decide
  · have hmsg : hmacMessage collidingWide = wideMessage collidingWide := by
      rw [hmacMessage, if_pos (by decide)]
    rw [hmsg]
    refine hmacMessage_legacyOf _ ?_
    rw [wideMessage_lengthField, collidingWide_length]
    decide

end UsbVault.VaultHeader
