import UsbVault.Vault.HeaderFormat

/-!
# Unlock

What `VaultHeader::unlock` depends on. The seals of a header (the
wrapped MEK and the verify marker) are opened with the password, the
identifiers, the salt and the Argon2 parameters; everything else only
enters through the header HMAC. So an operation that keeps the sealed
fields (`SealAgree`) and re-signs keeps the keys (`unlock_resign`).
-/

namespace UsbVault.VaultHeader

open Wire

variable {P : Primitives}

/-- Unlock succeeds when the seals open and the stored MAC verifies. -/
theorem unlock_ok_iff {password : Bytes} {h : VaultHeader}
    {encKey hmacKey : ByteVec 32} :
    unlock P password h = .ok (encKey, hmacKey)
      ↔ ∃ mek, unlockMek P password h = .ok mek
        ∧ MacVerifies P hmacKey h
        ∧ mek.encryptionKey = encKey ∧ mek.hmacKey = hmacKey := by
  constructor
  · intro hu
    unfold unlock at hu
    cases hmek : unlockMek P password h with
    | error e => rw [hmek] at hu; cases hu
    | ok mek =>
      rw [hmek] at hu
      change (if computeHmac P mek.hmacKey h ≠ h.headerHmac
        then Except.error CryptoError.invalidHeader
        else Except.ok (mek.encryptionKey, mek.hmacKey)) = _ at hu
      split_ifs at hu with hmac
      obtain ⟨rfl, rfl⟩ := Prod.mk.inj (Except.ok.inj hu)
      exact ⟨mek, rfl, not_not.mp hmac, rfl, rfl⟩
  · rintro ⟨mek, hmek, hmac, rfl, rfl⟩
    unfold unlock
    rw [hmek]
    show (if computeHmac P mek.hmacKey h ≠ h.headerHmac
      then Except.error CryptoError.invalidHeader
      else Except.ok (mek.encryptionKey, mek.hmacKey)) = _
    exact if_neg (not_not.mpr hmac)

theorem unlock_selfDestructed {h : VaultHeader}
    (hd : h.isSelfDestructed = true) (password : Bytes) :
    unlock P password h = .error .selfDestructed := by
  rw [unlock, unlockMek, if_pos hd]
  rfl

/-- A V6 marker is valid when it decrypts to text with the known start. -/
theorem verifyMarkerValid_of {h : VaultHeader} {mek : MasterEncryptionKey}
    {plaintext : Bytes} (hv : h.version ≥ 6)
    (hdec : P.xchacha20Poly1305.decrypt mek.encryptionKey h.verifyIv
      h.verifyAdV6 h.verifyCiphertext = some plaintext)
    (hpre : VERIFY_PREFIX.isPrefixOf plaintext = true) :
    verifyMarkerValid P mek h = true := by
  rw [verifyMarkerValid, if_pos hv, hdec]
  exact hpre

theorem unlockMek_of {password : Bytes} {h : VaultHeader} {wrapped : Bytes}
    {kek : KeyEncryptionKey} {mek : MasterEncryptionKey}
    (hd : h.isSelfDestructed = false) (hw : h.wrappedMek = some wrapped)
    (hkek : deriveHeaderKek P password h = .ok kek)
    (hunwrap : unwrapHeaderMek P kek wrapped h = .ok mek)
    (hvalid : verifyMarkerValid P mek h = true) :
    unlockMek P password h = .ok mek := by
  rw [unlockMek, hd, hw, hkek]
  simp only [Bool.false_eq_true, if_false, bind, Except.bind, hunwrap, hvalid,
    if_true]

/-! ## The sealed fields -/

/-- `h'` carries the seals of `h`: the fields that open them agree, and
the version is the same or went from V4 to V5. -/
structure SealAgree (h h' : VaultHeader) : Prop where
  kdfHashId : h'.kdfHashId = h.kdfHashId
  cipherId : h'.cipherId = h.cipherId
  salt : h'.salt = h.salt
  verifyIv : h'.verifyIv = h.verifyIv
  verifyCiphertext : h'.verifyCiphertext = h.verifyCiphertext
  argon2Memory : h'.argon2Memory = h.argon2Memory
  argon2Time : h'.argon2Time = h.argon2Time
  argon2Parallelism : h'.argon2Parallelism = h.argon2Parallelism
  wrappedMek : h'.wrappedMek = h.wrappedMek
  generation : h'.version = h.version ∨ h.version = 4 ∧ h'.version = 5

theorem SealAgree.refl (h : VaultHeader) : SealAgree h h :=
  ⟨rfl, rfl, rfl, rfl, rfl, rfl, rfl, rfl, rfl, .inl rfl⟩

theorem SealAgree.trans {h₁ h₂ h₃ : VaultHeader} (h12 : SealAgree h₁ h₂)
    (h23 : SealAgree h₂ h₃) : SealAgree h₁ h₃ where
  kdfHashId := h23.kdfHashId.trans h12.kdfHashId
  cipherId := h23.cipherId.trans h12.cipherId
  salt := h23.salt.trans h12.salt
  verifyIv := h23.verifyIv.trans h12.verifyIv
  verifyCiphertext := h23.verifyCiphertext.trans h12.verifyCiphertext
  argon2Memory := h23.argon2Memory.trans h12.argon2Memory
  argon2Time := h23.argon2Time.trans h12.argon2Time
  argon2Parallelism := h23.argon2Parallelism.trans h12.argon2Parallelism
  wrappedMek := h23.wrappedMek.trans h12.wrappedMek
  generation := by
    rcases h12.generation with hv | ⟨hv, hv'⟩
    · rw [← hv]
      exact h23.generation
    · -- the upgrade happens at most once
      rcases h23.generation with hw | ⟨hw, -⟩
      · exact .inr ⟨hv, hw.trans hv'⟩
      · rw [hv'] at hw
        exact absurd hw (by decide)

/-! A seal survives the operations that leave its fields alone; the upgrade
is the one that moves the version. -/

theorem SealAgree.upgrade (h : VaultHeader) :
    SealAgree h h.upgradeToV5IfEligible := by
  unfold upgradeToV5IfEligible
  split_ifs with hv
  · exact ⟨rfl, rfl, rfl, rfl, rfl, rfl, rfl, rfl, rfl, .inr ⟨hv.1, rfl⟩⟩
  · exact .refl h

theorem SealAgree.flipIndexSlot (off len : UInt32) (h : VaultHeader) :
    SealAgree h (h.flipIndexSlot off len) := by
  unfold VaultHeader.flipIndexSlot
  split_ifs <;> exact ⟨rfl, rfl, rfl, rfl, rfl, rfl, rfl, rfl, rfl, .inl rfl⟩

theorem SealAgree.setCommitCounter (n : UInt64) (h : VaultHeader) :
    SealAgree h { h with commitCounter := n } :=
  ⟨rfl, rfl, rfl, rfl, rfl, rfl, rfl, rfl, rfl, .inl rfl⟩

theorem SealAgree.incrementStateVersion (h : VaultHeader) :
    SealAgree h h.incrementStateVersion :=
  ⟨rfl, rfl, rfl, rfl, rfl, rfl, rfl, rfl, rfl, .inl rfl⟩

theorem SealAgree.writeFailCounter (key : ByteVec 32) (count : UInt32)
    (h : VaultHeader) : SealAgree h (h.writeFailCounter P key count) :=
  ⟨rfl, rfl, rfl, rfl, rfl, rfl, rfl, rfl, rfl, .inl rfl⟩

theorem SealAgree.resign (key : ByteVec 32) (h : VaultHeader) :
    SealAgree h (h.resign P key) :=
  ⟨rfl, rfl, rfl, rfl, rfl, rfl, rfl, rfl, rfl, .inl rfl⟩

theorem SealAgree.commitNewIndex (key : ByteVec 32) (off len : UInt32)
    (h : VaultHeader) : SealAgree h (h.commitNewIndex P key off len) :=
  (SealAgree.upgrade h).trans <| (flipIndexSlot off len _).trans <|
    (setCommitCounter _ _).trans <| (incrementStateVersion _).trans <|
      resign key _

/-- The two generations of a seal are told apart by the version alone. -/
theorem SealAgree.legacy_or_same {h h' : VaultHeader} (hs : SealAgree h h') :
    h'.version = h.version ∨ ¬h.version ≥ 6 ∧ ¬h'.version ≥ 6 := by
  rcases hs.generation with hv | ⟨hv, hv'⟩
  · exact .inl hv
  · refine .inr ?_
    rw [hv, hv']
    decide

theorem SealAgree.isSelfDestructed {h h' : VaultHeader}
    (hs : SealAgree h h') : h'.isSelfDestructed = h.isSelfDestructed := by
  unfold VaultHeader.isSelfDestructed
  rw [hs.kdfHashId, hs.wrappedMek]
  rcases hs.generation with hv | ⟨hv, hv'⟩
  · rw [hv]
  · rw [hv, hv']
    rfl

theorem SealAgree.deriveHeaderKek {h h' : VaultHeader} (hs : SealAgree h h')
    (password : Bytes) :
    VaultHeader.deriveHeaderKek P password h'
      = VaultHeader.deriveHeaderKek P password h := by
  unfold VaultHeader.deriveHeaderKek
  rw [hs.kdfHashId, hs.cipherId, hs.salt, hs.argon2Memory, hs.argon2Time,
    hs.argon2Parallelism]
  rcases hs.legacy_or_same with hv | ⟨hv, hv'⟩
  · rw [hv]
  · rw [if_neg hv, if_neg hv']

theorem SealAgree.unwrapHeaderMek {h h' : VaultHeader} (hs : SealAgree h h')
    (kek : KeyEncryptionKey) (wrapped : Bytes) :
    VaultHeader.unwrapHeaderMek P kek wrapped h'
      = VaultHeader.unwrapHeaderMek P kek wrapped h := by
  unfold VaultHeader.unwrapHeaderMek wrapAdV6
  rw [hs.salt, hs.argon2Memory, hs.argon2Time, hs.argon2Parallelism]
  rcases hs.legacy_or_same with hv | ⟨hv, hv'⟩
  · rw [hv]
  · rw [if_neg hv, if_neg hv']

theorem SealAgree.verifyMarkerValid {h h' : VaultHeader} (hs : SealAgree h h')
    (mek : MasterEncryptionKey) :
    VaultHeader.verifyMarkerValid P mek h'
      = VaultHeader.verifyMarkerValid P mek h := by
  unfold VaultHeader.verifyMarkerValid verifyAdV6
  rw [hs.salt, hs.verifyIv, hs.verifyCiphertext]
  rcases hs.legacy_or_same with hv | ⟨hv, hv'⟩
  · rw [hv]
  · rw [if_neg hv, if_neg hv']

theorem SealAgree.unlockMek {h h' : VaultHeader} (hs : SealAgree h h')
    (password : Bytes) :
    VaultHeader.unlockMek P password h' = VaultHeader.unlockMek P password h := by
  unfold VaultHeader.unlockMek
  rw [hs.isSelfDestructed, hs.wrappedMek, hs.deriveHeaderKek]
  simp only [hs.unwrapHeaderMek, hs.verifyMarkerValid]

/-- **A re-signed header with the same seals unlocks to the same keys**,
whatever else changed. -/
theorem unlock_resign {password : Bytes} {h h' : VaultHeader}
    {encKey hmacKey : ByteVec 32} (hs : SealAgree h h')
    (hmac : MacVerifies P hmacKey h')
    (hu : unlock P password h = .ok (encKey, hmacKey)) :
    unlock P password h' = .ok (encKey, hmacKey) := by
  obtain ⟨mek, hmek, -, henc, hkey⟩ := unlock_ok_iff.mp hu
  exact unlock_ok_iff.mpr
    ⟨mek, (hs.unlockMek password).trans hmek, hmac, henc, hkey⟩

theorem resign_macVerifies (hmacKey : ByteVec 32) (h : VaultHeader) :
    MacVerifies P hmacKey (h.resign P hmacKey) := rfl

/-! ## A created vault unlocks -/

theorem verifyPlaintext_prefix :
    VERIFY_PREFIX.isPrefixOf VERIFY_PLAINTEXT = true := by decide

/-- **Create then unlock**: a created header unlocks with its password
to the key halves `create_new` returned. -/
theorem createNew_unlock (hA : P.xchacha20Poly1305.Correct)
    {entropy : CreateEntropy} {password : Bytes} {cipherId : CipherId}
    {h : VaultHeader} {encKey hmacKey : ByteVec 32}
    (hc : createNew P entropy password cipherId = .ok (h, encKey, hmacKey)) :
    unlock P password h = .ok (encKey, hmacKey) := by
  unfold createNew at hc
  simp only [bind, Except.bind] at hc
  split at hc
  · cases hc
  · rename_i kek hkek
    split at hc
    · cases hc
    · rename_i wrapped hwrap
      split at hc
      · cases hc
      · rename_i ct hct
        obtain ⟨rfl, hkeys⟩ := Prod.mk.inj (Except.ok.inj hc)
        obtain ⟨rfl, rfl⟩ := Prod.mk.inj hkeys
        refine unlock_ok_iff.mpr
          ⟨entropy.mek, ?_, resign_macVerifies _ _, rfl, rfl⟩
        -- what `create_new` sealed, each step of `unlock` opens
        have h6 : (6 : UInt8) ≥ 6 := by decide
        have hunwrap := unwrapMekAd_wrapMekAd hA hwrap
        have hmarker := hA.decrypt_encrypt hct
        exact unlockMek_of rfl rfl ((if_pos h6).trans hkek)
          ((if_pos h6).trans hunwrap)
          (verifyMarkerValid_of h6 hmarker verifyPlaintext_prefix)

theorem createNew_unlock_sample :
    ∃ h encKey hmacKey,
      createNew transparentPrimitives ⟨zeroVec 32, ⟨zeroVec 64⟩, zeroVec 24, zeroVec 24⟩ []
        .xchacha20Poly1305 = .ok (h, encKey, hmacKey)
      ∧ unlock transparentPrimitives [] h = .ok (encKey, hmacKey) := by
  have hcreate : ∃ h encKey hmacKey,
      createNew transparentPrimitives ⟨zeroVec 32, ⟨zeroVec 64⟩, zeroVec 24, zeroVec 24⟩ []
        .xchacha20Poly1305 = .ok (h, encKey, hmacKey) := ⟨_, _, _, rfl⟩
  obtain ⟨h, encKey, hmacKey, hc⟩ := hcreate
  exact ⟨h, encKey, hmacKey, hc, createNew_unlock (transparentAead_correct 24) hc⟩

end UsbVault.VaultHeader
