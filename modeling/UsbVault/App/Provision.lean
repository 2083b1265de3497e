import UsbVault.App.Unlocked
import UsbVault.App.IndexJson

/-!
# Provisioning

`createVaultHeader` fills the header block by block from the front;
`provision` writes it, appends the empty index twice and commits the
first copy. The container it leaves opens to no files
(`provision_onDisk`); it fails only where a primitive does
(`provision_succeeds`).
-/

namespace UsbVault.App

open Wire Js Companion

/-- The first 32 bytes of the MEK. -/
def mekEncKey (mek : ByteVec 64) : ByteVec 32 :=
  ⟨mek.toList.take 32, by rw [List.length_take, List.Vector.toList_length]; rfl⟩

/-- The last 32 bytes of the MEK. -/
def mekHmacKey (mek : ByteVec 64) : ByteVec 32 :=
  ⟨mek.toList.drop 32, by rw [List.length_drop, List.Vector.toList_length]⟩

/-- What the generator gives a provisioning. -/
structure ProvisionRandom where
  salt : ByteVec 32
  mek : ByteVec 64
  verifyNonce : ByteVec 12
  wrapNonce : ByteVec 12
  indexNonce : ByteVec 12

/-- `createVaultHeader` -/
def createVaultHeader (C : WebCrypto) (password : Bytes) (cipherId : Nat)
    (random : ProvisionRandom) : Option (Bytes × VaultSession) := do
  let header ← set (zeros HEADER_SIZE) 0 VAULT_MAGIC
  let header := store header 8 [2]
  let header := store header 9 [UInt8.ofNat (if cipherId = 0 then 3 else cipherId)]
  let header ← set header 10 random.salt.toList
  let kek ← C.argon2id password random.salt.toList 65536 3 4
  let encKey := mekEncKey random.mek
  let hmacKey := mekHmacKey random.mek
  let verifyEncrypted ← aesGcmEncryptRaw C encKey random.verifyNonce VERIFY_MARKER
  let header ← set header 42 (verifyEncrypted.take 12)
  let verifyCT := verifyEncrypted.drop 12
  let header := store header 66 (leBytes 2 verifyCT.length)
  let header ← set header 68 verifyCT
  let offset := 68 + verifyCT.length
  let header ← set header offset (computeHeaderHMAC C header hmacKey).toList
  let offset := offset + 32
  let header := store header offset [0]
  let header := store header (offset + 1) (leBytes 4 HEADER_SIZE)
  let header := store header (offset + 5) (leBytes 4 0)
  let header := store header (offset + 9) (leBytes 4 HEADER_SIZE)
  let header := store header (offset + 13) (leBytes 4 0)
  let header := store header (offset + 17) (leBytes 8 0)
  let header := store header (offset + 25) (leBytes 4 65536)
  let header := store header (offset + 29) (leBytes 4 3)
  let header := store header (offset + 33) [4]
  let header := store header (offset + 34) (leBytes 4 0)
  let header := store header (offset + 38) (leBytes 4 0)
  let header := store header (offset + 42) (leBytes 4 36)
  let header := store header (offset + 46) (leBytes 4 0)
  let header ← set header (offset + 50) (computeFailCounterHMAC C 0 hmacKey).toList
  let wrappedMek ← aesGcmEncryptRaw C kek random.wrapNonce random.mek.toList
  let header := store header (offset + 82) (leBytes 4 wrappedMek.length)
  let header ← set header (offset + 86) wrappedMek
  let offset := offset + 86 + wrappedMek.length
  let header := store header offset (leBytes 8 1)
  let header := store header (offset + 8) [1]
  return (header, ⟨encKey, hmacKey⟩)

/-- `provision`, on the container the companion has created. The magic
check at its end repeats the companion's. -/
def provision (C : WebCrypto) (K : IndexCodec) (disk password : Bytes) (cipherId : Nat)
    (random : ProvisionRandom) : Option (Bytes × VaultSession) := do
  let (headerBytes, session) ← createVaultHeader C password cipherId random
  let disk ← writeHeaderOf disk headerBytes
  let encryptedIndex ←
    encryptVaultContainerIndex C K session.encryptionKey random.indexNonce []
  let (slot0, disk) ← appendOf disk encryptedIndex
  let (_, disk) ← appendOf disk encryptedIndex
  let updatedHeader ← commitVaultIndex C headerBytes session.hmacKey slot0.offset slot0.length
  let disk ← writeHeaderOf disk updatedHeader
  let _ ← readHeaderOf disk
  let _ ← (parseVaultHeader updatedHeader).toOption
  return (disk, session)

/-! ## The blocks of a new header -/

/-- What a new header is made of. -/
structure HeaderParts where
  cipher : UInt8
  salt : ByteVec 32
  verifyNonce : ByteVec 12
  verifyCT : ByteVec 39
  hmac : ByteVec 32
  failHmac : ByteVec 32
  wrappedMek : ByteVec 92

namespace HeaderParts

/-- The blocks `createVaultHeader` writes, in order. -/
def blocks (p : HeaderParts) : List Bytes :=
  [VAULT_MAGIC, [2], [p.cipher], p.salt.toList, p.verifyNonce.toList, zeros 12, leBytes 2 39,
    p.verifyCT.toList, p.hmac.toList, [0], leBytes 4 HEADER_SIZE, leBytes 4 0,
    leBytes 4 HEADER_SIZE, leBytes 4 0, leBytes 8 0, leBytes 4 65536, leBytes 4 3, [4],
    leBytes 4 0, leBytes 4 0, leBytes 4 36, leBytes 4 0, p.failHmac.toList, leBytes 4 92,
    p.wrappedMek.toList, leBytes 8 1, [1]]

def header (p : HeaderParts) : Bytes := filled HEADER_SIZE p.blocks

theorem magic_length : VAULT_MAGIC.length = 8 := rfl

variable (p : HeaderParts)

theorem header_length : p.header.length = HEADER_SIZE := by
  have hsize : HEADER_SIZE = 24576 := rfl
  exact filled_length (by simp [blocks, magic_length, hsize])

theorem verifyCTLen_eq : verifyCTLen p.header = 39 :=
  readLE_filled 6 rfl (by simp [blocks, magic_length]) (by decide)

theorem metadata_eq : getIndexMetadataOffset p.header = 139 := by
  rw [getIndexMetadataOffset, p.verifyCTLen_eq]

theorem tfa_eq : tfaBlockOffset p.header = 177 := by
  have hread : readLE 4 p.header 173 = 0 :=
    readLE_filled 18 rfl (by simp [blocks, magic_length]) (by decide)
  rw [tfaBlockOffset, p.metadata_eq, hread]

theorem counter_eq : getFailCounterBlockOffset p.header = 181 := by
  have hread : readLE 4 p.header 177 = 0 :=
    readLE_filled 19 rfl (by simp [blocks, magic_length]) (by decide)
  rw [getFailCounterBlockOffset, p.tfa_eq, hread]

theorem counterLen_eq : readLE 4 p.header 181 = 36 :=
  readLE_filled 20 rfl (by simp [blocks, magic_length]) (by decide)

theorem wrapped_eq : wrappedMekOffset p.header = 221 := by
  rw [wrappedMekOffset, p.counter_eq, p.counterLen_eq]

theorem wrappedLen_eq : readLE 4 p.header 221 = 92 :=
  readLE_filled 23 rfl (by simp [blocks, magic_length]) (by decide)

theorem stateVersion_eq : stateVersionOffset p.header = 317 := by
  rw [stateVersionOffset, p.wrapped_eq, p.wrappedLen_eq]

theorem magic_eq : slice p.header 0 8 = VAULT_MAGIC :=
  pread_filled 0 rfl rfl rfl

theorem webHeader : WebHeader p.header where
  length := p.header_length
  magic := p.magic_eq
  counterBlock := by rw [p.counter_eq, p.counterLen_eq]
  fits := by
    rw [p.stateVersion_eq]
    decide

theorem activeRange_eq : activeRange p.header = ⟨HEADER_SIZE, 0⟩ := by
  have hslot : p.header[139]? = some 0 := by
    have hread : pread p.header 139 1 = [0] :=
      pread_filled 9 rfl (by simp [blocks, magic_length]) rfl
    rw [getElem?_eq_pread, hread]
    rfl
  have hoffset : readLE 4 p.header 140 = HEADER_SIZE :=
    readLE_filled 10 rfl (by simp [blocks, magic_length]) (by decide)
  have hlength : readLE 4 p.header 144 = 0 :=
    readLE_filled 11 rfl (by simp [blocks, magic_length]) (by decide)
  rw [activeRange, activePointers, p.metadata_eq]
  simp only [hslot, if_pos, hoffset, hlength]

theorem unlockFields_eq : unlockFields p.header = {
    magic := VAULT_MAGIC
    kdfHashId := [2]
    salt := p.salt.toList
    memory := 65536
    time := 3
    parallelism := 4
    wrappedMek := p.wrappedMek.toList
    wrappedMekLen := 92
    verifyIv := p.verifyNonce.toList
    verifyCT := p.verifyCT.toList
    verifyCTLen := 39 } := by
  have hkdf : pread p.header 8 1 = [2] := pread_filled 1 rfl (by simp [blocks, magic_length]) rfl
  have hsalt : pread p.header 10 32 = p.salt.toList :=
    pread_filled 3 rfl (by simp [blocks, magic_length]) (by simp)
  have hnonce : pread p.header 42 12 = p.verifyNonce.toList :=
    pread_filled 4 rfl (by simp [blocks, magic_length]) (by simp)
  have hct : pread p.header 68 39 = p.verifyCT.toList :=
    pread_filled 7 rfl (by simp [blocks, magic_length]) (by simp)
  have hmemory : readLE 4 p.header 164 = 65536 :=
    readLE_filled 15 rfl (by simp [blocks, magic_length]) (by decide)
  have htime : readLE 4 p.header 168 = 3 :=
    readLE_filled 16 rfl (by simp [blocks, magic_length]) (by decide)
  have hlanes : readLE 1 p.header 172 = 4 := by
    have hread : pread p.header 172 1 = [4] :=
      pread_filled 17 rfl (by simp [blocks, magic_length]) rfl
    rw [readLE, hread]
    rfl
  have hwrapped : pread p.header 225 92 = p.wrappedMek.toList :=
    pread_filled 24 rfl (by simp [blocks, magic_length]) (by simp)
  have hmagic : pread p.header 0 8 = VAULT_MAGIC := p.magic_eq
  simp only [unlockFields, hmagic, Nat.sub_zero, slice, p.metadata_eq, p.verifyCTLen_eq, p.wrapped_eq,
    p.stateVersion_eq, p.wrappedLen_eq, hkdf, hsalt, hnonce, hct, hmemory, htime, hlanes,
    hwrapped]

end HeaderParts

/-! ## What a provisioning leaves -/

variable {C : WebCrypto} {K : IndexCodec} {password : Bytes} {keys : VaultSession}
variable {disk disk' header : Bytes} {cipherId : Nat} {random : ProvisionRandom}

/-- The primitives' part in a new header. -/
structure Wraps (C : WebCrypto) (password : Bytes) (random : ProvisionRandom) (kek : ByteVec 32)
    (verifyCT : ByteVec 39) (wrappedMek : ByteVec 92) : Prop where
  derives : C.argon2id password random.salt.toList 65536 3 4 = some kek
  marks : aesGcmEncryptRaw C (mekEncKey random.mek) random.verifyNonce VERIFY_MARKER
    = some (random.verifyNonce.toList ++ verifyCT.toList)
  wraps : aesGcmEncryptRaw C kek random.wrapNonce random.mek.toList = some wrappedMek.toList

theorem createVaultHeader_eq (cipherId : Nat) {kek : ByteVec 32} {verifyCT : ByteVec 39}
    {wrappedMek : ByteVec 92} (h : Wraps C password random kek verifyCT wrappedMek) :
    ∃ cipher hmac failHmac, createVaultHeader C password cipherId random
      = some (HeaderParts.header ⟨cipher, random.salt, random.verifyNonce, verifyCT, hmac,
          failHmac, wrappedMek⟩, ⟨mekEncKey random.mek, mekHmacKey random.mek⟩) := by
  have hnonce : random.verifyNonce.toList.length = 12 := List.Vector.toList_length _
  have hsize : HEADER_SIZE = 24576 := rfl
  have htake : (random.verifyNonce.toList ++ verifyCT.toList).take 12
      = random.verifyNonce.toList := List.take_left' hnonce
  have hdrop : (random.verifyNonce.toList ++ verifyCT.toList).drop 12 = verifyCT.toList :=
    List.drop_left' hnonce
  simp only [createVaultHeader, h.derives, h.marks, h.wraps, htake, hdrop,
    List.Vector.toList_length, Option.bind_eq_bind, Option.bind_some, ← filled_nil]
  -- up to the nonce, the twelve bytes passed over, and the rest
  simp (disch := simp [HeaderParts.magic_length, hsize]) only [set_filled, store_filled,
    Option.bind_some, List.nil_append]
  rw [filled_skip 12 (by simp [HeaderParts.magic_length, hsize])]
  simp (disch := simp [HeaderParts.magic_length, hsize]) only [set_filled, store_filled,
    Option.bind_some, List.cons_append, List.nil_append]
  exact ⟨_, _, _, rfl⟩

theorem opens_newHeader (hC : C.aesGcm.Correct) {kek : ByteVec 32} {p : HeaderParts}
    (hsalt : p.salt = random.salt) (hnonce : p.verifyNonce = random.verifyNonce)
    (h : Wraps C password random kek p.verifyCT p.wrappedMek) :
    unlockVault C p.header password = .ok ⟨mekEncKey random.mek, mekHmacKey random.mek⟩ := by
  have hmek : random.mek.toList.length = 64 := List.Vector.toList_length _
  have hct : p.verifyCT.toList.length = 39 := List.Vector.toList_length _
  have hwrap := aesGcmDecryptRaw_encrypt hC h.wraps
  have hmark := aesGcmDecryptRaw_encrypt hC h.marks
  have hparams : validateWebArgon2Params 65536 3 4 = .ok () := by
    rw [validateWebArgon2Params, if_neg (by decide)]
  have halive : ([2] : Bytes) ≠ [KDF_HASH_ID_DESTROYED] := by decide
  rw [unlockVault, p.unlockFields_eq, UnlockFields.unlock]
  simp only [ne_eq, not_true_eq_false, if_false, halive, hparams, hsalt, h.derives, orThrow, hwrap,
    hnonce, hct, Nat.sub_self, bind, Except.bind]
  have hblob : random.verifyNonce.toList ++ p.verifyCT.toList ++ zeros 0
      = random.verifyNonce.toList ++ p.verifyCT.toList := List.append_nil _
  rw [mekEncKey] at hmark
  rw [if_neg (by decide), dif_pos hmek, hblob, hmark]
  simp only [not_true_eq_false, if_false, mekEncKey, mekHmacKey]

theorem aesGcmEncryptRaw_split (hC : C.aesGcm.Correct) {key : ByteVec 32} {iv : ByteVec 12}
    {plaintext bytes : Bytes} (h : aesGcmEncryptRaw C key iv plaintext = some bytes) :
    ∃ ct : ByteVec (plaintext.length + 16), bytes = iv.toList ++ ct.toList := by
  rw [aesGcmEncryptRaw, Option.map_eq_some_iff] at h
  obtain ⟨ct, hct, rfl⟩ := h
  exact ⟨⟨ct, hC.encrypt_length hct⟩, rfl⟩

theorem createVaultHeader_wraps (hC : C.aesGcm.Correct)
    (h : createVaultHeader C password cipherId random = some (header, keys)) :
    ∃ kek verifyCT wrappedMek, Wraps C password random kek verifyCT wrappedMek := by
  simp only [createVaultHeader, Option.bind_eq_bind, Option.bind_eq_some_iff] at h
  obtain ⟨_, _, _, _, kek, hkek, verifyEncrypted, hmark, _, _, _, _, _, _, _, _, wrappedMek, hwrap,
    _⟩ := h
  obtain ⟨verifyCT, rfl⟩ := aesGcmEncryptRaw_split hC hmark
  have hlen : wrappedMek.length = 92 := by
    rw [aesGcmEncryptRaw_length hC hwrap, List.Vector.toList_length]
  exact ⟨kek, verifyCT, ⟨wrappedMek, hlen⟩, hkek, hmark, hwrap⟩

theorem createVaultHeader_parts (hC : C.aesGcm.Correct)
    (h : createVaultHeader C password cipherId random = some (header, keys)) :
    ∃ p : HeaderParts, header = p.header := by
  obtain ⟨kek, verifyCT, wrappedMek, hwraps⟩ := createVaultHeader_wraps hC h
  obtain ⟨cipher, hmac, failHmac, heq⟩ := createVaultHeader_eq cipherId hwraps
  rw [heq] at h
  cases h
  exact ⟨_, rfl⟩

/-- **A new header is good**, and names an empty range. -/
theorem createVaultHeader_good (hC : C.aesGcm.Correct)
    (h : createVaultHeader C password cipherId random = some (header, keys)) :
    GoodHeader C password keys header ∧ activeRange header = ⟨HEADER_SIZE, 0⟩ := by
  obtain ⟨kek, verifyCT, wrappedMek, hwraps⟩ := createVaultHeader_wraps hC h
  obtain ⟨cipher, hmac, failHmac, heq⟩ := createVaultHeader_eq cipherId hwraps
  rw [heq] at h
  cases h
  exact ⟨⟨HeaderParts.webHeader _, opens_newHeader hC rfl rfl hwraps⟩,
    HeaderParts.activeRange_eq _⟩

/-- **A provisioned container opens to no files**, and names the first copy
of the index. -/
theorem provision_onDisk (hC : C.aesGcm.Correct) (hlong : HEADER_SIZE ≤ disk.length)
    (hsize : disk.length < 2 ^ 32)
    (h : provision C K disk password cipherId random = some (disk', keys)) :
    OnDisk C K password keys disk' [] ∧ activeRange (disk'.take HEADER_SIZE)
      = ⟨disk.length, (K.stringify []).length + 28⟩ := by
  simp only [provision, Option.bind_eq_bind, Option.bind_eq_some_iff, Prod.exists] at h
  obtain ⟨header, session, hcreate, disk₁, hwrite₁, blob, henc, slot, disk₂, happend₂, slot', disk₃,
    happend₃, updated, hcommit, disk₄, hwrite₄, _, _, _, _, hresult⟩ := h
  cases hresult
  obtain ⟨hgood, _⟩ := createVaultHeader_good hC hcreate
  obtain ⟨hext₁, _⟩ := writeHeaderOf_spec hlong hwrite₁
  obtain ⟨hext₂, _, hoff, hread, _⟩ := appendOf_spec hext₁.long' happend₂
  obtain ⟨hext₃, _⟩ := appendOf_spec hext₂.long' happend₃
  obtain ⟨hext₄, htake⟩ := writeHeaderOf_spec hext₃.long' hwrite₄
  have hnil : (Obj.keys ([] : Files)).Nodup := List.nodup_nil
  obtain ⟨files', hdec, hsame⟩ := decryptVaultContainerIndex_encrypt hC hnil henc
  have hat : IndexAt C K keys disk₂ slot [] := ⟨blob, files', hread, hdec, hsame⟩
  have hslot : slot = ⟨disk.length, (K.stringify []).length + 28⟩ := by
    have hlen := writeHeaderOf_length hwrite₁
    rw [Nat.max_eq_right hlong] at hlen
    rw [appendOf_range happend₂, hlen, aesGcmEncryptRaw_length hC henc]
  have hsmall : slot.offset < 2 ^ 32 := by
    rw [hslot]
    exact hsize
  obtain ⟨header', hcommit', hgood', hrange⟩ := hgood.commit keys.hmacKey slot hsmall hat.length_lt
  rw [hcommit'] at hcommit
  cases hcommit
  have hat' : IndexAt C K keys disk' (activeRange updated) [] := by
    rw [hrange]
    exact (hat.mono hext₃ hoff).mono hext₄ hoff
  refine ⟨⟨⟨hext₄.long', htake.symm ▸ hgood', ?_⟩, htake.symm ▸ hat'.names⟩, ?_⟩
  · rw [htake, hrange]
    exact hoff
  · rw [htake, hrange, hslot]

/-- The primitives never throw. -/
structure WebCrypto.Total (C : WebCrypto) : Prop where
  encrypt : ∀ key iv plaintext, ∃ ct, C.aesGcm.encrypt key iv [] plaintext = some ct
  derive : ∀ password salt memory time parallelism, ∃ kek,
    C.argon2id password salt memory time parallelism = some kek

theorem WebCrypto.Total.encryptRaw (h : C.Total) (key : ByteVec 32) (iv : ByteVec 12)
    (plaintext : Bytes) : ∃ bytes, aesGcmEncryptRaw C key iv plaintext = some bytes := by
  obtain ⟨ct, hct⟩ := h.encrypt key iv plaintext
  exact ⟨iv.toList ++ ct, by rw [aesGcmEncryptRaw, hct, Option.map_some]⟩

theorem WebCrypto.Total.wraps (h : C.Total) (hC : C.aesGcm.Correct) (password : Bytes)
    (random : ProvisionRandom) :
    ∃ kek verifyCT wrappedMek, Wraps C password random kek verifyCT wrappedMek := by
  obtain ⟨kek, hkek⟩ := h.derive password random.salt.toList 65536 3 4
  obtain ⟨mark, hmark⟩ := h.encryptRaw (mekEncKey random.mek) random.verifyNonce VERIFY_MARKER
  obtain ⟨wrapped, hwrapped⟩ := h.encryptRaw kek random.wrapNonce random.mek.toList
  obtain ⟨verifyCT, rfl⟩ := aesGcmEncryptRaw_split hC hmark
  have hlen : wrapped.length = 92 := by
    rw [aesGcmEncryptRaw_length hC hwrapped, List.Vector.toList_length]
  exact ⟨kek, verifyCT, ⟨wrapped, hlen⟩, hkek, hmark, hwrapped⟩

theorem appendOf_eq (disk : Bytes) {d : Bytes} (hpos : 0 < d.length) (hmax : d.length ≤ MAX_IO_SIZE) :
    appendOf disk d = some (⟨disk.length, d.length⟩, disk ++ d) := by
  have hne : d ≠ [] := List.ne_nil_of_length_pos hpos
  rw [appendOf, if_neg]
  rintro (hnil | hbig)
  · exact hne hnil
  · omega

/-- **A provisioning fails only where a primitive does.** -/
theorem provision_succeeds (password : Bytes) (cipherId : Nat) (random : ProvisionRandom)
    (hC : C.aesGcm.Correct) (htotal : C.Total)
    (hlong : HEADER_SIZE ≤ disk.length) (hsize : disk.length < 2 ^ 32)
    (hfit : (K.stringify []).length + 28 ≤ MAX_IO_SIZE) :
    ∃ disk', provision C K disk password cipherId random
        = some (disk', ⟨mekEncKey random.mek, mekHmacKey random.mek⟩)
      ∧ disk'.length = disk.length + 2 * ((K.stringify []).length + 28) := by
  obtain ⟨kek, verifyCT, wrappedMek, hwraps⟩ := htotal.wraps hC password random
  obtain ⟨cipher, hmac, failHmac, hcreate⟩ := createVaultHeader_eq cipherId hwraps
  obtain ⟨hgood, _⟩ := createVaultHeader_good hC hcreate
  generalize HeaderParts.header _ = header at hcreate hgood
  generalize mekEncKey random.mek = encKey at hcreate hgood ⊢
  generalize mekHmacKey random.mek = hmacKey at hcreate hgood ⊢
  obtain ⟨blob, hblob⟩ := htotal.encryptRaw encKey random.indexNonce (K.stringify [])
  have hlen := aesGcmEncryptRaw_length hC hblob
  have henc : encryptVaultContainerIndex C K encKey random.indexNonce [] = some blob := hblob
  have hwrite := writeHeaderOf_good disk hgood
  have hlength := writeHeaderOf_length hwrite
  rw [Nat.max_eq_right hlong] at hlength
  generalize header ++ disk.drop HEADER_SIZE = disk₁ at hwrite hlength
  have hpos : 0 < blob.length := by omega
  have hmax : blob.length ≤ MAX_IO_SIZE := by omega
  have happend₂ := appendOf_eq disk₁ hpos hmax
  have happend₃ := appendOf_eq (disk₁ ++ blob) hpos hmax
  have hoffset : disk₁.length < 2 ^ 32 := by omega
  have hblobLength : blob.length < 2 ^ 32 := Nat.lt_of_le_of_lt hmax (by decide)
  obtain ⟨updated, hcommit, hgood', _⟩ :=
    hgood.commit hmacKey ⟨disk₁.length, blob.length⟩ hoffset hblobLength
  have hwrite' := writeHeaderOf_good (disk₁ ++ blob ++ blob) hgood'
  have hlength' := writeHeaderOf_length hwrite'
  have hlong' : HEADER_SIZE ≤ (disk₁ ++ blob ++ blob).length := by
    rw [List.length_append, List.length_append]
    omega
  obtain ⟨hext, _, htake⟩ := hgood'.extends hlong'
  have hread := (htake.symm ▸ hgood').readHeaderOf hext.long'
  rw [htake] at hread
  obtain ⟨info, hparse, _⟩ := parseVaultHeader_of_magic hgood'.web.magic
  refine ⟨updated ++ (disk₁ ++ blob ++ blob).drop HEADER_SIZE, ?_, ?_⟩
  · simp only [provision, hcreate, hwrite, henc, happend₂, happend₃, hcommit, hwrite', hread,
      hparse, Except.toOption, Option.bind_eq_bind, Option.bind_some]
    rfl
  · rw [hlength', List.length_append, List.length_append]
    omega

/-! ## A sample container -/

/-- Transparent encryption and constant hashes. -/
def transparentCrypto : WebCrypto where
  aesGcm := transparentAead 12
  hmacSha256 _ _ := zeroVec 32
  argon2id _ _ _ _ _ := some (zeroVec 32)

theorem transparentCrypto_total : transparentCrypto.Total where
  encrypt := fun _ _ plaintext => ⟨plaintext ++ zeros 16, rfl⟩
  derive := fun _ _ _ _ _ => ⟨zeroVec 32, rfl⟩

/-- A MEK of ones; salt and nonces of zeros. -/
def sampleRandom : ProvisionRandom :=
  ⟨zeroVec 32, ⟨List.replicate 64 1, rfl⟩, zeroVec 12, zeroVec 12, zeroVec 12⟩

def samplePassword : Bytes := ascii "correct horse"

def sampleKeys : VaultSession := ⟨mekEncKey sampleRandom.mek, mekHmacKey sampleRandom.mek⟩

/-- The container the companion creates, provisioned. -/
def sampleDisk : Bytes :=
  ((provision transparentCrypto indexJson (zeros HEADER_SIZE) samplePassword 3 sampleRandom).map
    Prod.fst).getD []

theorem sampleIndex_length : (indexJson.stringify []).length = 12 := by
  show (stringifyIndex []).length = 12
  rw [stringifyIndex_nil]
  rfl

theorem sampleDisk_provisioned :
    provision transparentCrypto indexJson (zeros HEADER_SIZE) samplePassword 3 sampleRandom
        = some (sampleDisk, sampleKeys)
      ∧ sampleDisk.length = HEADER_SIZE + 80 := by
  have hindex := sampleIndex_length
  have hempty : (zeros HEADER_SIZE).length = HEADER_SIZE := List.length_replicate
  obtain ⟨disk, hdisk, hlen⟩ := provision_succeeds (K := indexJson) samplePassword 3 sampleRandom
    (transparentAead_correct 12) transparentCrypto_total hempty.ge (by rw [hempty]; decide)
    (by rw [hindex]; decide)
  have heq : sampleDisk = disk := by rw [sampleDisk, hdisk]; rfl
  rw [hempty, hindex] at hlen
  rw [heq]
  exact ⟨hdisk, hlen⟩

theorem sampleDisk_onDisk :
    OnDisk transparentCrypto indexJson samplePassword sampleKeys sampleDisk []
      ∧ (activeRange (sampleDisk.take HEADER_SIZE)).length = 40 := by
  have hempty : (zeros HEADER_SIZE).length = HEADER_SIZE := List.length_replicate
  obtain ⟨hon, hrange⟩ := provision_onDisk (transparentAead_correct 12) hempty.ge
    (by rw [hempty]; decide) sampleDisk_provisioned.1
  rw [hrange]
  exact ⟨hon, congrArg (· + 28) sampleIndex_length⟩

end UsbVault.App
