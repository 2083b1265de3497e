import UsbVault.Crypto.Streaming

/-!
# The two-factor block

`tfa.rs`: the block of FIDO2 credentials in the vault header, its writer and
its reader. The writer cuts every field to what its length prefix may say,
and the reader takes what the writer has cut back field by field
(`unpack_pack`): the one thing that can fail is a label that was cut inside
a character.
-/

namespace UsbVault.Tfa

open Wire

/-- Maximum credential ID size. -/
def MAX_CRED_ID_SIZE : Nat := 256

/-- Maximum label size. -/
def MAX_LABEL_SIZE : Nat := 32

/-- Maximum total credentials. -/
def MAX_CREDENTIALS : Nat := 4

/-- `TfaMethod` -/
inductive TfaMethod where
  | none
  | fido2
  deriving DecidableEq, Repr

namespace TfaMethod

/-- `self.method as u8` -/
def toByte : TfaMethod → UInt8
  | none => 0
  | fido2 => 1

/-- `from_byte` -/
def fromByte (b : UInt8) : Result TfaMethod :=
  if b = 0 then .ok none
  else if b = 1 then .ok fido2
  else .error (.invalidInput s!"Unknown TFA method: {b}")

theorem fromByte_toByte (method : TfaMethod) : fromByte method.toByte = .ok method := by
  cases method with
  | none => rfl
  | fido2 => rfl

end TfaMethod

/-- `TfaCredentialEntry` -/
structure TfaCredentialEntry where
  credentialId : Bytes
  aaguid : ByteVec 16
  label : String
  deriving DecidableEq

/-- `TfaBlock` -/
structure TfaBlock where
  method : TfaMethod
  maxAttempts : UInt8
  fido2Salt : ByteVec 32
  recoveryBlob : Bytes
  credentials : List TfaCredentialEntry
  deriving DecidableEq

/-! ## The writer -/

namespace TfaCredentialEntry

/-- The bytes of the label that are written. -/
def labelBytes (cred : TfaCredentialEntry) : Bytes :=
  (utf8 cred.label).take (min (utf8 cred.label).length MAX_LABEL_SIZE)

/-- An entry of the block. -/
def pack (cred : TfaCredentialEntry) : Bytes :=
  let credIdLen := min cred.credentialId.length MAX_CRED_ID_SIZE
  let labelLen := min (utf8 cred.label).length MAX_LABEL_SIZE
  u16le (UInt16.ofNat credIdLen) ++ (cred.credentialId.take credIdLen ++ (cred.aaguid.toList
    ++ ([UInt8.ofNat labelLen] ++ cred.labelBytes)))

end TfaCredentialEntry

/-- `TfaBlock::pack` -/
def TfaBlock.pack (self : TfaBlock) : Bytes :=
  let rbLen := min self.recoveryBlob.length 255
  let credCount := min self.credentials.length MAX_CREDENTIALS
  [self.method.toByte] ++ ([self.maxAttempts] ++ (self.fido2Salt.toList ++ ([UInt8.ofNat rbLen]
    ++ (self.recoveryBlob.take rbLen ++ ([UInt8.ofNat credCount]
      ++ (self.credentials.take MAX_CREDENTIALS).flatMap TfaCredentialEntry.pack)))))

/-! ## The reader -/

/-- `String::from_utf8` of a label. -/
def labelFromUtf8 (bytes : Bytes) : Result String :=
  match String.fromUTF8? ⟨bytes.toArray⟩ with
  | some label => .ok label
  | none => .error (.invalidInput "Label is not valid UTF-8")

/-- The fields of an entry, its label as bytes. -/
def readFields : Reader CryptoError (Bytes × ByteVec 16 × Bytes) := do
  let credIdLen ← readU16le (.invalidInput "TFA block truncated at credential")
  if credIdLen.toNat > MAX_CRED_ID_SIZE then
    fail (.invalidInput s!"Credential ID too large: {credIdLen} bytes")
  else do
    let credentialId ← take (.invalidInput "TFA block truncated in credential ID") credIdLen.toNat
    let aaguid ← takeVec (.invalidInput "TFA block truncated at AAGUID") 16
    let labelLen ← readU8 (.invalidInput "TFA block truncated at label length")
    if labelLen.toNat > MAX_LABEL_SIZE then
      fail (.invalidInput s!"Label too large: {labelLen} bytes (max {MAX_LABEL_SIZE})")
    else do
      let label ← take (.invalidInput "TFA block truncated in label") labelLen.toNat
      return (credentialId, aaguid, label)

/-- One round of the loop over the credentials. -/
def readEntry : Reader CryptoError TfaCredentialEntry :=
  readFields >>= fun fields => lift do
    let label ← labelFromUtf8 fields.2.2
    return { credentialId := fields.1, aaguid := fields.2.1, label }

/-- The loop over the credentials. -/
def readEntries : Nat → Reader CryptoError (List TfaCredentialEntry)
  | 0 => return []
  | count + 1 => readEntry >>= fun cred => readEntries count >>= fun creds => return cred :: creds

/-- From the credential count on. -/
def readCredentials : Reader CryptoError (List TfaCredentialEntry) := do
  let more ← hasRoom 1
  if more then do
    let credCount ← readU8 (.invalidInput "TFA block truncated at credential")
    if credCount.toNat > MAX_CREDENTIALS then
      fail (.invalidInput s!"Too many TFA credentials: {credCount} (max {MAX_CREDENTIALS})")
    else readEntries credCount.toNat
  else return []

def tooShort : CryptoError := .invalidInput "TFA block too short (minimum 35 bytes)"

/-- The field chain of `unpack`. The length has been checked for the first
two bytes, which are indexed. -/
def readBlock : Reader CryptoError TfaBlock := do
  let methodByte ← readU8 tooShort
  let method ← lift (TfaMethod.fromByte methodByte)
  let maxAttempts ← readU8 tooShort
  let fido2Salt ← takeVec (.invalidInput "TFA block truncated at salt") 32
  let rbLen ← readU8 (.invalidInput "TFA block truncated at recovery blob")
  let recoveryBlob ← take (.invalidInput "TFA block truncated in recovery blob data") rbLen.toNat
  let credentials ← readCredentials
  return { method, maxAttempts, fido2Salt, recoveryBlob, credentials }

/-- `TfaBlock::unpack` -/
def unpack (data : Bytes) : Result TfaBlock :=
  if data.length < 35 then .error tooShort
  else (readBlock (Cursor.start data)).map Prod.fst

/-! ## What the reader makes of a written block -/

/-- An entry as it is read back: cut, its label decoded again. -/
def TfaCredentialEntry.readBack (cred : TfaCredentialEntry) : Result TfaCredentialEntry := do
  let label ← labelFromUtf8 cred.labelBytes
  return { credentialId := cred.credentialId.take MAX_CRED_ID_SIZE, aaguid := cred.aaguid, label }

/-- A block as it is read back. -/
def TfaBlock.readBack (self : TfaBlock) : Result TfaBlock := do
  let credentials ← (self.credentials.take MAX_CREDENTIALS).mapM TfaCredentialEntry.readBack
  return { self with
    recoveryBlob := self.recoveryBlob.take 255
    credentials }

theorem labelBytes_length (cred : TfaCredentialEntry) :
    cred.labelBytes.length = min (utf8 cred.label).length MAX_LABEL_SIZE := by
  rw [TfaCredentialEntry.labelBytes, List.length_take]
  omega

theorem u8_ofNat_min (n : Nat) {limit : Nat} (h : limit < 256) :
    (UInt8.ofNat (min n limit)).toNat = min n limit :=
  UInt8.toNat_ofNat_of_lt' (by have : UInt8.size = 256 := rfl; omega)

theorem take_min {xs : Bytes} {limit : Nat} : xs.take (min xs.length limit) = xs.take limit := by
  rw [List.take_eq_take_iff]
  omega

theorem readFields_pack (cred : TfaCredentialEntry) (s : Bytes) :
    Yields readFields (cred.pack ++ s) s
      (cred.credentialId.take MAX_CRED_ID_SIZE, cred.aaguid, cred.labelBytes) := by
  have hid : (UInt16.ofNat (min cred.credentialId.length MAX_CRED_ID_SIZE)).toNat
      = min cred.credentialId.length MAX_CRED_ID_SIZE :=
    UInt16.toNat_ofNat_of_lt' (by
      have : UInt16.size = 65536 := rfl
      have : MAX_CRED_ID_SIZE = 256 := rfl
      omega)
  have hlabel := u8_ofNat_min (utf8 cred.label).length (show MAX_LABEL_SIZE < 256 by decide)
  simp only [TfaCredentialEntry.pack, List.append_assoc]
  refine (yields_readU16le _ _ _).bind ?_
  rw [hid, if_neg (by omega)]
  refine (yields_take _ (by rw [List.length_take]; omega) _).bind ?_
  refine (yields_takeVec _ _ _).bind ?_
  refine (yields_readU8 _ _ _).bind ?_
  rw [hlabel, if_neg (by omega)]
  refine (yields_take _ (labelBytes_length cred) _).bind ?_
  rw [take_min]
  exact Yields.pure _ _

theorem readEntry_pack (cred : TfaCredentialEntry) (s : Bytes) :
    Follows readEntry (cred.pack ++ s) s cred.readBack :=
  ((readFields_pack cred s).follows.bind fun _ => follows_lift _ s :)

theorem readEntries_pack (creds : List TfaCredentialEntry) (s : Bytes) :
    Follows (readEntries creds.length) (creds.flatMap TfaCredentialEntry.pack ++ s) s
      (creds.mapM TfaCredentialEntry.readBack) := by
  induction creds with
  | nil => exact (Yields.pure _ _).follows
  | cons cred creds ih =>
    rw [List.flatMap_cons, List.append_assoc, List.mapM_cons]
    refine (readEntry_pack cred _).bind fun entry => ?_
    exact ih.bind fun entries => (Yields.pure _ _).follows

theorem readCredentials_pack (creds : List TfaCredentialEntry) (s : Bytes) :
    Follows readCredentials ([UInt8.ofNat (min creds.length MAX_CREDENTIALS)]
        ++ ((creds.take MAX_CREDENTIALS).flatMap TfaCredentialEntry.pack ++ s)) s
      ((creds.take MAX_CREDENTIALS).mapM TfaCredentialEntry.readBack) := by
  have hcount := u8_ofNat_min creds.length (show MAX_CREDENTIALS < 256 by decide)
  have hlength : (creds.take MAX_CREDENTIALS).length = min creds.length MAX_CREDENTIALS := by
    rw [List.length_take, Nat.min_comm]
  refine (yields_hasRoom (by simp)).bind_follows ?_
  rw [if_pos rfl]
  refine (yields_readU8 _ _ _).bind_follows ?_
  rw [hcount, if_neg (by omega), ← hlength]
  exact readEntries_pack _ s

theorem TfaBlock.pack_length_ge (b : TfaBlock) : 35 ≤ b.pack.length := by
  simp only [TfaBlock.pack, List.length_append, List.length_singleton, List.Vector.toList_length]
  omega

/-- **What is read is what the writer has cut**, its labels decoded again. -/
theorem unpack_pack (b : TfaBlock) : unpack b.pack = b.readBack := by
  have hblob := u8_ofNat_min b.recoveryBlob.length (show 255 < 256 by decide)
  have htake : (b.recoveryBlob.take (min b.recoveryBlob.length 255)).length
      = min b.recoveryBlob.length 255 := by
    rw [List.length_take]
    omega
  have hread : Follows readBlock b.pack [] b.readBack := by
    rw [TfaBlock.pack, ← List.append_nil (List.flatMap _ _)]
    refine (yields_readU8 _ _ _).bind_follows ?_
    refine (yields_lift (TfaMethod.fromByte_toByte _) _).bind_follows ?_
    refine (yields_readU8 _ _ _).bind_follows ?_
    refine (yields_takeVec _ _ _).bind_follows ?_
    refine (yields_readU8 _ _ _).bind_follows ?_
    rw [hblob]
    refine (yields_take _ htake _).bind_follows ?_
    refine (readCredentials_pack b.credentials []).bind fun credentials => ?_
    rw [take_min]
    exact (Yields.pure _ _).follows
  rw [unpack, if_neg (Nat.not_lt.mpr b.pack_length_ge), hread.start]

/-! ## The round trip -/

/-- The block keeps to the limits of the format. -/
structure WithinLimits (b : TfaBlock) : Prop where
  credentials : b.credentials.length ≤ 4
  recoveryBlob : b.recoveryBlob.length ≤ 255
  credentialId : ∀ cred ∈ b.credentials, cred.credentialId.length ≤ 256
  label : ∀ cred ∈ b.credentials, (utf8 cred.label).length ≤ 32

theorem labelFromUtf8_utf8 (label : String) : labelFromUtf8 (utf8 label) = .ok label := by
  have hbytes : (⟨(utf8 label).toArray⟩ : ByteArray) = label.toByteArray := by
    simp [utf8]
  rw [labelFromUtf8, hbytes, String.fromUTF8?, dif_pos label.isValidUTF8]
  rfl

theorem labelBytes_of_le {cred : TfaCredentialEntry} (h : (utf8 cred.label).length ≤ 32) :
    cred.labelBytes = utf8 cred.label := by
  rw [TfaCredentialEntry.labelBytes, take_min, MAX_LABEL_SIZE, List.take_of_length_le h]

theorem readBack_of_le {cred : TfaCredentialEntry} (hid : cred.credentialId.length ≤ 256)
    (hlabel : (utf8 cred.label).length ≤ 32) : cred.readBack = .ok cred := by
  rw [TfaCredentialEntry.readBack, labelBytes_of_le hlabel, labelFromUtf8_utf8,
    MAX_CRED_ID_SIZE, List.take_of_length_le hid]
  rfl

theorem mapM_readBack {creds : List TfaCredentialEntry}
    (h : ∀ cred ∈ creds, cred.readBack = .ok cred) :
    creds.mapM TfaCredentialEntry.readBack = .ok creds := by
  induction creds with
  | nil => rfl
  | cons cred creds ih =>
    rw [List.mapM_cons, h cred List.mem_cons_self,
      ih fun c hc => h c (List.mem_cons_of_mem cred hc)]
    rfl

/-- **The round trip of the two-factor block.** -/
theorem unpack_pack_of_withinLimits (b : TfaBlock) (h : WithinLimits b) :
    unpack b.pack = .ok b := by
  have hcreds : (b.credentials.take MAX_CREDENTIALS).mapM TfaCredentialEntry.readBack
      = .ok b.credentials := by
    rw [MAX_CREDENTIALS, List.take_of_length_le h.credentials]
    exact mapM_readBack fun cred hc => readBack_of_le (h.credentialId cred hc) (h.label cred hc)
  rw [unpack_pack, TfaBlock.readBack, hcreds, List.take_of_length_le h.recoveryBlob]
  rfl

/-- A block with two keys. -/
def sampleBlock : TfaBlock where
  method := .fido2
  maxAttempts := 5
  fido2Salt := List.Vector.replicate 32 0xAA
  recoveryBlob := [1, 2, 3]
  credentials :=
    [{ credentialId := [0x10, 0x20, 0x30, 0x40], aaguid := List.Vector.replicate 16 0xBB
       label := "YubiKey 5" },
     { credentialId := [0x50, 0x60], aaguid := List.Vector.replicate 16 0xCC
       label := "Backup Key" }]

theorem unpack_pack_sampleBlock : unpack sampleBlock.pack = .ok sampleBlock := by
  refine unpack_pack_of_withinLimits sampleBlock ⟨by decide, by decide, ?_, ?_⟩
  · simp [sampleBlock]
  · simp only [sampleBlock, utf8_length, List.mem_cons, List.not_mem_nil, or_false,
      forall_eq_or_imp, forall_eq]
    decide

/-! ## Any block -/

/-- The label ends with a whole character where the writer cuts it. -/
def CutsWhole (label : String) : Prop :=
  (utf8 label).length ≤ 32 ∨ ∃ kept rest : String, label = kept ++ rest ∧ (utf8 kept).length = 32

theorem labelFromUtf8_iff {bytes : Bytes} :
    (∃ label, labelFromUtf8 bytes = .ok label) ↔ ByteArray.IsValidUTF8 ⟨bytes.toArray⟩ := by
  rw [labelFromUtf8, String.fromUTF8?]
  by_cases hvalid : ByteArray.IsValidUTF8 ⟨bytes.toArray⟩
  · rw [dif_pos hvalid]
    exact iff_of_true ⟨_, rfl⟩ hvalid
  · rw [dif_neg hvalid]
    exact iff_of_false (by rintro ⟨_, ⟨⟩⟩) hvalid

/-- The first bytes of a text are text just when they are those of whole
characters. -/
theorem isValidUTF8_take_iff {label : String} {n : Nat} (h : n ≤ (utf8 label).length) :
    ByteArray.IsValidUTF8 ⟨((utf8 label).take n).toArray⟩
      ↔ ∃ kept rest : String, label = kept ++ rest ∧ (utf8 kept).length = n := by
  have hextract : (⟨((utf8 label).take n).toArray⟩ : ByteArray)
      = label.toByteArray.extract 0 n := by
    apply ByteArray.ext
    apply Array.ext'
    simp [utf8, List.extract_eq_take_drop]
  have hle : (⟨n⟩ : String.Pos.Raw) ≤ label.rawEndPos := by
    rw [utf8_length] at h
    exact String.Pos.Raw.le_iff.mpr h
  have hposition := String.Pos.Raw.isValid_iff_isValidUTF8_extract_zero (s := label) (p := ⟨n⟩)
  rw [hextract]
  refine ((and_iff_right hle).symm.trans hposition.symm).trans ?_
  rw [String.Pos.Raw.isValid_iff_exists_append]
  refine exists_congr fun kept => exists_congr fun rest => and_congr_right fun _ => ?_
  rw [utf8_length, String.Pos.Raw.ext_iff, eq_comm]
  rfl

/-- The bytes kept are text just when they end with a whole character. -/
theorem labelFromUtf8_labelBytes_iff (cred : TfaCredentialEntry) :
    (∃ label, labelFromUtf8 cred.labelBytes = .ok label) ↔ CutsWhole cred.label := by
  by_cases hshort : (utf8 cred.label).length ≤ 32
  · rw [labelBytes_of_le hshort, labelFromUtf8_utf8]
    exact iff_of_true ⟨_, rfl⟩ (.inl hshort)
  · rw [labelFromUtf8_iff, TfaCredentialEntry.labelBytes, take_min, MAX_LABEL_SIZE,
      isValidUTF8_take_iff (by omega), CutsWhole, or_iff_right hshort]

theorem readBack_iff (cred : TfaCredentialEntry) :
    (∃ entry, cred.readBack = .ok entry) ↔ CutsWhole cred.label := by
  rw [← labelFromUtf8_labelBytes_iff, TfaCredentialEntry.readBack]
  cases labelFromUtf8 cred.labelBytes with
  | ok label => exact iff_of_true ⟨_, rfl⟩ ⟨_, rfl⟩
  | error e => exact iff_of_false (by rintro ⟨_, ⟨⟩⟩) (by rintro ⟨_, ⟨⟩⟩)

theorem mapM_readBack_iff (creds : List TfaCredentialEntry) :
    (∃ entries, creds.mapM TfaCredentialEntry.readBack = .ok entries)
      ↔ ∀ cred ∈ creds, CutsWhole cred.label := by
  induction creds with
  | nil => exact iff_of_true ⟨[], rfl⟩ (by simp)
  | cons cred creds ih =>
    rw [List.forall_mem_cons, ← ih, ← readBack_iff, List.mapM_cons]
    cases cred.readBack with
    | error e => exact iff_of_false (by rintro ⟨_, ⟨⟩⟩) (by rintro ⟨⟨_, ⟨⟩⟩, -⟩)
    | ok entry =>
      cases creds.mapM TfaCredentialEntry.readBack with
      | error e => exact iff_of_false (by rintro ⟨_, ⟨⟩⟩) (by rintro ⟨-, ⟨_, ⟨⟩⟩⟩)
      | ok entries => exact iff_of_true ⟨_, rfl⟩ ⟨⟨_, rfl⟩, _, rfl⟩

theorem TfaBlock.readBack_iff (b : TfaBlock) :
    (∃ b', b.readBack = .ok b') ↔ ∀ cred ∈ b.credentials.take 4, CutsWhole cred.label := by
  rw [← mapM_readBack_iff, TfaBlock.readBack, MAX_CREDENTIALS]
  cases (b.credentials.take 4).mapM TfaCredentialEntry.readBack with
  | ok entries => exact iff_of_true ⟨_, rfl⟩ ⟨_, rfl⟩
  | error e => exact iff_of_false (by rintro ⟨_, ⟨⟩⟩) (by rintro ⟨_, ⟨⟩⟩)

/-- **A packed block is readable just when no label is cut inside a
character**; every other field may have any length. -/
theorem unpack_pack_iff (b : TfaBlock) :
    (∃ b', unpack b.pack = .ok b') ↔ ∀ cred ∈ b.credentials.take 4, CutsWhole cred.label := by
  rw [unpack_pack, TfaBlock.readBack_iff]

/-- A label whose bytes 32 and 33 are one character. -/
def longLabel : String := "Security key of Dr Konstantin Müller"

/-- A block with a key of that label. -/
def longLabelBlock : TfaBlock where
  method := .fido2
  maxAttempts := 5
  fido2Salt := List.Vector.replicate 32 0xAA
  recoveryBlob := []
  credentials :=
    [{ credentialId := [0x10], aaguid := List.Vector.replicate 16 0xBB, label := longLabel }]

/-- **A block that cannot be read back.** -/
theorem longLabelBlock_unreadable :
    unpack longLabelBlock.pack = .error (.invalidInput "Label is not valid UTF-8")
      ∧ ¬∀ b : TfaBlock, ∃ b', unpack b.pack = .ok b' := by
  have hread : unpack longLabelBlock.pack
      = .error (.invalidInput "Label is not valid UTF-8") := by
    rw [unpack_pack]
    decide +kernel
  refine ⟨hread, fun h => ?_⟩
  obtain ⟨b', hb'⟩ := h longLabelBlock
  rw [hread] at hb'
  cases hb'

end UsbVault.Tfa
