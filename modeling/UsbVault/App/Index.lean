import UsbVault.App.WebHeader
import UsbVault.Companion.Contract

/-!
# The vault index and the file records

The index maps file ids to byte ranges of the container. It is written
as JSON under the encryption key; a file is written as a record, a
twelve byte tag and the data, under the same key.
-/

namespace UsbVault.App

open Wire Js Companion

/-- One file of the index. -/
structure VaultIndexEntry where
  name : String
  size : Nat
  offset : Nat
  length : Nat
  cipherId : Nat
  saltHex : String
  createdAt : String
  modifiedAt : String
  version : Nat
  deriving DecidableEq, Repr

/-- `index.files` -/
abbrev Files := Obj VaultIndexEntry

/-- The range of the container a file's record lies in. -/
def VaultIndexEntry.range (e : VaultIndexEntry) : Entry := ⟨e.offset, e.length⟩

/-- Two objects with the same properties. -/
def SameMap (a b : Files) : Prop := ∀ fileId, a.get fileId = b.get fileId

theorem SameMap.refl (a : Files) : SameMap a a := fun _ => rfl

theorem SameMap.symm {a b : Files} (h : SameMap a b) : SameMap b a := fun k => (h k).symm

theorem SameMap.trans {a b c : Files} (hab : SameMap a b) (hbc : SameMap b c) :
    SameMap a c := fun k => (hab k).trans (hbc k)

/-- The UTF-8 bytes of `JSON.stringify({ files })`, and `JSON.parse` of
such bytes. An object has each key once; the text of an index without
files is the shortest there is. -/
structure IndexCodec where
  stringify : Files → Bytes
  parse : Bytes → Option Files
  roundTrip : ∀ files, files.keys.Nodup →
    ∃ files', parse (stringify files) = some files' ∧ SameMap files' files
  nodup : ∀ bytes files, parse bytes = some files → files.keys.Nodup
  shortest : ∀ bytes files, parse bytes = some files →
    (stringify []).length ≤ bytes.length

/-- `encryptVaultContainerIndex` -/
def encryptVaultContainerIndex (C : WebCrypto) (K : IndexCodec) (key : ByteVec 32)
    (iv : ByteVec 12) (files : Files) : Option Bytes :=
  aesGcmEncryptRaw C key iv (K.stringify files)

/-- `decryptVaultContainerIndex` -/
def decryptVaultContainerIndex (C : WebCrypto) (K : IndexCodec) (key : ByteVec 32)
    (encryptedIndex : Bytes) : Option Files :=
  (aesGcmDecryptRaw C key encryptedIndex).bind K.parse

def RECORD_MAGIC : Bytes := ascii "V2RC"

/-- `encryptFileRecord` -/
def encryptFileRecord (C : WebCrypto) (key : ByteVec 32) (iv : ByteVec 12) (data : Bytes)
    (cipherId : Nat) : Option Bytes :=
  aesGcmEncryptRaw C key iv
    (RECORD_MAGIC ++ leBytes 4 cipherId ++ leBytes 4 data.length ++ data)

/-- What `decryptFileRecord` returns. -/
structure DecryptedRecord where
  data : Bytes
  size : Nat
  cipherId : Nat
  deriving DecidableEq, Repr

/-- `decryptFileRecord` -/
def decryptFileRecord (C : WebCrypto) (key : ByteVec 32) (bytes : Bytes) :
    Option DecryptedRecord :=
  (aesGcmDecryptRaw C key bytes).bind fun plaintext =>
    if plaintext.take 4 = RECORD_MAGIC then
      some ⟨plaintext.drop 12, readLE 4 plaintext 4, readLE 4 plaintext 8⟩
    else none

/-! ## What was encrypted decrypts -/

variable {C : WebCrypto} {K : IndexCodec} {key : ByteVec 32} {iv : ByteVec 12}

theorem aesGcmDecryptRaw_encrypt (hC : C.aesGcm.Correct) {plaintext bytes : Bytes}
    (h : aesGcmEncryptRaw C key iv plaintext = some bytes) :
    aesGcmDecryptRaw C key bytes = some plaintext := by
  rw [aesGcmEncryptRaw, Option.map_eq_some_iff] at h
  obtain ⟨ct, hct, rfl⟩ := h
  have hiv : iv.toList.length = 12 := iv.toList_length
  have hlong : 12 ≤ (iv.toList ++ ct).length := by
    rw [List.length_append]
    omega
  have htake : (iv.toList ++ ct).take 12 = iv.toList := List.take_left' hiv
  have hdrop : (iv.toList ++ ct).drop 12 = ct := List.drop_left' hiv
  rw [aesGcmDecryptRaw, dif_pos hlong]
  simp only [htake, hdrop]
  exact hC.decrypt_encrypt hct

theorem aesGcmEncryptRaw_length (hC : C.aesGcm.Correct) {plaintext bytes : Bytes}
    (h : aesGcmEncryptRaw C key iv plaintext = some bytes) :
    bytes.length = plaintext.length + 28 := by
  rw [aesGcmEncryptRaw, Option.map_eq_some_iff] at h
  obtain ⟨ct, hct, rfl⟩ := h
  have hlen := hC.encrypt_length hct
  have hiv : iv.toList.length = 12 := iv.toList_length
  rw [List.length_append]
  omega

theorem aesGcmDecryptRaw_length (hC : C.aesGcm.Correct) {plaintext bytes : Bytes}
    (h : aesGcmDecryptRaw C key bytes = some plaintext) :
    bytes.length = plaintext.length + 28 := by
  rw [aesGcmDecryptRaw] at h
  split at h
  · have hlen := hC.decrypt_length h
    rw [List.length_drop] at hlen
    omega
  · cases h

theorem decryptVaultContainerIndex_encrypt (hC : C.aesGcm.Correct) {files : Files}
    (hnodup : files.keys.Nodup) {bytes : Bytes}
    (h : encryptVaultContainerIndex C K key iv files = some bytes) :
    ∃ files', decryptVaultContainerIndex C K key bytes = some files'
      ∧ SameMap files' files := by
  rw [decryptVaultContainerIndex, aesGcmDecryptRaw_encrypt hC h]
  exact K.roundTrip files hnodup

theorem decryptFileRecord_encrypt (hC : C.aesGcm.Correct) {data bytes : Bytes}
    {cipherId : Nat} (h : encryptFileRecord C key iv data cipherId = some bytes) :
    ∃ r, decryptFileRecord C key bytes = some r ∧ r.data = data := by
  rw [decryptFileRecord, aesGcmDecryptRaw_encrypt hC h, Option.bind_some]
  have hmagic : RECORD_MAGIC.length = 4 := rfl
  have htag : (RECORD_MAGIC ++ leBytes 4 cipherId ++ leBytes 4 data.length).length = 12 := by
    simp only [List.length_append, leBytes_length, hmagic]
  have htake : (RECORD_MAGIC ++ leBytes 4 cipherId ++ leBytes 4 data.length ++ data).take 4
      = RECORD_MAGIC := by
    rw [List.append_assoc, List.append_assoc]
    exact List.take_left' hmagic
  rw [if_pos htake]
  exact ⟨_, rfl, List.drop_left' htag⟩

end UsbVault.App
