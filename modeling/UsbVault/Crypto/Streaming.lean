import UsbVault.Lib.Wire
import UsbVault.Crypto.Primitives

/-!
# Streaming

`streaming.rs`: the chunked record format. The encryptor keeps the
nonces it has used; it is a state-and-error monad, so a failed call
keeps what it has recorded. The decryptor walks the record with a
`Cursor`. The base nonce the encryptor draws is an argument.

`cipher.rs`'s `decrypt`, which the V1 path calls, is here as well.
-/

namespace UsbVault

open Wire

def MIN_CHUNK_SIZE : Nat := 4096
def MAX_CHUNK_SIZE : Nat := 64 * 1024 * 1024
def CHUNK_SIZE : Nat := 65536

def RECORD_MAGIC : Bytes := ascii "V2RC"
def FORMAT_VERSION : UInt8 := 0x02
def RECORD_TYPE_PUT : UInt8 := 0x01

/-! ## UTF-8 -/

/-- `str::as_bytes`. -/
def utf8 (s : String) : Bytes := s.toByteArray.data.toList

theorem utf8_length (s : String) : (utf8 s).length = s.utf8ByteSize := by
  simp [utf8]

/-- `String::from_utf8`, with the error the parser maps it to. -/
def fromUtf8 (bytes : Bytes) : Result String :=
  match String.fromUTF8? ⟨bytes.toArray⟩ with
  | some s => .ok s
  | none => .error .corruptedChunk

@[simp] theorem fromUtf8_utf8 (s : String) : fromUtf8 (utf8 s) = .ok s := by
  have hbytes : (⟨(utf8 s).toArray⟩ : ByteArray) = s.toByteArray := by
    simp [utf8]
  rw [fromUtf8, hbytes, String.fromUTF8?, dif_pos s.isValidUTF8]
  rfl

/-! ## What both sides derive alike -/

/-- The 12-byte AES-GCM-SIV nonce of a 24-byte chunk nonce. -/
def gcmNonce (P : Primitives) (nonce : ByteVec 24) : ByteVec 12 :=
  P.hkdfSha256 none nonce.toList (ascii "aes_gcm_siv_nonce") 12

/-- The AEAD of a chunk: XChaCha20-Poly1305 with the chunk nonce itself, or
AES-256-GCM-SIV with the 12-byte nonce derived from it. -/
def chunkAead (P : Primitives) : CipherId → Aead 24
  | .xchacha20Poly1305 => P.xchacha20Poly1305
  | .aes256GcmSiv =>
    { encrypt := fun key nonce => P.aes256GcmSiv.encrypt key (gcmNonce P nonce)
      decrypt := fun key nonce => P.aes256GcmSiv.decrypt key (gcmNonce P nonce) }

/-- `compute_final_hmac`, the same on both sides. -/
def computeFinalHmac (P : Primitives) (masterKey : ByteVec 32) (data : Bytes) :
    ByteVec 32 :=
  P.hmacSha256 (P.hkdfSha256 none masterKey.toList (ascii "stream_hmac_key") 32)
    data

/-- `validate_chunk_size`. -/
def validateChunkSize (size : Nat) : Result Unit :=
  if size < MIN_CHUNK_SIZE then
    .error (.invalidInput
      s!"chunk size too small: {size} bytes (minimum: {MIN_CHUNK_SIZE} bytes)")
  else if size > MAX_CHUNK_SIZE then
    .error (.invalidInput
      s!"chunk size too large: {size} bytes (maximum: {MAX_CHUNK_SIZE} bytes)")
  else .ok ()

/-! ## The encryptor -/

/-- `StreamingEncryptor`; the nonce set as the list of its elements. -/
structure StreamingEncryptor where
  cipherId : CipherId
  baseNonce : ByteVec 24
  masterKey : ByteVec 32
  usedNonces : List (ByteVec 24)

/-- Fallible methods on `&mut self`. -/
abbrev EncryptorM (α : Type) := EStateM CryptoError StreamingEncryptor α

namespace StreamingEncryptor

/-- `StreamingEncryptor::new`, with the base nonce it draws. -/
def new (baseNonce : ByteVec 24) (cipherId : CipherId) (key : ByteVec 32) :
    StreamingEncryptor :=
  { cipherId, baseNonce, masterKey := key, usedNonces := [] }

/-- `derive_chunk_nonce`. -/
def deriveChunkNonce (P : Primitives) (self : StreamingEncryptor)
    (index : UInt64) : ByteVec 24 :=
  P.hkdfSha256 (some self.baseNonce.toList) self.masterKey.toList
    (ascii "stream_chunk_nonce:" ++ u64le index) 24

/-- `derive_chunk_key`. -/
def deriveChunkKey (P : Primitives) (self : StreamingEncryptor)
    (nonce : ByteVec 24) : ByteVec 32 :=
  P.hkdfSha256 (some self.baseNonce.toList) self.masterKey.toList
    (ascii "stream_chunk_key:" ++ nonce.toList) 32

/-- `check_nonce_reuse`. -/
def checkNonceReuse (nonce : ByteVec 24) : EncryptorM Unit := do
  let self ← get
  if nonce ∈ self.usedNonces then throw .nonceReuse
  else set { self with usedNonces := nonce :: self.usedNonces }

/-- `encrypt_with_key`: the nonce, then the ciphertext with its tag. -/
def encryptWithKey (P : Primitives) (self : StreamingEncryptor)
    (plaintext : Bytes) (nonce : ByteVec 24) : Result Bytes :=
  let key := self.deriveChunkKey P nonce
  match (chunkAead P self.cipherId).encrypt key nonce [] plaintext with
  | none => .error .decryptionFailed
  | some ciphertext => .ok (nonce.toList ++ ciphertext)

/-- One chunk of the record: derive its nonce, refuse a used one, encrypt. -/
def encryptChunk (P : Primitives) (index : UInt64) (plaintext : Bytes) :
    EncryptorM Bytes := do
  let self ← get
  let nonce := self.deriveChunkNonce P index
  checkNonceReuse nonce
  match self.encryptWithKey P plaintext nonce with
  | .ok encrypted => return encrypted
  | .error e => throw e

/-- A chunk behind its length header. -/
def frame (encrypted : Bytes) : Bytes :=
  u32le (UInt32.ofNat encrypted.length) ++ encrypted

/-- `slice::chunks`; the fuel is the length of the data. -/
def chunksOf (size : Nat) : Nat → Bytes → List Bytes
  | 0, _ => []
  | fuel + 1, data =>
    if data = [] then [] else data.take size :: chunksOf size fuel (data.drop size)

/-- The loop over the file data, from the chunk `index` on. -/
def encryptChunks (P : Primitives) : Nat → List Bytes → EncryptorM Bytes
  | _, [] => return []
  | index, chunk :: chunks => do
      let encrypted ← encryptChunk P (UInt64.ofNat index) chunk
      let rest ← encryptChunks P (index + 1) chunks
      return frame encrypted ++ rest

/-- Type, filename length, filename, data length. -/
def metadataOf (filename : String) (data : Bytes) : Bytes :=
  [RECORD_TYPE_PUT] ++ u32le (UInt32.ofNat (utf8 filename).length)
    ++ utf8 filename ++ u64le (UInt64.ofNat data.length)

/-- `encrypt_record`. -/
def encryptRecord (P : Primitives) (filename : String) (data : Bytes) :
    EncryptorM Bytes := do
  match validateChunkSize CHUNK_SIZE with
  | .error e => throw e
  | .ok () =>
    let self ← get
    let header := RECORD_MAGIC ++ [FORMAT_VERSION] ++ self.baseNonce.toList
    let encryptedChunk0 ← encryptChunk P 0 (metadataOf filename data)
    let rest ← encryptChunks P 1 (chunksOf CHUNK_SIZE data.length data)
    let record := header ++ frame encryptedChunk0 ++ rest
    return record ++ (computeFinalHmac P self.masterKey record).toList

end StreamingEncryptor

/-! ## The decryptor -/

/-- `data.split_at(n)`: the nonce and the ciphertext behind it. -/
def splitNonce (n : Nat) (data : Bytes) (h : ¬data.length < n) :
    ByteVec n × Bytes :=
  (⟨data.take n, by rw [List.length_take]; omega⟩, data.drop n)

theorem splitNonce_append {n : Nat} (nonce : ByteVec n) (ciphertext : Bytes)
    (h : ¬(nonce.toList ++ ciphertext).length < n) :
    splitNonce n (nonce.toList ++ ciphertext) h = (nonce, ciphertext) := by
  refine Prod.ext (List.Vector.eq _ _ ?_) ?_
  · exact List.take_left' nonce.toList_length
  · exact List.drop_left' nonce.toList_length

namespace StreamingDecryptor

/-- `derive_chunk_key`. -/
def deriveChunkKey (P : Primitives) (masterKey : ByteVec 32)
    (baseNonce : ByteVec 24) (chunkIndex : UInt64) : ByteVec 32 :=
  let nonce := P.hkdfSha256 (some baseNonce.toList) masterKey.toList
    (ascii "stream_chunk_nonce:" ++ u64le chunkIndex) 24
  P.hkdfSha256 (some baseNonce.toList) masterKey.toList
    (ascii "stream_chunk_key:" ++ nonce.toList) 32

/-- `decrypt_with_key`. -/
def decryptWithKey (P : Primitives) (cipherId : CipherId) (key : ByteVec 32)
    (data : Bytes) : Result Bytes :=
  if h : data.length < 24 then .error .invalidNonce
  else
    let (nonce, ciphertext) := splitNonce 24 data h
    match (chunkAead P cipherId).decrypt key nonce [] ciphertext with
    | none => .error .decryptionFailed
    | some plaintext => .ok plaintext

/-- The field chain of `parse_metadata`. -/
def readMetadata : Reader CryptoError (String × Nat) := do
  let recordType ← readU8 .corruptedChunk
  if recordType ≠ RECORD_TYPE_PUT then fail .invalidHeader
  else do
    let filenameLen ← readU32le .corruptedChunk
    let filenameBytes ← take .corruptedChunk filenameLen.toNat
    let filename ← lift (fromUtf8 filenameBytes)
    let dataLen ← readU64le .corruptedChunk
    return (filename, dataLen.toNat)

/-- `parse_metadata`. -/
def parseMetadata (metadata : Bytes) : Result (String × Nat) :=
  (readMetadata (Cursor.start metadata)).map Prod.fst

/-- The chunk loop of `decrypt_v2`, for at most `fuel` chunks. -/
def readChunks (P : Primitives) (cipherId : CipherId) (key : ByteVec 32)
    (baseNonce : ByteVec 24) : Nat → UInt64 → Reader CryptoError (List Bytes)
  | 0, _ => return []
  | fuel + 1, chunkIndex => do
      let more ← hasRoom 1
      if more then do
        let chunkLen ← readU32le .corruptedChunk
        let encryptedChunk ← take .corruptedChunk chunkLen.toNat
        let decrypted ← lift (decryptWithKey P cipherId
          (deriveChunkKey P key baseNonce chunkIndex) encryptedChunk)
        let rest ← readChunks P cipherId key baseNonce fuel (chunkIndex + 1)
        return decrypted :: rest
      else return []

/-- magic + version + base nonce. -/
def HEADER_SIZE : Nat := 4 + 1 + 24

/-- The first chunk is metadata, the others are file data. -/
def assemble (allChunks : List Bytes) : Result (String × Bytes) :=
  match allChunks with
  | [] => .error .corruptedChunk
  | metadata :: fileChunks => do
      let (filename, dataLen) ← parseMetadata metadata
      return (filename, fileChunks.flatten.take dataLen)

/-- `decrypt_v2`. The chunk loop takes at least four bytes a round. -/
def decryptV2 (P : Primitives) (cipherId : CipherId) (key : ByteVec 32)
    (record : Bytes) : Result (String × Bytes) :=
  if h : record.length < HEADER_SIZE + 32 then .error .invalidHeader
  else
    let baseNonce : ByteVec 24 := ⟨(record.drop 5).take 24, by
      rw [List.length_take, List.length_drop]; simp only [HEADER_SIZE] at h; omega⟩
    let hmacStart := record.length - 32
    let recordData := record.take hmacStart
    let receivedHmac := record.drop hmacStart
    if (computeFinalHmac P key recordData).toList ≠ receivedHmac then
      .error .decryptionFailed
    else do
      let (allChunks, _) ← readChunks P cipherId key baseNonce recordData.length 0
        ⟨recordData, HEADER_SIZE, by
          rw [List.length_take]; simp only [HEADER_SIZE] at h ⊢; omega⟩
      assemble allChunks

/-- `cipher::decrypt` for either cipher. -/
def cipherDecrypt (P : Primitives) (cipherId : CipherId) (key : ByteVec 32)
    (data : Bytes) : Result Bytes :=
  let plaintext := match cipherId with
    | .xchacha20Poly1305 =>
      if h : data.length < 24 + 16 then Except.error CryptoError.invalidNonce
      else
        let (nonce, ciphertext) := splitNonce 24 data (by omega)
        .ok (P.xchacha20Poly1305.decrypt key nonce [] ciphertext)
    | .aes256GcmSiv =>
      if h : data.length < 12 + 16 then .error .invalidNonce
      else
        let (nonce, ciphertext) := splitNonce 12 data (by omega)
        .ok (P.aes256GcmSiv.decrypt key nonce [] ciphertext)
  match plaintext with
  | .error e => .error e
  | .ok none => .error .decryptionFailed
  | .ok (some plaintext) => .ok plaintext

/-- The chunk loop of `decrypt_v1`, which guesses where each chunk starts. -/
def decryptV1Loop (P : Primitives) (cipherId : CipherId) (key : ByteVec 32)
    (record : Bytes) (dataLen : Nat) : Nat → Nat → Bytes → Bytes
  | 0, _, plaintext => plaintext
  | fuel + 1, offset, plaintext =>
    if offset < record.length ∧ plaintext.length < dataLen then
      if offset + cipherId.nonceSize > record.length then plaintext
      else
        match cipherDecrypt P cipherId key (record.drop offset) with
        | .ok chunk =>
          decryptV1Loop P cipherId key record dataLen fuel
            (offset + (cipherId.nonceSize + chunk.length + 16))
            (plaintext ++ chunk)
        | .error _ => plaintext
    else plaintext

/-- `decrypt_v1`: no version byte and no HMAC. -/
def decryptV1 (P : Primitives) (cipherId : CipherId) (key : ByteVec 32)
    (record : Bytes) : Result (String × Bytes) :=
  if record.length < 4 + 24 then .error .invalidHeader
  else do
    let metadata ← cipherDecrypt P cipherId key (record.drop 28)
    let (filename, dataLen) ← parseMetadata metadata
    let plaintext := decryptV1Loop P cipherId key record dataLen record.length
      (28 + (cipherId.nonceSize + 256)) []
    return (filename, plaintext.take dataLen)

/-- `decrypt_record`. -/
def decryptRecord (P : Primitives) (cipherId : CipherId) (key : ByteVec 32)
    (record : Bytes) : Result (String × Bytes) := do
  validateChunkSize CHUNK_SIZE
  if record.length < 4 then .error .invalidHeader
  else if record.take 4 ≠ RECORD_MAGIC then .error .invalidMagic
  else if record.length < 5 then .error .invalidVersion
  else if record.getD 4 0 = 0x02 then decryptV2 P cipherId key record
  else if record.getD 4 0 = 0x01 then decryptV1 P cipherId key record
  else .error .invalidVersion

end StreamingDecryptor

end UsbVault
