import UsbVault.Crypto.Primitives

/-!
# Kdf

`kdf.rs`: Argon2id parameter validation, the key-encryption key of both
vault generations, and the wrapped master encryption key.
-/

namespace UsbVault

open Wire

/-! ## Argon2id parameters -/

namespace Argon2Bounds

def MIN_MEMORY_KIB : UInt32 := 8192
def MAX_MEMORY_KIB : UInt32 := 1048576
def MIN_TIME : UInt32 := 1
def MAX_TIME : UInt32 := 16
def MIN_PARALLELISM : UInt8 := 1
def MAX_PARALLELISM : UInt8 := 16

end Argon2Bounds

open Argon2Bounds in
/-- `validate_argon2_params`. -/
def validateArgon2Params (memoryKib time : UInt32) (parallelism : UInt8) :
    Result Unit :=
  if ¬(MIN_MEMORY_KIB ≤ memoryKib ∧ memoryKib ≤ MAX_MEMORY_KIB)
      ∨ ¬(MIN_TIME ≤ time ∧ time ≤ MAX_TIME)
      ∨ ¬(MIN_PARALLELISM ≤ parallelism ∧ parallelism ≤ MAX_PARALLELISM) then
    .error .invalidArgument
  else .ok ()

/-! ## Keys -/

/-- The first `k` bytes of a fixed array. -/
def vecTake {n : Nat} (v : ByteVec n) (k : Nat) (h : k ≤ n) : ByteVec k :=
  ⟨v.toList.take k, by rw [List.length_take, v.toList_length]; omega⟩

/-- The bytes of a fixed array from `n - k` on. -/
def vecDrop {n : Nat} (v : ByteVec n) (k : Nat) (h : k ≤ n) : ByteVec k :=
  ⟨v.toList.drop (n - k), by rw [List.length_drop, v.toList_length]; omega⟩

/-- `KeyEncryptionKey`. -/
abbrev KeyEncryptionKey := ByteVec 32

/-- `MasterEncryptionKey`: 64 bytes, an encryption and an HMAC half. -/
structure MasterEncryptionKey where
  bytes : ByteVec 64
  deriving DecidableEq

def MasterEncryptionKey.encryptionKey (mek : MasterEncryptionKey) : ByteVec 32 :=
  vecTake mek.bytes 32 (by decide)

def MasterEncryptionKey.hmacKey (mek : MasterEncryptionKey) : ByteVec 32 :=
  vecDrop mek.bytes 32 (by decide)

/-- nonce(24) || ciphertext(64+16). -/
def WRAPPED_MEK_SIZE : Nat := 24 + 64 + 16

/-! ## Key derivation -/

def KDF_TRANSCRIPT_DOMAIN_V6 : Bytes := ascii "USBVault-KDF-transcript-v6:"

/-- `build_kdf_transcript`. -/
def buildKdfTranscript (version kdfHashId cipherId : UInt8) (salt : Bytes)
    (argon2Memory argon2Time : UInt32) (argon2Parallelism : UInt8) : Bytes :=
  [version, kdfHashId, cipherId] ++ u32le (UInt32.ofNat salt.length) ++ salt
    ++ u32le argon2Memory ++ u32le argon2Time ++ [argon2Parallelism]

/-- `derive_kek_with_params`: the parameters are checked before any
Argon2id work is done. -/
def deriveKekWithParams (P : Primitives) (password salt : Bytes)
    (memoryKib time : UInt32) (parallelism : UInt8) : Result KeyEncryptionKey :=
  if salt.length ≠ 32 then .error .invalidArgument
  else do
    validateArgon2Params memoryKib time parallelism
    match P.argon2id password salt memoryKib time parallelism.toUInt32 32 with
    | none => .error .keyDerivationFailed
    | some hash =>
      if h : hash.length < 32 then .error .keyDerivationFailed
      else .ok ⟨hash.take 32, take32_length h⟩

/-- `derive_kek_v6_with_params`: the Argon2id output, expanded over the
KDF transcript. -/
def deriveKekV6WithParams (P : Primitives) (password salt transcript : Bytes)
    (memoryKib time : UInt32) (parallelism : UInt8) : Result KeyEncryptionKey :=
  if salt.length ≠ 32 then .error .invalidArgument
  else do
    let base ← deriveKekWithParams P password salt memoryKib time parallelism
    return P.hkdfSha256 none base.toList (KDF_TRANSCRIPT_DOMAIN_V6 ++ transcript) 32

/-- `derive_subkey` -/
def deriveSubkey (P : Primitives) (master info : Bytes) : Result (ByteVec 32) :=
  if master = [] then .error .invalidArgument
  else if info = [] ∨ info.length > 256 then .error .invalidArgument
  else .ok (P.hkdfSha256 none master info 32)

/-! ## The wrapped master encryption key -/

/-- `wrap_mek_ad`, with the nonce it draws. -/
def wrapMekAd (P : Primitives) (nonce : ByteVec 24) (kek : KeyEncryptionKey)
    (mek : MasterEncryptionKey) (ad : Bytes) : Result Bytes :=
  match P.xchacha20Poly1305.encrypt kek nonce ad mek.bytes.toList with
  | none => .error .keyWrappingFailed
  | some ciphertext => .ok (nonce.toList ++ ciphertext)

/-- `unwrap_mek_ad`. -/
def unwrapMekAd (P : Primitives) (kek : KeyEncryptionKey) (wrapped ad : Bytes) :
    Result MasterEncryptionKey :=
  if h : wrapped.length < WRAPPED_MEK_SIZE then .error .keyWrappingFailed
  else
    let nonce : ByteVec 24 := ⟨wrapped.take 24, by
      rw [List.length_take]; simp only [WRAPPED_MEK_SIZE] at h; omega⟩
    match P.xchacha20Poly1305.decrypt kek nonce ad (wrapped.drop 24) with
    | none => .error .keyWrappingFailed
    | some plaintext =>
      if hp : plaintext.length = 64 then .ok ⟨⟨plaintext, hp⟩⟩
      else .error .keyWrappingFailed

/-- `unwrap_mek`: no associated data. -/
def unwrapMek (P : Primitives) (kek : KeyEncryptionKey) (wrapped : Bytes) :
    Result MasterEncryptionKey :=
  unwrapMekAd P kek wrapped []

theorem wrapMekAd_length {P : Primitives} (hP : P.xchacha20Poly1305.Correct)
    {nonce : ByteVec 24} {kek : KeyEncryptionKey} {mek : MasterEncryptionKey}
    {ad wrapped : Bytes} (h : wrapMekAd P nonce kek mek ad = .ok wrapped) :
    wrapped.length = WRAPPED_MEK_SIZE := by
  rw [wrapMekAd] at h
  split at h
  · cases h
  · rename_i ciphertext henc
    cases h
    have hct := hP.encrypt_length henc
    rw [List.length_append, nonce.toList_length, hct, mek.bytes.toList_length]
    rfl

/-- **The wrapped key unwraps** under the same key and associated data. -/
theorem unwrapMekAd_wrapMekAd {P : Primitives}
    (hP : P.xchacha20Poly1305.Correct) {nonce : ByteVec 24}
    {kek : KeyEncryptionKey} {mek : MasterEncryptionKey} {ad wrapped : Bytes}
    (h : wrapMekAd P nonce kek mek ad = .ok wrapped) :
    unwrapMekAd P kek wrapped ad = .ok mek := by
  have hlen := wrapMekAd_length hP h
  rw [wrapMekAd] at h
  split at h
  · cases h
  · rename_i ciphertext henc
    cases h
    have hn : nonce.toList.length = 24 := nonce.toList_length
    have hnonce : (⟨(nonce.toList ++ ciphertext).take 24, by
        rw [List.length_take, hlen]; decide⟩ : ByteVec 24) = nonce := by
      apply List.Vector.toList_injective
      exact List.take_left' hn
    have hdec := hP.decrypt_encrypt henc
    simp only [unwrapMekAd, hlen, lt_irrefl, dif_neg, not_false_eq_true,
      hnonce, List.drop_left' hn, hdec, mek.bytes.toList_length]
    rfl

end UsbVault
