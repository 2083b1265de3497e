import UsbVault.Lib.Bytes

/-!
# Primitives

The errors of the crypto core (`error.rs`), its cipher identifiers
(`cipher.rs`) and the third-party primitives it is built on.

The primitives (Argon2id, HKDF-SHA256, HMAC-SHA256, the two AEADs) are
not part of the repository. They enter the model as one record of
functions, `Primitives`; what a result relies on about an AEAD is the
named contract `Aead.Correct`. Randomness is never drawn inside the
model: every function that reads the system generator takes the bytes
it drew as an argument, so a statement for all arguments is a statement
for every outcome of the generator.
-/

namespace UsbVault

open Wire

/-- `CryptoError` (`error.rs`). -/
inductive CryptoError where
  | invalidKey
  | invalidNonce
  | decryptionFailed
  | invalidHeader
  | invalidMagic
  | invalidVersion
  | corruptedChunk
  | corruptedIndex
  | keyDerivationFailed
  | sharingError
  | serializationError
  | ioError
  | memoryError
  | invalidCipher
  | srpError (message : String)
  | bufferTooSmall
  | invalidArgument
  | nonceReuse
  | keyWrappingFailed
  | rollbackDetected
  | invalidInput (message : String)
  | passwordWrong
  | failCounterTampered
  | failCounterExceeded
  | selfDestructed
  | diskFull
  | fileNotFound
  | tfaFailed
  | noAuthenticator
  | lockedOut
  deriving DecidableEq, Repr

/-- `Result<T>`. -/
abbrev Result (α : Type) := Except CryptoError α

/-- `CipherId`. -/
inductive CipherId where
  | xchacha20Poly1305
  | aes256GcmSiv
  deriving DecidableEq, Repr

/-- `CipherId::from_byte`. -/
def CipherId.fromByte (b : UInt8) : Result CipherId :=
  if b = 2 then .ok .xchacha20Poly1305
  else if b = 3 then .ok .aes256GcmSiv
  else .error .invalidCipher

/-- `CipherId::as_byte`. -/
def CipherId.asByte : CipherId → UInt8
  | .xchacha20Poly1305 => 2
  | .aes256GcmSiv => 3

/-- `CipherId::nonce_size`. -/
def CipherId.nonceSize : CipherId → Nat
  | .xchacha20Poly1305 => 24
  | .aes256GcmSiv => 12

/-! ## The third-party primitives -/

/-- An AEAD with 32-byte keys and `n`-byte nonces: key, nonce,
associated data and message to ciphertext with tag, and back. -/
structure Aead (n : Nat) where
  encrypt : ByteVec 32 → ByteVec n → Bytes → Bytes → Option Bytes
  decrypt : ByteVec 32 → ByteVec n → Bytes → Bytes → Option Bytes

/-- The documented contract of an AEAD: what was encrypted decrypts
under the same key, nonce and associated data, and a ciphertext is the
message length plus the 16-byte tag. -/
structure Aead.Correct {n : Nat} (A : Aead n) : Prop where
  decrypt_encrypt : ∀ {k nonce ad m c},
    A.encrypt k nonce ad m = some c → A.decrypt k nonce ad c = some m
  encrypt_length : ∀ {k nonce ad m c},
    A.encrypt k nonce ad m = some c → c.length = m.length + 16
  decrypt_length : ∀ {k nonce ad m c},
    A.decrypt k nonce ad c = some m → c.length = m.length + 16

/-- The primitives the crypto core calls.

`argon2id` is `Argon2::hash_password` with the `Params::new` before it:
password, salt, memory, time, parallelism and output length; `none` is
any of the errors the callers map to `KeyDerivationFailed`.
`hkdfSha256` is extract with the optional salt, then expand; expansion
only fails above 8160 bytes and every caller asks for at most 32. -/
structure Primitives where
  hmacSha256 : ByteVec 32 → Bytes → ByteVec 32
  argon2id : Bytes → Bytes → UInt32 → UInt32 → UInt32 → Nat → Option Bytes
  hkdfSha256 : Option Bytes → Bytes → Bytes → (n : Nat) → ByteVec n
  xchacha20Poly1305 : Aead 24
  aes256GcmSiv : Aead 12

/-! ## Saturating arithmetic -/

/-- `u32::saturating_add`. -/
def saturatingAdd32 (a b : UInt32) : UInt32 :=
  UInt32.ofNat (min (a.toNat + b.toNat) (2 ^ 32 - 1))

/-- `u64::saturating_add`. -/
def saturatingAdd64 (a b : UInt64) : UInt64 :=
  UInt64.ofNat (min (a.toNat + b.toNat) (2 ^ 64 - 1))

theorem saturatingAdd32_toNat (a b : UInt32) :
    (saturatingAdd32 a b).toNat = min (a.toNat + b.toNat) (2 ^ 32 - 1) := by
  rw [saturatingAdd32, UInt32.toNat_ofNat', Nat.mod_eq_of_lt (by omega)]

theorem saturatingAdd64_toNat (a b : UInt64) :
    (saturatingAdd64 a b).toNat = min (a.toNat + b.toNat) (2 ^ 64 - 1) := by
  rw [saturatingAdd64, UInt64.toNat_ofNat', Nat.mod_eq_of_lt (by omega)]

/-! ## A concrete instance

Transparent primitives that satisfy the contracts: the AEAD appends a
zero tag and checks it, HKDF returns the end of its info (so distinct
infos give distinct outputs), the other hashes are constant. They stand
in for the real ones wherever a statement about every `Primitives` is
instantiated. -/

/-- Encryption is the message with a zero tag; decryption checks and
strips the tag. -/
def transparentAead (n : Nat) : Aead n where
  encrypt _ _ _ m := some (m ++ zeros 16)
  decrypt _ _ _ c :=
    if 16 ≤ c.length ∧ c.drop (c.length - 16) = zeros 16 then
      some (c.take (c.length - 16))
    else none

theorem transparentAead_correct (n : Nat) : (transparentAead n).Correct where
  decrypt_encrypt := by
    intro k nonce ad m c h
    cases h
    have hlen : (m ++ zeros 16).length - 16 = m.length := by simp
    simp only [transparentAead]
    rw [hlen, List.drop_left, List.take_left, if_pos ⟨by simp, rfl⟩]
  encrypt_length := by
    intro k nonce ad m c h
    cases h
    simp
  decrypt_length := by
    intro k nonce ad m c h
    simp only [transparentAead] at h
    split at h
    · rename_i hc
      cases h
      rw [List.length_take]
      omega
    · cases h

/-- Encryption is the message with the first half of the key as its tag, so
that another key fails. -/
def keyedAead (n : Nat) : Aead n where
  encrypt k _ _ m := some (m ++ k.toList.take 16)
  decrypt k _ _ c :=
    if 16 ≤ c.length ∧ c.drop (c.length - 16) = k.toList.take 16 then
      some (c.take (c.length - 16))
    else none

theorem keyedAead_correct (n : Nat) : (keyedAead n).Correct where
  decrypt_encrypt := by
    intro k nonce ad m c h
    cases h
    have hlen : (m ++ k.toList.take 16).length - 16 = m.length := by simp
    simp only [keyedAead]
    rw [hlen, List.drop_left, List.take_left, if_pos ⟨by simp, rfl⟩]
  encrypt_length := by
    intro k nonce ad m c h
    cases h
    simp
  decrypt_length := by
    intro k nonce ad m c h
    simp only [keyedAead] at h
    split at h
    · rename_i hc
      cases h
      rw [List.length_take]
      omega
    · cases h

/-- The last `n` bytes, padded with zeros in front. -/
def lastBytes (bs : Bytes) (n : Nat) : ByteVec n :=
  ⟨(zeros n ++ bs).drop bs.length, by simp⟩

/-- The transparent primitives. -/
def transparentPrimitives : Primitives where
  hmacSha256 _ _ := zeroVec 32
  argon2id _ _ _ _ _ n := some (zeros n)
  hkdfSha256 _ _ info n := lastBytes info n
  xchacha20Poly1305 := transparentAead 24
  aes256GcmSiv := transparentAead 12

end UsbVault
