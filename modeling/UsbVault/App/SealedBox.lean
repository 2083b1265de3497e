import UsbVault.Crypto.Primitives

/-!
# Sealed boxes

`sealToPublicKey` and `openSealed` of the app's crypto bridge, with the web
implementation behind it, which writes what the Rust core writes. The random
numbers are arguments.

A box that is sealed to a public key opens with the secret key it belongs to
(`openSealed_sealToPublicKey`).
-/

namespace UsbVault.App

open Wire

/-- X25519: the public key of a secret key, and the shared secret of a secret
and a public key. -/
structure X25519 where
  getPublicKey : ByteVec 32 → ByteVec 32
  getSharedSecret : ByteVec 32 → ByteVec 32 → ByteVec 32

/-- Both parties compute the same shared secret. -/
structure X25519.Correct (X : X25519) : Prop where
  comm : ∀ a b, X.getSharedSecret a (X.getPublicKey b) = X.getSharedSecret b (X.getPublicKey a)

namespace SealedBox

variable (P : Primitives) (X : X25519)

def SHARE_SEAL_INFO : Bytes := ascii "seal"

/-- The key of the cipher, unless the shared secret is zero. -/
def sealKey (secret publicKey : ByteVec 32) : Option (ByteVec 32) :=
  let shared := X.getSharedSecret secret publicKey
  if shared.toList.all fun b => b = 0 then none
  else some (P.hkdfSha256 none shared.toList SHARE_SEAL_INFO 32)

/-- `nativeModule.sealToPublicKey` -/
def nativeSeal (ephemeralSecret : ByteVec 32) (nonce : ByteVec 24) (recipientPublic : ByteVec 32)
    (plaintext : Bytes) : Option Bytes := do
  let key ← sealKey P X ephemeralSecret recipientPublic
  let ciphertext ← P.xchacha20Poly1305.encrypt key nonce [] plaintext
  return (X.getPublicKey ephemeralSecret).toList ++ nonce.toList ++ ciphertext

/-- The ephemeral public key, the nonce and the ciphertext of a box that is
long enough. -/
def sealedParts (sealed : Bytes) : Option (ByteVec 32 × ByteVec 24 × Bytes) :=
  if h : 32 + 24 + 16 ≤ sealed.length then
    some (⟨sealed.take 32, by rw [List.length_take]; omega⟩,
      ⟨(sealed.drop 32).take 24, by rw [List.length_take, List.length_drop]; omega⟩,
      sealed.drop 56)
  else none

/-- `nativeModule.openSealed` -/
def nativeOpen (secret : ByteVec 32) (sealed : Bytes) : Option Bytes := do
  let (ephemeralPublic, nonce, ciphertext) ← sealedParts sealed
  let key ← sealKey P X secret ephemeralPublic
  P.xchacha20Poly1305.decrypt key nonce [] ciphertext

def sealToPublicKey (ephemeralSecret : ByteVec 32) (nonce : ByteVec 24)
    (recipientPublicKey plaintext : Bytes) : Except String Bytes :=
  if h : recipientPublicKey.length = 32 then
    if plaintext = [] then .error "Plaintext cannot be empty"
    else
      match nativeSeal P X ephemeralSecret nonce ⟨recipientPublicKey, h⟩ plaintext with
      | none => .error "Public key encryption failed: Failed to seal plaintext to public key"
      | some sealed => .ok sealed
  else .error "Recipient public key must be 32 bytes"

def openSealed (secretKey sealed : Bytes) : Except String Bytes :=
  if h : secretKey.length = 32 then
    if sealed = [] then .error "Sealed data cannot be empty"
    else
      match nativeOpen P X ⟨secretKey, h⟩ sealed with
      | none => .error "Public key decryption failed: Failed to open sealed ciphertext"
      | some plaintext => .ok plaintext
  else .error "Secret key must be 32 bytes"

variable {P X} {ephemeralSecret secret : ByteVec 32} {nonce : ByteVec 24}
  {recipientPublicKey plaintext sealed : Bytes}

theorem sealKey_comm (hX : X.Correct) (a b : ByteVec 32) :
    sealKey P X a (X.getPublicKey b) = sealKey P X b (X.getPublicKey a) := by
  rw [sealKey, sealKey, hX.comm]

theorem sealedParts_append (ephemeralPublic : ByteVec 32) (nonce : ByteVec 24)
    {ciphertext : Bytes} (h : 16 ≤ ciphertext.length) :
    sealedParts (ephemeralPublic.toList ++ nonce.toList ++ ciphertext)
      = some (ephemeralPublic, nonce, ciphertext) := by
  obtain ⟨publicBytes, hpublic⟩ := ephemeralPublic
  obtain ⟨nonceBytes, hnonce⟩ := nonce
  simp only [List.Vector.toList_mk]
  have htake : (publicBytes ++ nonceBytes ++ ciphertext).take 32 = publicBytes := by
    rw [List.append_assoc, List.take_left' hpublic]
  have hdrop : (publicBytes ++ nonceBytes ++ ciphertext).drop 32 = nonceBytes ++ ciphertext := by
    rw [List.append_assoc, List.drop_left' hpublic]
  have hbody : (publicBytes ++ nonceBytes ++ ciphertext).drop 56 = ciphertext :=
    List.drop_left' (by rw [List.length_append, hpublic, hnonce])
  have hlen : 32 + 24 + 16 ≤ (publicBytes ++ nonceBytes ++ ciphertext).length := by
    rw [List.length_append, List.length_append, hpublic, hnonce]
    omega
  simp only [sealedParts, dif_pos hlen, htake, hdrop, hbody, List.take_left' hnonce]

theorem nativeOpen_nativeSeal (hP : P.xchacha20Poly1305.Correct) (hX : X.Correct)
    (h : nativeSeal P X ephemeralSecret nonce (X.getPublicKey secret) plaintext = some sealed) :
    nativeOpen P X secret sealed = some plaintext := by
  simp only [nativeSeal, bind, pure, Option.bind_eq_some_iff, Option.some.injEq] at h
  obtain ⟨key, hkey, ciphertext, hencrypt, rfl⟩ := h
  rw [sealKey_comm hX] at hkey
  have hlen := hP.encrypt_length hencrypt
  have hparts := sealedParts_append (X.getPublicKey ephemeralSecret) nonce
    (show 16 ≤ ciphertext.length by omega)
  simp only [nativeOpen, hparts, bind, Option.bind_some, hkey]
  exact hP.decrypt_encrypt hencrypt

/-- **A sealed box opens** with the secret key of the public key it is sealed
to. -/
theorem openSealed_sealToPublicKey (hP : P.xchacha20Poly1305.Correct) (hX : X.Correct)
    (hkey : recipientPublicKey = (X.getPublicKey secret).toList)
    (h : sealToPublicKey P X ephemeralSecret nonce recipientPublicKey plaintext = .ok sealed) :
    openSealed P X secret.toList sealed = .ok plaintext := by
  subst hkey
  unfold sealToPublicKey at h
  split_ifs at h with hlen hempty
  split at h
  · cases h
  · rename_i box hseal
    obtain rfl := Except.ok.inj h
    have hpublic : (⟨(X.getPublicKey secret).toList, hlen⟩ : ByteVec 32) = X.getPublicKey secret :=
      Subtype.ext rfl
    rw [hpublic] at hseal
    have hopen := nativeOpen_nativeSeal hP hX hseal
    have hne : box ≠ [] := by
      rintro rfl
      simp [nativeOpen, sealedParts] at hopen
    have hsecret : (⟨secret.toList, List.Vector.toList_length secret⟩ : ByteVec 32) = secret :=
      Subtype.ext rfl
    simp only [openSealed, List.Vector.toList_length, dif_pos, if_neg hne, hsecret, hopen]

end SealedBox

end UsbVault.App
