import UsbVault.Lib.Faults
import UsbVault.Crypto.Kdf
import UsbVault.App.SealedBox

/-!
# Sharing

`sharing.rs`: the X25519 sealed box. The random numbers of `seal` are
arguments, and `open` is written with its slices, none of which can fail
(`sharingOpen_returns`). A box opens with the secret key of the public key
it is sealed to (`sharingOpen_of_sharingSeal`).
-/

namespace UsbVault.Sealing

open Wire Faults App

/-! ## What every box has -/

variable (P : Primitives) (X : X25519)

/-- `cipher.encrypt` with its error. -/
def encryptBox (key : ByteVec 32) (nonce : ByteVec 24) (plaintext : Bytes) : Result Bytes :=
  match P.xchacha20Poly1305.encrypt key nonce [] plaintext with
  | none => .error .sharingError
  | some ciphertext => .ok ciphertext

/-- `cipher.decrypt` with its error. -/
def decryptBox (key : ByteVec 32) (nonce : ByteVec 24) (ciphertext : Bytes) : Result Bytes :=
  match P.xchacha20Poly1305.decrypt key nonce [] ciphertext with
  | none => .error .sharingError
  | some plaintext => .ok plaintext

/-- The AEAD has no ciphertext for a plaintext. -/
def Refuses (nonce : ByteVec 24) (plaintext : Bytes) : Prop :=
  ∃ key, P.xchacha20Poly1305.encrypt key nonce [] plaintext = none

variable {P X} {key secret ephemeralSecret : ByteVec 32} {nonce : ByteVec 24}
  {plaintext ciphertext : Bytes}

theorem encryptBox_cases (key : ByteVec 32) (nonce : ByteVec 24) (plaintext : Bytes) :
    (∃ ciphertext, encryptBox P key nonce plaintext = .ok ciphertext)
      ∨ encryptBox P key nonce plaintext = .error .sharingError ∧ Refuses P nonce plaintext := by
  rw [encryptBox]
  split
  · rename_i hnone
    exact .inr ⟨rfl, key, hnone⟩
  · exact .inl ⟨_, rfl⟩

theorem decryptBox_encryptBox (hP : P.xchacha20Poly1305.Correct)
    (h : encryptBox P key nonce plaintext = .ok ciphertext) :
    decryptBox P key nonce ciphertext = .ok plaintext ∧ 16 ≤ ciphertext.length := by
  rw [encryptBox] at h
  split at h
  · cases h
  · rename_i henc
    cases h
    rw [decryptBox, hP.decrypt_encrypt henc, hP.encrypt_length henc]
    exact ⟨rfl, Nat.le_add_left _ _⟩

/-! ## The functions of the source -/

variable (P X)

/-- `generate_keypair`, with the secret it draws. -/
def generateKeypair (secret : ByteVec 32) : ByteVec 32 × ByteVec 32 :=
  (X.getPublicKey secret, secret)

/-- The key of a box, unless the shared secret is all-zeros. -/
def sharingKey (sharedSecret : ByteVec 32) : Result (ByteVec 32) :=
  if sharedSecret.toList.all fun b => b = 0 then .error .sharingError
  else deriveSubkey P sharedSecret.toList (ascii "seal")

/-- `seal` -/
def sharingSeal (ephemeralSecret : ByteVec 32) (nonce : ByteVec 24)
    (recipientPublic : ByteVec 32) (plaintext : Bytes) : Result Bytes := do
  let key ← sharingKey P (X.getSharedSecret ephemeralSecret recipientPublic)
  let ciphertext ← encryptBox P key nonce plaintext
  return (X.getPublicKey ephemeralSecret).toList ++ (nonce.toList ++ ciphertext)

/-- `open` -/
def sharingOpen (recipientSecret : ByteVec 32) (sealed : Bytes) : Checked CryptoError Bytes :=
  if sealed.length < 32 + 24 + 16 then Faults.lift (.error .sharingError)
  else do
    let ephemeralPublic ← rangeVec .sharingError sealed 0 32
    let nonce ← rangeVec .sharingError sealed 32 24
    let ciphertext ← range sealed 56 sealed.length
    Faults.lift do
      let key ← sharingKey P (X.getSharedSecret recipientSecret ephemeralPublic)
      decryptBox P key nonce ciphertext

variable {P X}

/-! ## Opening -/

theorem sharingOpen_eq (secret : ByteVec 32) (sealed : Bytes)
    (h : ¬sealed.length < 32 + 24 + 16) :
    ∃ (ephemeralPublic : ByteVec 32) (nonce : ByteVec 24) (ciphertext : Bytes),
      sealed = ephemeralPublic.toList ++ (nonce.toList ++ ciphertext)
        ∧ sharingOpen P X secret sealed = Faults.lift (do
          let key ← sharingKey P (X.getSharedSecret secret ephemeralPublic)
          decryptBox P key nonce ciphertext) := by
  obtain ⟨ephemeralPublic, hpublic, hdrop⟩ :=
    rangeVec_split CryptoError.sharingError (show 0 + 32 ≤ sealed.length by omega)
  obtain ⟨nonce, hnonce, hrest⟩ := rangeVec_split CryptoError.sharingError (show 32 + 24 ≤ sealed.length by omega)
  refine ⟨ephemeralPublic, nonce, sealed.drop 56, ?_, ?_⟩
  · rw [List.drop_zero] at hdrop
    rw [← hrest]
    exact hdrop
  · rw [sharingOpen, if_neg h, hpublic, lift_ok_bind, hnonce, lift_ok_bind,
      range_rest (by omega), lift_ok_bind]

/-- **Opening meets no fault**, whatever the bytes. -/
theorem sharingOpen_returns (secret : ByteVec 32) (sealed : Bytes) :
    Returns (sharingOpen P X secret sealed) := by
  by_cases h : sealed.length < 32 + 24 + 16
  · rw [sharingOpen, if_pos h]
    exact returns_lift _
  · obtain ⟨_, _, _, -, hopen⟩ := sharingOpen_eq (P := P) (X := X) secret sealed h
    rw [hopen]
    exact returns_lift _

theorem sharingKey_cases (sharedSecret : ByteVec 32) :
    (∃ key, sharingKey P sharedSecret = .ok key)
      ∨ sharingKey P sharedSecret = .error .sharingError
        ∧ sharedSecret.toList.all (fun b => b = 0) = true := by
  rw [sharingKey]
  split
  · rename_i hzero
    exact .inr ⟨rfl, hzero⟩
  · have hne : sharedSecret.toList ≠ [] := by
      intro h
      have hlength := sharedSecret.toList_length
      rw [h] at hlength
      cases hlength
    have hinfo : ¬(ascii "seal" = [] ∨ (ascii "seal").length > 256) := by decide +kernel
    rw [deriveSubkey, if_neg hne, if_neg hinfo]
    exact .inl ⟨_, rfl⟩

/-- **A sealed box opens**: sealing to the public key of a secret key gives a
box that this secret key opens, unless the shared secret is zero or the AEAD
has no ciphertext. -/
theorem sharingOpen_of_sharingSeal (hP : P.xchacha20Poly1305.Correct) (hX : X.Correct)
    (secret ephemeralSecret : ByteVec 32) (nonce : ByteVec 24) (plaintext : Bytes) :
    (∃ box, sharingSeal P X ephemeralSecret nonce (X.getPublicKey secret) plaintext = .ok box
        ∧ sharingOpen P X secret box = Faults.lift (.ok plaintext))
      ∨ sharingSeal P X ephemeralSecret nonce (X.getPublicKey secret) plaintext
          = .error .sharingError
        ∧ ((X.getSharedSecret ephemeralSecret (X.getPublicKey secret)).toList.all
            (fun b => b = 0) = true ∨ Refuses P nonce plaintext) := by
  rcases sharingKey_cases (P := P) (X.getSharedSecret ephemeralSecret (X.getPublicKey secret))
    with ⟨key, hkey⟩ | ⟨hkey, hzero⟩
  · rcases encryptBox_cases (P := P) key nonce plaintext
      with ⟨ciphertext, henc⟩ | ⟨henc, hrefuses⟩
    · refine .inl ⟨_, by rw [sharingSeal, hkey]; simp only [bind, Except.bind, henc]; rfl, ?_⟩
      obtain ⟨hdec, hlength⟩ := decryptBox_encryptBox hP henc
      obtain ⟨ephemeralPublic, nonce', ciphertext', hbox, hopen⟩ :=
        sharingOpen_eq (P := P) (X := X) secret
          ((X.getPublicKey ephemeralSecret).toList ++ (nonce.toList ++ ciphertext)) (by
            simp only [List.length_append, List.Vector.toList_length]
            omega)
      obtain ⟨rfl, hrest⟩ := vec_append_inj hbox
      obtain ⟨rfl, rfl⟩ := vec_append_inj hrest
      rw [hopen, hX.comm, hkey]
      exact congrArg Faults.lift hdec
    · refine .inr ⟨?_, .inr hrefuses⟩
      rw [sharingSeal, hkey]
      simp only [bind, Except.bind, henc]
  · refine .inr ⟨?_, .inl hzero⟩
    rw [sharingSeal, hkey]
    rfl

/-- The web implementation of the app seals as the core does. -/
theorem nativeSeal_eq (ephemeralSecret recipientPublic : ByteVec 32) (nonce : ByteVec 24)
    (plaintext : Bytes) :
    SealedBox.nativeSeal P X ephemeralSecret nonce recipientPublic plaintext
      = (sharingSeal P X ephemeralSecret nonce recipientPublic plaintext).toOption := by
  have hkey : SealedBox.sealKey P X ephemeralSecret recipientPublic
      = (sharingKey P (X.getSharedSecret ephemeralSecret recipientPublic)).toOption := by
    rw [SealedBox.sealKey, sharingKey]
    split
    · rfl
    · rename_i hzero
      have hne : (X.getSharedSecret ephemeralSecret recipientPublic).toList ≠ [] := by
        intro h
        rw [h] at hzero
        exact hzero rfl
      have hinfo : ¬(ascii "seal" = [] ∨ (ascii "seal").length > 256) := by decide +kernel
      rw [deriveSubkey, if_neg hne, if_neg hinfo]
      rfl
  rw [SealedBox.nativeSeal, sharingSeal, hkey]
  cases sharingKey P (X.getSharedSecret ephemeralSecret recipientPublic) with
  | error e => rfl
  | ok key =>
    simp only [Except.toOption, bind, Except.bind, Option.bind_some, encryptBox]
    cases P.xchacha20Poly1305.encrypt key nonce [] plaintext with
    | none => rfl
    | some ciphertext => exact congrArg some (List.append_assoc _ _ _)

end UsbVault.Sealing
