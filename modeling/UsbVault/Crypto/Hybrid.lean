import UsbVault.Crypto.Sharing

/-!
# Hybrid sealed boxes

`pqc/hybrid.rs` over `pqc/ml_kem.rs`: the sealed box of X25519 and
ML-KEM-1024, in both of its versions. The second has a version byte in front
and binds its key to the transcript; the rest is one construction
(`sealWith`, `openWith`). Either opens what its own sealer writes, and
neither meets a fault on any bytes (`sealed_boxes_open`).
-/

namespace UsbVault.Sealing

open Wire Faults App

/-! ## ML-KEM-1024 -/

/-- The crate's ML-KEM-1024: a decapsulation and an encapsulation key of two
seeds, a ciphertext and a shared secret of one. -/
structure MlKem where
  generate : ByteVec 32 → ByteVec 32 → ByteVec 3168 × ByteVec 1568
  encapsulate : ByteVec 1568 → ByteVec 32 → Option (ByteVec 1568 × ByteVec 32)
  decapsulate : ByteVec 3168 → ByteVec 1568 → Option (ByteVec 32)

/-- The secret that was encapsulated to a key comes out again. -/
structure MlKem.Correct (K : MlKem) : Prop where
  decapsulate_encapsulate : ∀ {d z m ct ss}, K.encapsulate (K.generate d z).2 m = some (ct, ss) →
    K.decapsulate (K.generate d z).1 ct = some ss

variable (P : Primitives) (X : X25519) (K : MlKem)

/-- `ml_kem::generate_keypair`: the encapsulation key, then the decapsulation
key. -/
def mlKemGenerateKeypair (d z : ByteVec 32) : Bytes × Bytes :=
  let (dk, ek) := K.generate d z
  (ek.toList, dk.toList)

/-- `ml_kem::encapsulate` -/
def mlKemEncapsulate (m : ByteVec 32) (encapsulationKey : Bytes) : Result (Bytes × Bytes) :=
  if h : encapsulationKey.length = 1568 then
    match K.encapsulate ⟨encapsulationKey, h⟩ m with
    | none => .error .sharingError
    | some (ct, ss) => .ok (ct.toList, ss.toList)
  else .error .invalidKey

/-- `ml_kem::decapsulate` -/
def mlKemDecapsulate (decapsulationKey ciphertext : Bytes) : Result Bytes :=
  if hct : ciphertext.length = 1568 then
    if hdk : decapsulationKey.length = 3168 then
      match K.decapsulate ⟨decapsulationKey, hdk⟩ ⟨ciphertext, hct⟩ with
      | none => .error .sharingError
      | some ss => .ok ss.toList
    else .error .invalidKey
  else .error .invalidKey

/-! ## The functions of the source -/

/-- `HybridPublicKey` -/
structure HybridPublicKey where
  x25519 : ByteVec 32
  mlKem : Bytes

/-- `HybridSecretKey` -/
structure HybridSecretKey where
  x25519 : ByteVec 32
  mlKem : Bytes

/-- `generate_hybrid_keypair`, with what it draws. -/
def generateHybridKeypair (x25519Secret d z : ByteVec 32) : HybridPublicKey × HybridSecretKey :=
  let (mlKemEk, mlKemDk) := mlKemGenerateKeypair K d z
  ({ x25519 := X.getPublicKey x25519Secret, mlKem := mlKemEk },
    { x25519 := x25519Secret, mlKem := mlKemDk })

/-- `combine_shared_secrets` -/
def combineSharedSecrets (x25519Ss mlKemSs : Bytes) : Result (ByteVec 32) :=
  deriveSubkey P (x25519Ss ++ mlKemSs) (ascii "hybrid_seal_x25519_mlkem1024")

def HYBRID_SEAL_VERSION_V2 : UInt8 := 2

def HYBRID_SEAL_V2_INFO_PREFIX : Bytes := ascii "hybrid_seal_x25519_mlkem1024_v2:"

/-- `combine_shared_secrets_bound` -/
def combineSharedSecretsBound (x25519Ss mlKemSs transcript : Bytes) : Result (ByteVec 32) :=
  .ok (P.hkdfSha256 none (x25519Ss ++ mlKemSs) (HYBRID_SEAL_V2_INFO_PREFIX ++ transcript) 32)

/-- What a seal draws. -/
structure SealEntropy where
  ephemeralSecret : ByteVec 32
  mlKemMessage : ByteVec 32
  nonce : ByteVec 24

/-- How a version makes its key of the two secrets and the transcript. -/
abbrev Combine := Bytes → Bytes → Bytes → Result (ByteVec 32)

/-- The first version has the secrets alone. -/
def combineV1 : Combine := fun x25519Ss mlKemSs _ => combineSharedSecrets P x25519Ss mlKemSs

/-- The body of `hybrid_seal` and `hybrid_seal_v2`, behind the version. -/
def sealWith (combine : Combine) (version : Bytes) (entropy : SealEntropy)
    (recipient : HybridPublicKey) (plaintext : Bytes) : Result Bytes := do
  let ephemeralPublic := X.getPublicKey entropy.ephemeralSecret
  let x25519Ss := X.getSharedSecret entropy.ephemeralSecret recipient.x25519
  let (mlKemCt, mlKemSs) ← mlKemEncapsulate K entropy.mlKemMessage recipient.mlKem
  let key ← combine x25519Ss.toList mlKemSs (ephemeralPublic.toList ++ mlKemCt)
  let ciphertext ← encryptBox P key entropy.nonce plaintext
  return version ++ (ephemeralPublic.toList ++ (mlKemCt ++ (entropy.nonce.toList ++ ciphertext)))

/-- `hybrid_seal` -/
def hybridSeal : SealEntropy → HybridPublicKey → Bytes → Result Bytes :=
  sealWith P X K (combineV1 P) []

/-- `hybrid_seal_v2` -/
def hybridSealV2 : SealEntropy → HybridPublicKey → Bytes → Result Bytes :=
  sealWith P X K (combineSharedSecretsBound P) [HYBRID_SEAL_VERSION_V2]

/-- What an open does with the parts of a box. -/
def openParts (combine : Combine) (recipientSecret : HybridSecretKey)
    (ephemeralX25519 : ByteVec 32) (mlKemCt : Bytes) (nonce : ByteVec 24) (ciphertext : Bytes) :
    Result Bytes := do
  let x25519Ss := X.getSharedSecret recipientSecret.x25519 ephemeralX25519
  let mlKemSs ← mlKemDecapsulate K recipientSecret.mlKem mlKemCt
  let key ← combine x25519Ss.toList mlKemSs (ephemeralX25519.toList ++ mlKemCt)
  decryptBox P key nonce ciphertext

/-- The body of `hybrid_open` and `hybrid_open_v2`, from `offset` on. -/
def openWith (combine : Combine) (offset : Nat) (recipientSecret : HybridSecretKey)
    (sealed : Bytes) : Checked CryptoError Bytes := do
  let ephemeralX25519 ← rangeVec .sharingError sealed offset 32
  let mlKemCt ← range sealed (offset + 32) (offset + 32 + 1568)
  let nonce ← rangeVec .sharingError sealed (offset + 32 + 1568) 24
  let ciphertext ← range sealed (offset + 32 + 1568 + 24) sealed.length
  Faults.lift (openParts P X K combine recipientSecret ephemeralX25519 mlKemCt nonce ciphertext)

/-- `hybrid_open` -/
def hybridOpen (recipientSecret : HybridSecretKey) (sealed : Bytes) : Checked CryptoError Bytes :=
  if sealed.length < 32 + 1568 + 24 + 16 then Faults.lift (.error .sharingError)
  else openWith P X K (combineV1 P) 0 recipientSecret sealed

/-- `hybrid_open_v2` -/
def hybridOpenV2 (recipientSecret : HybridSecretKey) (sealed : Bytes) :
    Checked CryptoError Bytes :=
  if sealed.length < 1 + 32 + 1568 + 24 + 16 then Faults.lift (.error .sharingError)
  else do
    let version ← index sealed 0
    if version ≠ HYBRID_SEAL_VERSION_V2 then Faults.lift (.error .sharingError)
    else openWith P X K (combineSharedSecretsBound P) 1 recipientSecret sealed

variable {P X K}

/-! ## Opening -/

variable {combine : Combine} {version plaintext sealed : Bytes} {recipientSecret : HybridSecretKey}

theorem openWith_eq (combine : Combine) (offset : Nat) (recipientSecret : HybridSecretKey)
    (sealed : Bytes) (h : offset + 32 + 1568 + 24 ≤ sealed.length) :
    ∃ (ephemeralX25519 : ByteVec 32) (mlKemCt : ByteVec 1568) (nonce : ByteVec 24)
      (ciphertext : Bytes),
      sealed.drop offset
          = ephemeralX25519.toList ++ (mlKemCt.toList ++ (nonce.toList ++ ciphertext))
        ∧ openWith P X K combine offset recipientSecret sealed = Faults.lift
          (openParts P X K combine recipientSecret ephemeralX25519 mlKemCt.toList nonce
            ciphertext) := by
  obtain ⟨ephemeralX25519, hephemeral, hdrop⟩ :=
    rangeVec_split CryptoError.sharingError (show offset + 32 ≤ sealed.length by omega)
  obtain ⟨mlKemCt, hct, hlength, hdrop'⟩ :=
    range_split (ε := CryptoError) (show offset + 32 + 1568 ≤ sealed.length by omega)
  obtain ⟨nonce, hnonce, hrest⟩ := rangeVec_split CryptoError.sharingError h
  refine ⟨ephemeralX25519, ⟨mlKemCt, hlength⟩, nonce, sealed.drop (offset + 32 + 1568 + 24), ?_, ?_⟩
  · rw [hdrop, hdrop', hrest]
    rfl
  · rw [openWith, hephemeral, lift_ok_bind, hct, lift_ok_bind, hnonce, lift_ok_bind,
      range_rest h, lift_ok_bind]
    rfl

theorem openWith_returns {offset : Nat} (h : offset + 32 + 1568 + 24 ≤ sealed.length) :
    Returns (openWith P X K combine offset recipientSecret sealed) := by
  obtain ⟨_, _, _, _, -, hopen⟩ := openWith_eq (P := P) (X := X) (K := K) combine offset
    recipientSecret sealed h
  rw [hopen]
  exact returns_lift _

/-- **Opening meets no fault**, whatever the bytes. -/
theorem hybridOpen_returns (recipientSecret : HybridSecretKey) (sealed : Bytes) :
    Returns (hybridOpen P X K recipientSecret sealed) := by
  rw [hybridOpen]
  split
  · exact returns_lift _
  · exact openWith_returns (by omega)

theorem hybridOpenV2_returns (recipientSecret : HybridSecretKey) (sealed : Bytes) :
    Returns (hybridOpenV2 P X K recipientSecret sealed) := by
  rw [hybridOpenV2]
  split
  · exact returns_lift _
  · rw [index_of_lt (by omega) 0, lift_ok_bind]
    split
    · exact returns_lift _
    · exact openWith_returns (by omega)

/-! ## Opening what was sealed -/

section

variable {d z m x25519Secret : ByteVec 32} {ct ss : Bytes} {entropy : SealEntropy}

theorem mlKemEncapsulate_cases (m : ByteVec 32) :
    (∃ ct ss, mlKemEncapsulate K m (mlKemGenerateKeypair K d z).1 = .ok (ct, ss)
        ∧ ss.length = 32)
      ∨ mlKemEncapsulate K m (mlKemGenerateKeypair K d z).1 = .error .sharingError
        ∧ K.encapsulate (K.generate d z).2 m = none := by
  have hek : (mlKemGenerateKeypair K d z).1.length = 1568 := (K.generate d z).2.toList_length
  have hek' : (⟨(mlKemGenerateKeypair K d z).1, hek⟩ : ByteVec 1568) = (K.generate d z).2 :=
    Subtype.ext rfl
  rw [mlKemEncapsulate, dif_pos hek, hek']
  split
  · rename_i hnone
    exact .inr ⟨rfl, hnone⟩
  · rename_i ct ss _
    exact .inl ⟨_, _, rfl, ss.toList_length⟩

theorem mlKemDecapsulate_encapsulate (hK : K.Correct)
    (h : mlKemEncapsulate K m (mlKemGenerateKeypair K d z).1 = .ok (ct, ss)) :
    ct.length = 1568 ∧ mlKemDecapsulate K (mlKemGenerateKeypair K d z).2 ct = .ok ss := by
  have hek : (mlKemGenerateKeypair K d z).1.length = 1568 := (K.generate d z).2.toList_length
  have hdk : (mlKemGenerateKeypair K d z).2.length = 3168 := (K.generate d z).1.toList_length
  have hek' : (⟨(mlKemGenerateKeypair K d z).1, hek⟩ : ByteVec 1568) = (K.generate d z).2 :=
    Subtype.ext rfl
  rw [mlKemEncapsulate, dif_pos hek, hek'] at h
  split at h
  · cases h
  · rename_i ct' ss' hencapsulate
    cases h
    have hct' : (⟨ct'.toList, ct'.toList_length⟩ : ByteVec 1568) = ct' := Subtype.ext rfl
    have hdk' : (⟨(mlKemGenerateKeypair K d z).2, hdk⟩ : ByteVec 3168) = (K.generate d z).1 :=
      Subtype.ext rfl
    refine ⟨ct'.toList_length, ?_⟩
    rw [mlKemDecapsulate, dif_pos ct'.toList_length, dif_pos hdk, hct', hdk',
      hK.decapsulate_encapsulate hencapsulate]

/-- Every key of a version comes out, whatever the secrets. -/
def Total (combine : Combine) : Prop :=
  ∀ x25519Ss mlKemSs transcript : Bytes, mlKemSs.length = 32 →
    ∃ key, combine x25519Ss mlKemSs transcript = .ok key

theorem combineV1_total : Total (combineV1 P) := by
  intro x25519Ss mlKemSs transcript hlength
  have hne : x25519Ss ++ mlKemSs ≠ [] := by
    intro h
    rw [(List.append_eq_nil_iff.mp h).2] at hlength
    cases hlength
  have hinfo : ¬(ascii "hybrid_seal_x25519_mlkem1024" = []
      ∨ (ascii "hybrid_seal_x25519_mlkem1024").length > 256) := by decide +kernel
  rw [combineV1, combineSharedSecrets, deriveSubkey, if_neg hne, if_neg hinfo]
  exact ⟨_, rfl⟩

theorem combineSharedSecretsBound_total : Total (combineSharedSecretsBound P) :=
  fun _ _ _ _ => ⟨_, rfl⟩

/-- What has no box: ML-KEM has no ciphertext for the key, or the AEAD none
for the plaintext. -/
def SealRefuses (P : Primitives) (K : MlKem) (d z : ByteVec 32) (entropy : SealEntropy)
    (plaintext : Bytes) : Prop :=
  K.encapsulate (K.generate d z).2 entropy.mlKemMessage = none ∨ Refuses P entropy.nonce plaintext

/-- **A box opens**, in whichever version: it is long enough, starts with its
version, and the body of the open finds the plaintext behind that. -/
theorem openWith_of_sealWith (hP : P.xchacha20Poly1305.Correct) (hX : X.Correct)
    (hK : K.Correct) (hcombine : Total combine) (version : Bytes) (x25519Secret d z : ByteVec 32)
    (entropy : SealEntropy) (plaintext : Bytes) :
    let keypair := generateHybridKeypair X K x25519Secret d z
    (∃ body, sealWith P X K combine version entropy keypair.1 plaintext = .ok (version ++ body)
        ∧ 32 + 1568 + 24 + 16 ≤ body.length
        ∧ openWith P X K combine version.length keypair.2 (version ++ body)
          = Faults.lift (.ok plaintext))
      ∨ sealWith P X K combine version entropy keypair.1 plaintext = .error .sharingError
        ∧ SealRefuses P K d z entropy plaintext := by
  dsimp only [generateHybridKeypair]
  simp only [sealWith, bind, Except.bind]
  rcases mlKemEncapsulate_cases (K := K) (d := d) (z := z) entropy.mlKemMessage
    with ⟨ct, ss, hencapsulate, hss⟩ | ⟨hencapsulate, hnone⟩
  · obtain ⟨hct, hdecapsulate⟩ := mlKemDecapsulate_encapsulate hK hencapsulate
    obtain ⟨key, hkey⟩ := hcombine
      (X.getSharedSecret entropy.ephemeralSecret (X.getPublicKey x25519Secret)).toList ss
      ((X.getPublicKey entropy.ephemeralSecret).toList ++ ct) hss
    rcases encryptBox_cases (P := P) key entropy.nonce plaintext
      with ⟨ciphertext, henc⟩ | ⟨henc, hrefuses⟩
    · obtain ⟨hdec, hlength⟩ := decryptBox_encryptBox hP henc
      refine .inl ⟨_, by rw [hencapsulate]; simp only [hkey, henc]; rfl, ?_, ?_⟩
      · simp only [List.length_append, List.Vector.toList_length, hct]
        omega
      · obtain ⟨ephemeral, ct', nonce', ciphertext', hparts, hopen⟩ :=
          openWith_eq (P := P) (X := X) (K := K) combine version.length
            ⟨x25519Secret, (mlKemGenerateKeypair K d z).2⟩
            (version ++ ((X.getPublicKey entropy.ephemeralSecret).toList
              ++ (ct ++ (entropy.nonce.toList ++ ciphertext)))) (by
                simp only [List.length_append, List.Vector.toList_length, hct]
                omega)
        -- the parts are those that were sealed
        rw [List.drop_left] at hparts
        obtain ⟨rfl, hrest⟩ := vec_append_inj hparts
        obtain ⟨rfl, hrest'⟩ := append_inj_of_length (hct.trans ct'.toList_length.symm) hrest
        obtain ⟨rfl, rfl⟩ := vec_append_inj hrest'
        rw [hopen]
        simp only [openParts, bind, Except.bind, hdecapsulate, hX.comm x25519Secret, hkey]
        rw [hdec]
    · refine .inr ⟨?_, .inr hrefuses⟩
      rw [hencapsulate]
      simp only [hkey, henc]
  · refine .inr ⟨?_, .inl hnone⟩
    rw [hencapsulate]

/-- Sealing gives a box that opens to the plaintext, or refuses. -/
def BoxOpens (sealed : Result Bytes) (openBox : Bytes → Checked CryptoError Bytes)
    (plaintext : Bytes) (refuses : Prop) : Prop :=
  (∃ box, sealed = .ok box ∧ openBox box = Faults.lift (.ok plaintext))
    ∨ sealed = .error .sharingError ∧ refuses

theorem hybridOpen_of_hybridSeal (hP : P.xchacha20Poly1305.Correct) (hX : X.Correct)
    (hK : K.Correct) (x25519Secret d z : ByteVec 32) (entropy : SealEntropy) (plaintext : Bytes) :
    let keypair := generateHybridKeypair X K x25519Secret d z
    BoxOpens (hybridSeal P X K entropy keypair.1 plaintext) (hybridOpen P X K keypair.2) plaintext
      (SealRefuses P K d z entropy plaintext) := by
  rcases openWith_of_sealWith hP hX hK combineV1_total [] x25519Secret d z entropy plaintext
    with ⟨body, hseal, hlength, hopen⟩ | hrefuses
  · refine .inl ⟨[] ++ body, hseal, ?_⟩
    rw [hybridOpen, if_neg (by rw [List.nil_append]; omega)]
    exact hopen
  · exact .inr hrefuses

theorem hybridOpenV2_of_hybridSealV2 (hP : P.xchacha20Poly1305.Correct) (hX : X.Correct)
    (hK : K.Correct) (x25519Secret d z : ByteVec 32) (entropy : SealEntropy) (plaintext : Bytes) :
    let keypair := generateHybridKeypair X K x25519Secret d z
    BoxOpens (hybridSealV2 P X K entropy keypair.1 plaintext) (hybridOpenV2 P X K keypair.2)
      plaintext (SealRefuses P K d z entropy plaintext) := by
  rcases openWith_of_sealWith hP hX hK combineSharedSecretsBound_total [HYBRID_SEAL_VERSION_V2]
    x25519Secret d z entropy plaintext with ⟨body, hseal, hlength, hopen⟩ | hrefuses
  · refine .inl ⟨[HYBRID_SEAL_VERSION_V2] ++ body, hseal, ?_⟩
    rw [hybridOpenV2, if_neg (by rw [List.length_append, List.length_singleton]; omega),
      index_of_getElem? rfl, lift_ok_bind, if_neg (fun h => h rfl)]
    exact hopen
  · exact .inr hrefuses

end

/-- **Sealed boxes open**: what is sealed to the public key of a key pair
opens with its secret key, for the X25519 box and both versions of the hybrid
box. Sealing only refuses a shared secret of zeros, and what ML-KEM or the
AEAD refuse. No open meets a fault on any bytes. -/
theorem sealed_boxes_open (P : Primitives) (X : X25519) (K : MlKem)
    (hP : P.xchacha20Poly1305.Correct) (hX : X.Correct) (hK : K.Correct) :
    (∀ secret ephemeralSecret nonce plaintext,
      let keypair := generateKeypair X secret
      BoxOpens (sharingSeal P X ephemeralSecret nonce keypair.1 plaintext)
        (sharingOpen P X keypair.2) plaintext
        ((X.getSharedSecret ephemeralSecret keypair.1).toList.all (fun b => b = 0) = true
          ∨ Refuses P nonce plaintext))
      ∧ (∀ x25519Secret d z entropy plaintext,
        let keypair := generateHybridKeypair X K x25519Secret d z
        BoxOpens (hybridSeal P X K entropy keypair.1 plaintext) (hybridOpen P X K keypair.2)
          plaintext (SealRefuses P K d z entropy plaintext))
      ∧ (∀ x25519Secret d z entropy plaintext,
        let keypair := generateHybridKeypair X K x25519Secret d z
        BoxOpens (hybridSealV2 P X K entropy keypair.1 plaintext) (hybridOpenV2 P X K keypair.2)
          plaintext (SealRefuses P K d z entropy plaintext))
      ∧ (∀ secret sealed, Returns (sharingOpen P X secret sealed))
      ∧ ∀ secret sealed, Returns (hybridOpen P X K secret sealed)
        ∧ Returns (hybridOpenV2 P X K secret sealed) := by
  refine ⟨?_, hybridOpen_of_hybridSeal hP hX hK, hybridOpenV2_of_hybridSealV2 hP hX hK,
    sharingOpen_returns, ?_⟩
  · exact sharingOpen_of_sharingSeal hP hX
  · intro secret sealed
    exact ⟨hybridOpen_returns secret sealed, hybridOpenV2_returns secret sealed⟩

/-- The shared secret is the difference of a secret and a public key, which
are the same. -/
def sampleX25519 : X25519 where
  getPublicKey := id
  getSharedSecret a b := ⟨List.zipWith (· ^^^ ·) a.toList b.toList, xor32_length a b⟩

theorem sampleX25519_correct : sampleX25519.Correct where
  comm _ _ := Subtype.ext (List.zipWith_comm_of_comm UInt8.xor_comm)

/-- A ciphertext is the secret itself, and zeros. -/
def sampleMlKem : MlKem where
  generate _ _ := (zeroVec 3168, zeroVec 1568)
  encapsulate _ m := some (⟨m.toList ++ zeros 1536, by simp⟩, m)
  decapsulate _ ct := some ⟨ct.toList.take 32, by simp⟩

theorem sampleMlKem_correct : sampleMlKem.Correct where
  decapsulate_encapsulate := by
    intro d z m ct ss h
    cases h
    have htake : (m.toList ++ zeros 1536).take 32 = m.toList := List.take_left' m.toList_length
    exact congrArg some (Subtype.ext htake)

/-- A box of the second version to a key of ones, from one of threes. -/
theorem sealed_boxes_open_sample :
    ∃ box, hybridSealV2 transparentPrimitives sampleX25519 sampleMlKem
        ⟨List.Vector.replicate 32 3, zeroVec 32, zeroVec 24⟩
        (generateHybridKeypair sampleX25519 sampleMlKem (List.Vector.replicate 32 1) (zeroVec 32)
          (zeroVec 32)).1 [1, 2, 3] = .ok box
      ∧ hybridOpenV2 transparentPrimitives sampleX25519 sampleMlKem
        (generateHybridKeypair sampleX25519 sampleMlKem (List.Vector.replicate 32 1) (zeroVec 32)
          (zeroVec 32)).2 box = Faults.lift (.ok [1, 2, 3]) := by
  obtain ⟨-, -, hopens, -⟩ := sealed_boxes_open transparentPrimitives sampleX25519 sampleMlKem
    (transparentAead_correct 24) sampleX25519_correct sampleMlKem_correct
  refine (hopens (List.Vector.replicate 32 1) (zeroVec 32) (zeroVec 32)
    ⟨List.Vector.replicate 32 3, zeroVec 32, zeroVec 24⟩ [1, 2, 3]).resolve_right ?_
  rintro ⟨-, hnone | ⟨key, hnone⟩⟩
  · cases hnone
  · cases hnone

end UsbVault.Sealing
