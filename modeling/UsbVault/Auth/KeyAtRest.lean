import Mathlib.Data.List.Infix
import UsbVault.Crypto.Primitives
import UsbVault.Lib.Base64

/-!
# Signing keys at rest

`internal/auth/key_at_rest.go`: what `jwt_signing_keys` holds of a private
key. With a key-encryption key in the environment, a magic prefix, a nonce and
the encrypted key; without one, base64, and in production an error. A stored
value is told apart by its prefix alone.

A row is read back by every process with the same environment, and a base64
row by processes of any environment (`openSigningKey_sealSigningKey`), except
that the base64 of a key may begin with the prefix. That is the case of the
keys that begin with the bytes `25 62 b5`, which no process without a
key-encryption key can read, not even the one that has stored them
(`openSigningKey_legacy_iff`).
-/

namespace UsbVault.KeyAtRest

open Wire

inductive KeyError where
  /-- "must be base64" -/
  | notBase64
  /-- "must decode to 32 bytes (AES-256)" -/
  | notAES256 (length : Nat)
  /-- "refusing to store JWT signing key unencrypted in production" -/
  | refusing
  /-- "encrypted JWT signing key found but JWT_KEY_ENCRYPTION_KEY is not set" -/
  | notSet
  /-- "sealed JWT signing key too short" -/
  | tooShort
  /-- The error of base64 or of the cipher. -/
  | corrupt
  deriving DecidableEq, Repr

/-- The environment of a process. An unset variable is empty. -/
structure Env where
  jwtKeyEncryptionKey : List Char
  production : Bool
  deriving DecidableEq, Repr

/-- "JWK1" -/
def sealedKeyMagic : Bytes := [0x4a, 0x57, 0x4b, 0x31]

def toBytes (text : List Char) : Bytes := text.map fun c => UInt8.ofNat c.toNat

def toText (bytes : Bytes) : List Char := bytes.map fun b => Char.ofNat b.toNat

def jwtKEK (env : Env) : Except KeyError (Option (ByteVec 32)) :=
  if env.jwtKeyEncryptionKey = [] then .ok none
  else
    match Base64.decodeStrict env.jwtKeyEncryptionKey with
    | none => .error .notBase64
    | some kek =>
      if h : kek.length = 32 then .ok (some ⟨kek, h⟩) else .error (.notAES256 kek.length)

-- AES-256-GCM
variable (gcm : Aead 12)

/-- `nonce`: what is drawn. -/
def sealSigningKey (env : Env) (nonce : ByteVec 12) (privKey : Bytes) : Except KeyError Bytes :=
  match jwtKEK env with
  | .error e => .error e
  | .ok none =>
    if env.production then .error .refusing else .ok (toBytes (Base64.encode privKey))
  | .ok (some kek) =>
    match gcm.encrypt kek nonce [] privKey with
    | some ct => .ok (sealedKeyMagic ++ nonce.toList ++ ct)
    | none => .error .corrupt

theorem take12_length {body : Bytes} (h : ¬body.length < 12) : (body.take 12).length = 12 := by
  rw [List.length_take]
  omega

def openSigningKey (env : Env) (stored : Bytes) : Except KeyError Bytes :=
  if sealedKeyMagic <+: stored then
    match jwtKEK env with
    | .error e => .error e
    | .ok none => .error .notSet
    | .ok (some kek) =>
      let body := stored.drop sealedKeyMagic.length
      if h : body.length < 12 then .error .tooShort
      else
        match gcm.decrypt kek ⟨body.take 12, take12_length h⟩ [] (body.drop 12) with
        | some privKey => .ok privKey
        | none => .error .corrupt
  else
    match Base64.decodeStrict (toText stored) with
    | some privKey => .ok privKey
    | none => .error .corrupt

variable {gcm} {env env' : Env} {nonce : ByteVec 12} {privKey stored : Bytes}

/-! ## The base64 of a key -/

/-- The first bytes of the keys whose base64 begins with the prefix. -/
def magicKey : Bytes := [0x25, 0x62, 0xb5]

theorem toText_toBytes {text : List Char} (h : ∀ c ∈ text, c.toNat < 256) :
    toText (toBytes text) = text := by
  induction text with
  | nil => rfl
  | cons c text ih =>
    have hc : (UInt8.ofNat c.toNat).toNat = c.toNat := by
      rw [UInt8.toNat_ofNat', Nat.mod_eq_of_lt (h c List.mem_cons_self)]
    have hrest := ih fun d hd => h d (List.mem_cons_of_mem c hd)
    show Char.ofNat (UInt8.ofNat c.toNat).toNat :: toText (toBytes text) = c :: text
    rw [hc, Char.ofNat_toNat, hrest]

theorem digit_toNat_lt : ∀ n < 64, (Base64.digit n).toNat < 256 := by decide

theorem encode_toNat_lt {c : Char} (h : c ∈ Base64.encode privKey) : c.toNat < 256 := by
  rcases List.mem_append.mp h with hc | hc
  · obtain ⟨d, hd, rfl⟩ := List.mem_map.mp hc
    exact digit_toNat_lt d (Base64.sextets_lt Base64.toNat_lt d hd)
  · rw [List.eq_of_mem_replicate hc]
    decide

theorem decode_stored (privKey : Bytes) :
    Base64.decodeStrict (toText (toBytes (Base64.encode privKey))) = some privKey := by
  rw [toText_toBytes fun c hc => encode_toNat_lt hc, Base64.decodeStrict_encode]

theorem digit_eq : ∀ n < 64,
    (UInt8.ofNat (Base64.digit n).toNat = 0x4a ↔ n = 9)
      ∧ (UInt8.ofNat (Base64.digit n).toNat = 0x57 ↔ n = 22)
      ∧ (UInt8.ofNat (Base64.digit n).toNat = 0x4b ↔ n = 10)
      ∧ (UInt8.ofNat (Base64.digit n).toNat = 0x31 ↔ n = 53) := by
  decide

theorem prefix_cons_four {w x y z : UInt8} {rest : Bytes} :
    sealedKeyMagic <+: w :: x :: y :: z :: rest ↔ w = 0x4a ∧ x = 0x57 ∧ y = 0x4b ∧ z = 0x31 := by
  simp only [sealedKeyMagic, List.cons_prefix_cons, List.nil_prefix, and_true]
  constructor
  · rintro ⟨rfl, rfl, rfl, rfl⟩
    exact ⟨rfl, rfl, rfl, rfl⟩
  · rintro ⟨rfl, rfl, rfl, rfl⟩
    exact ⟨rfl, rfl, rfl, rfl⟩

/-- **The keys whose base64 begins with the prefix.** -/
theorem prefix_base64_iff (privKey : Bytes) :
    sealedKeyMagic <+: toBytes (Base64.encode privKey) ↔ magicKey <+: privKey := by
  match privKey with
  | [] => decide
  | [a] =>
    have hno : ¬magicKey <+: [a] := fun h => absurd h.length_le (by simp [magicKey])
    refine iff_of_false ?_ hno
    show ¬sealedKeyMagic <+: _ :: _ :: 0x3d :: 0x3d :: []
    rw [prefix_cons_four]
    rintro ⟨-, -, h, -⟩
    exact absurd h (by decide)
  | [a, b] =>
    have hno : ¬magicKey <+: [a, b] := fun h => absurd h.length_le (by simp [magicKey])
    refine iff_of_false ?_ hno
    show ¬sealedKeyMagic <+: _ :: _ :: _ :: 0x3d :: []
    rw [prefix_cons_four]
    rintro ⟨-, -, -, h⟩
    exact absurd h (by decide)
  | a :: b :: c :: rest =>
    have ha := a.toNat_lt
    have hb := b.toNat_lt
    have hc := c.toNat_lt
    show sealedKeyMagic <+: UInt8.ofNat (Base64.digit (a.toNat / 4)).toNat
      :: UInt8.ofNat (Base64.digit (a.toNat % 4 * 16 + b.toNat / 16)).toNat
      :: UInt8.ofNat (Base64.digit (b.toNat % 16 * 4 + c.toNat / 64)).toNat
      :: UInt8.ofNat (Base64.digit (c.toNat % 64)).toNat :: _ ↔ _
    rw [prefix_cons_four, (digit_eq _ (by omega)).1, (digit_eq _ (by omega)).2.1,
      (digit_eq _ (by omega)).2.2.1, (digit_eq _ (by omega)).2.2.2]
    simp only [magicKey, List.cons_prefix_cons, List.nil_prefix, and_true]
    rw [← UInt8.toNat_inj, ← UInt8.toNat_inj, ← UInt8.toNat_inj]
    show _ ↔ 0x25 = a.toNat ∧ 0x62 = b.toNat ∧ 0xb5 = c.toNat
    omega

/-! ## What is stored and read back -/

theorem sealSigningKey_legacy (hkek : jwtKEK env = .ok none)
    (h : sealSigningKey gcm env nonce privKey = .ok stored) :
    env.production = false ∧ stored = toBytes (Base64.encode privKey) := by
  rw [sealSigningKey, hkek] at h
  dsimp only at h
  split at h
  · cases h
  · rename_i hproduction
    cases h
    exact ⟨eq_false_of_ne_true hproduction, rfl⟩

theorem sealSigningKey_sealed {kek : ByteVec 32} (hkek : jwtKEK env = .ok (some kek))
    (h : sealSigningKey gcm env nonce privKey = .ok stored) :
    ∃ ct, gcm.encrypt kek nonce [] privKey = some ct
      ∧ stored = sealedKeyMagic ++ nonce.toList ++ ct := by
  rw [sealSigningKey, hkek] at h
  dsimp only at h
  split at h
  · rename_i ct hct
    cases h
    exact ⟨ct, hct, rfl⟩
  · cases h

theorem openSigningKey_sealed (hgcm : gcm.Correct) {kek : ByteVec 32} {ct : Bytes}
    (hct : gcm.encrypt kek nonce [] privKey = some ct) (hkek : jwtKEK env' = .ok (some kek)) :
    openSigningKey gcm env' (sealedKeyMagic ++ nonce.toList ++ ct) = .ok privKey := by
  have hlength : nonce.toList.length = 12 := nonce.toList_length
  have hmagic : sealedKeyMagic <+: sealedKeyMagic ++ nonce.toList ++ ct := by
    rw [List.append_assoc]
    exact List.prefix_append _ _
  have hbody : (sealedKeyMagic ++ nonce.toList ++ ct).drop sealedKeyMagic.length
      = nonce.toList ++ ct := by
    rw [List.append_assoc, List.drop_left]
  have hlong : ¬(nonce.toList ++ ct).length < 12 := by
    rw [List.length_append]
    omega
  have htake : (nonce.toList ++ ct).take 12 = nonce.toList := List.take_left' hlength
  have hdrop : (nonce.toList ++ ct).drop 12 = ct := List.drop_left' hlength
  have hnonce : (⟨(nonce.toList ++ ct).take 12, take12_length hlong⟩ : ByteVec 12) = nonce :=
    Subtype.ext htake
  simp only [openSigningKey, if_pos hmagic, hkek, hbody, dif_neg hlong, hnonce, hdrop,
    hgcm.decrypt_encrypt hct]

/-- Where a value can be read that `env` has stored. -/
def Reads (env env' : Env) (privKey : Bytes) : Prop :=
  match jwtKEK env with
  | .ok none => ¬magicKey <+: privKey
  | _ => jwtKEK env' = jwtKEK env

/-- **A stored key is read back**: where the key-encryption key is the same; and
anywhere, if there was none and the key does not begin with the bytes whose
base64 is the prefix. -/
theorem openSigningKey_sealSigningKey (hgcm : gcm.Correct) (env env' : Env)
    (nonce : ByteVec 12) (privKey : Bytes)
    (hseal : sealSigningKey gcm env nonce privKey = .ok stored)
    (hreads : Reads env env' privKey) : openSigningKey gcm env' stored = .ok privKey := by
  rw [Reads] at hreads
  split at hreads
  · rename_i hkek
    obtain ⟨-, rfl⟩ := sealSigningKey_legacy hkek hseal
    rw [openSigningKey, if_neg (mt (prefix_base64_iff privKey).mp hreads), decode_stored]
  · rename_i hother
    cases hkek : jwtKEK env with
    | error e =>
      rw [sealSigningKey, hkek] at hseal
      cases hseal
    | ok kek =>
      cases kek with
      | none => exact absurd hkek hother
      | some kek =>
        obtain ⟨ct, hct, rfl⟩ := sealSigningKey_sealed hkek hseal
        exact openSigningKey_sealed hgcm hct (hreads.trans hkek)

/-- **Without a key-encryption key** a stored key is read back by a process that
has none just when it does not begin with the bytes whose base64 is the
prefix; a key that does is refused. -/
theorem openSigningKey_legacy_iff (env env' : Env) (nonce : ByteVec 12) (privKey : Bytes)
    (hkek : jwtKEK env = .ok none) (hkek' : jwtKEK env' = .ok none)
    (hseal : sealSigningKey gcm env nonce privKey = .ok stored) :
    (openSigningKey gcm env' stored = .ok privKey ↔ ¬magicKey <+: privKey)
      ∧ (magicKey <+: privKey → openSigningKey gcm env' stored = .error .notSet) := by
  obtain ⟨-, rfl⟩ := sealSigningKey_legacy hkek hseal
  rw [← prefix_base64_iff]
  have hrefused : sealedKeyMagic <+: toBytes (Base64.encode privKey) →
      openSigningKey gcm env' (toBytes (Base64.encode privKey)) = .error .notSet := by
    intro hmagic
    rw [openSigningKey, if_pos hmagic, hkek']
  refine ⟨⟨?_, ?_⟩, hrefused⟩
  · intro hopen hmagic
    rw [hrefused hmagic] at hopen
    cases hopen
  · intro hplain
    rw [openSigningKey, if_neg hplain, decode_stored]

/-- Development, and production with a key of 32 zero bytes. -/
def sampleDevelopment : Env := ⟨[], false⟩

def sampleProduction : Env := ⟨Base64.encode (zeros 32), true⟩

theorem jwtKEK_sampleProduction : jwtKEK sampleProduction = .ok (some (zeroVec 32)) := by
  have hset : sampleProduction.jwtKeyEncryptionKey ≠ [] := by decide
  have hdecode : Base64.decodeStrict sampleProduction.jwtKeyEncryptionKey = some (zeros 32) :=
    Base64.decodeStrict_encode (zeros 32)
  rw [jwtKEK, if_neg hset, hdecode]
  rfl

/-- A key stored in development is read in production, and one stored in
production in production. -/
theorem openSigningKey_sealSigningKey_sample :
    openSigningKey (transparentAead 12) sampleProduction (toBytes (Base64.encode [7, 7, 7, 7]))
        = .ok [7, 7, 7, 7]
      ∧ openSigningKey (transparentAead 12) sampleProduction
          (sealedKeyMagic ++ zeros 12 ++ ([0x25, 0x62, 0xb5, 7] ++ zeros 16))
        = .ok [0x25, 0x62, 0xb5, 7] := by
  have hseal : sealSigningKey (transparentAead 12) sampleProduction (zeroVec 12)
      [0x25, 0x62, 0xb5, 7]
      = .ok (sealedKeyMagic ++ zeros 12 ++ ([0x25, 0x62, 0xb5, 7] ++ zeros 16)) := by
    rw [sealSigningKey, jwtKEK_sampleProduction]
    rfl
  have hkept : Reads sampleProduction sampleProduction [0x25, 0x62, 0xb5, 7] := by
    rw [Reads, jwtKEK_sampleProduction]
  have hplain : Reads sampleDevelopment sampleProduction [7, 7, 7, 7] := by
    show ¬magicKey <+: [7, 7, 7, 7]
    decide
  exact ⟨openSigningKey_sealSigningKey (transparentAead_correct 12) sampleDevelopment
      sampleProduction (zeroVec 12) [7, 7, 7, 7] rfl hplain,
    openSigningKey_sealSigningKey (transparentAead_correct 12) sampleProduction sampleProduction
      (zeroVec 12) _ hseal hkept⟩

/-- The process that has stored the key cannot read it. -/
theorem openSigningKey_legacy_iff_sample :
    openSigningKey (transparentAead 12) sampleDevelopment
        (toBytes (Base64.encode [0x25, 0x62, 0xb5, 7])) = .error .notSet :=
  (openSigningKey_legacy_iff sampleDevelopment sampleDevelopment (zeroVec 12)
    [0x25, 0x62, 0xb5, 7] rfl rfl rfl).2 ⟨[7], rfl⟩

end UsbVault.KeyAtRest
