import UsbVault.Srp.Server
import Mathlib.NumberTheory.LucasPrimality
import Mathlib.Tactic.NormNum.Prime
import Mathlib.Tactic.ReduceModChar

/-!
# Agreement

The client of `srp_client.rs` and the server of `srp.go` agree. The two
paddings give the same bytes, so every hash has the same input on both
sides; the decimal strings carry the numbers unchanged; and the two
formulas for the premaster secret are equal because `B` minus the
client's `k * g ^ x` is the server's `g ^ b`, a number the prime does not
divide, whose powers depend on the exponent modulo `N - 1` only.
-/

namespace UsbVault.Srp

open Wire ModPow

variable {sha256 : Bytes → ByteVec 32} {P : Primitives} {G : Group}

/-! ## The same bytes on both sides -/

/-- The leading zero byte of `to_bytes_be` of zero drowns in the
padding. -/
theorem pad_toBytesBe (n : Nat) : pad (toBytesBe n) = padBigInt n := by
  unfold toBytesBe
  split_ifs with h
  · have hzero : zeros 383 ++ [0] = zeros 384 := List.replicate_succ'.symm
    rw [h, padBigInt, beBytes_zero, pad, if_pos (by decide), if_pos (by decide)]
    show zeros 383 ++ [0] = zeros 384 ++ []
    rw [hzero, List.append_nil]
  · rfl

theorem K_eq : beNat (K sha256 G).toList = computeSRPk sha256 G := by
  rw [K, computeSRPk, pad_toBytesBe, pad_toBytesBe]

theorem beNat_toBytesBe (n : Nat) : beNat (toBytesBe n) = n := by
  unfold toBytesBe
  split_ifs with h
  · rw [h]
    rfl
  · exact beNat_beBytes n

theorem setString10_bigIntString (n : Nat) :
    setString10 (bigIntString n) = some (n : Int) := by
  have hdigits : decimalDigits (Nat.toDigits 10 n) = some n := by
    have hall : (Nat.toDigits 10 n).all Char.isDigit = true := by
      rw [List.all_eq_true]
      intro c hc
      exact Nat.isDigit_of_mem_toDigits (by decide) (by decide) hc
    rw [decimalDigits, if_pos ⟨Nat.toDigits_ne_nil, hall⟩,
      Nat.ofDigitChars_toDigits (by decide) (by decide)]
  rw [setString10, bigIntString, Nat.toList_repr]
  -- the first character is a digit, so no sign is read
  cases hds : Nat.toDigits 10 n with
  | nil => exact absurd hds Nat.toDigits_ne_nil
  | cons c ds =>
    have hc : c.isDigit = true :=
      Nat.isDigit_of_mem_toDigits (b := 10) (n := n) (by decide) (by decide)
        (by rw [hds]; exact List.mem_cons_self)
    rw [hds] at hdigits
    split
    · rename_i heq
      cases heq
      exact absurd hc (by decide)
    · rename_i heq
      cases heq
      exact absurd hc (by decide)
    · rw [hdigits]
      rfl

theorem parseB_bigIntString (n : Nat) : parseB (bigIntString n) = n := by
  rw [parseB, setString10_bigIntString]
  rfl

theorem scrambler_eq (A B : Nat) :
    scrambler sha256 A B = computeSRPu sha256 A (bigIntString B) := by
  rw [scrambler, computeSRPu, pad_toBytesBe, pad_toBytesBe, parseB_bigIntString]

/-! ## The premaster secret -/

theorem Group.pos (G : Group) : 0 < G.N := G.prime.pos

/-- The client's difference is the server's `g ^ b`. -/
theorem subMod_challenge (k x b : Nat) :
    ((subMod ((k * modpow G.g x G.N % G.N + modpow G.g b G.N) % G.N)
        (k * modpow G.g x G.N % G.N) G.N : Nat) : ZMod G.N)
      = (G.g : ZMod G.N) ^ b := by
  have hle : k * modpow G.g x G.N % G.N ≤ G.N :=
    Nat.le_of_lt (Nat.mod_lt _ G.pos)
  rw [cast_subMod hle, ZMod.natCast_mod, Nat.cast_add, ZMod.natCast_mod,
    cast_modpow, add_sub_cancel_left]

/-- **The two formulas for the premaster secret agree**: the client's
`(B - k g^x)^(a + u x)`, with its exponent reduced modulo `N - 1`, is the
server's `(A v^u)^b`. -/
theorem premaster_eq_sharedSecret (G : Group) (u x a b : Nat) :
    premaster sha256 G
        ((computeSRPk sha256 G * modpow G.g x G.N % G.N + modpow G.g b G.N) % G.N)
        u x a
      = sharedSecret G (modpow G.g a G.N) (modpow G.g x G.N) u b := by
  have hg : (G.g : ZMod G.N) ≠ 0 := cast_ne_zero G.generator
  have : Fact G.N.Prime := ⟨G.prime⟩
  apply eq_of_cast_eq (modpow_lt G.pos _ _) (modpow_lt G.pos _ _)
  simp only [K_eq, cast_modpow, ZMod.natCast_mod,
    Nat.cast_mul, subMod_challenge]
  rw [pow_exponent_mod G.prime (pow_ne_zero b hg)]
  have hexp : ((G.g : ZMod G.N) ^ b) ^ (a + u * x % (G.N - 1))
      = ((G.g : ZMod G.N) ^ b) ^ (a + u * x) := by
    rw [pow_add, pow_add, pow_exponent_mod G.prime (pow_ne_zero b hg)]
  rw [hexp, ← pow_mul (G.g : ZMod G.N) x u, ← pow_add, ← pow_mul, ← pow_mul,
    Nat.mul_comm x u, Nat.mul_comm b]

/-! ## What each step of the handshake returns -/

theorem computeVerifier_ok {client : SrpClient} {salt v : Bytes}
    (h : computeVerifier sha256 P G client salt = .ok v) :
    ∃ xBytes, deriveSrpX sha256 P salt client.username client.password
        = .ok xBytes
      ∧ v = toBytesBe (modpow G.g (beNat xBytes) G.N) := by
  unfold computeVerifier at h
  cases hx : deriveSrpX sha256 P salt client.username client.password with
  | error e => rw [hx] at h; cases h
  | ok xBytes =>
    rw [hx] at h
    cases h
    exact ⟨xBytes, rfl, rfl⟩

theorem startAuth_ok {client : SrpClient} {aBytes : ByteVec 32} {A : Bytes}
    {session : SrpClientSession} (h : startAuth G client aBytes = .ok (A, session)) :
    ∃ a, A = toBytesBe (modpow G.g a G.N) ∧ modpow G.g a G.N ≠ 0
      ∧ session = { publicKeyA := modpow G.g a G.N
                    username := client.username
                    privateKeyA := toBytesBe a
                    clientProofM1 := []
                    sessionKey := [] } := by
  unfold startAuth at h
  simp only at h
  generalize (if beNat aBytes.toList ≥ G.N then beNat aBytes.toList % (G.N - 1) + 1
    else beNat aBytes.toList) = a at h
  split_ifs at h with hsmall hweak
  cases h
  exact ⟨a, rfl, fun hzero => hweak (.inl hzero), rfl⟩

theorem handleSRPInit_ok {user : UserRow} {b : Nat} {state : SrpServerState}
    {respB : String}
    (h : handleSRPInit sha256 G user b = .ok (state, respB)) :
    ∃ B, B = (computeSRPk sha256 G * beNat user.srpVerifier % G.N
          + modpow G.g b G.N) % G.N
      ∧ B ≠ 0 ∧ respB = bigIntString B
      ∧ state = { B := bigIntString B
                  bPrivate := bigIntString b
                  salt := user.srpSalt
                  srpVerifier := user.srpVerifier
                  emailHash := user.emailHash
                  userID := user.userID } := by
  unfold handleSRPInit at h
  simp only at h
  split_ifs at h with hlen hzero
  cases h
  exact ⟨_, rfl, hzero, rfl, rfl⟩

theorem handleSRPVerify_ok {state : SrpServerState} {reqA reqM1 : String}
    {A b : Nat} {S : Nat} (hfields : state.missingFields = false)
    (hA : setString10 reqA = some (A : Int)) (hpos : A ≠ 0) (hlt : A < G.N)
    (hu : computeSRPu sha256 A state.B ≠ 0)
    (hb : state.bPrivate = bigIntString b)
    (hS : S = sharedSecret G A (beNat state.srpVerifier)
      (computeSRPu sha256 A state.B) b)
    (hM1 : reqM1 = hexEncode (computeSRPProofM1 sha256 A state.B
      (sha256 (padBigInt S)).toList).toList) :
    handleSRPVerify sha256 G state reqA reqM1
      = .ok (hexEncode (computeSRPProofM2 sha256 A
          (computeSRPProofM1 sha256 A state.B (sha256 (padBigInt S)).toList).toList
          (sha256 (padBigInt S)).toList).toList, sha256 (padBigInt S)) := by
  have hrange : ¬((A : Int) ≤ 0 ∨ (A : Int) ≥ (G.N : Int)) := by omega
  rw [handleSRPVerify, hfields, hA]
  simp only [Bool.false_eq_true, if_false, if_neg hrange, Int.toNat_natCast,
    if_neg hu, hb, setString10_bigIntString, ← hS, ← hM1, ne_eq,
    not_true_eq_false]

/-- The client's answer to an acceptable challenge, in the server's
terms. -/
theorem processChallenge_ok {session : SrpClientSession}
    {salt password serverB xBytes : Bytes} {B S : Nat} (hB : beNat serverB = B)
    (haccept : ¬(B = 0 ∨ B % G.N = 0))
    (hx : deriveSrpX sha256 P salt session.username password = .ok xBytes)
    (hS : premaster sha256 G B (scrambler sha256 session.publicKeyA B)
      (beNat xBytes) (beNat session.privateKeyA) = S) :
    processChallenge sha256 P G session salt password serverB
      = .ok ((computeSRPProofM1 sha256 session.publicKeyA (bigIntString B)
            (sha256 (padBigInt S)).toList).toList,
          (sha256 (padBigInt S)).toList,
          { session with
            clientProofM1 := (computeSRPProofM1 sha256 session.publicKeyA
              (bigIntString B) (sha256 (padBigInt S)).toList).toList
            sessionKey := (sha256 (padBigInt S)).toList }) := by
  rw [processChallenge, hB, if_neg haccept]
  simp only [hx, bind, Except.bind, hS, pad_toBytesBe, computeSRPProofM1,
    parseB_bigIntString]
  rfl

/-- The client accepts the server's proof over its own proof and key. -/
theorem verifyServer_ok (session : SrpClientSession) :
    verifyServer sha256 session (computeSRPProofM2 sha256 session.publicKeyA
      session.clientProofM1 session.sessionKey).toList = .ok () := by
  unfold verifyServer
  simp only [pad_toBytesBe, List.Vector.toList_length, ne_eq, not_true_eq_false,
    if_false, computeSRPProofM2, if_true]

/-! ## The handshake -/

/-- **Client and server agree**: for every prime `N` and generator it does
not divide, whoever registered the verifier of the password can log in
with it. When the checks of both sides on drawn values pass (`startAuth`
and `handleSRPInit` return, `u` is not zero) and the session is complete,
the client accepts the challenge, the premaster secrets and the session
keys are equal, the server accepts the client's `M1`, and the client
accepts the server's `M2`. The challenge reaches the client as bytes of
the number the response spells, and the request spells the client's
`A`. -/
theorem handshake_agrees {client : SrpClient} {salt v A : Bytes}
    {aBytes : ByteVec 32} {session : SrpClientSession} {b : Nat}
    {userID emailHash respB : String} {state : SrpServerState}
    (hregister : computeVerifier sha256 P G client salt = .ok v)
    (hstart : startAuth G client aBytes = .ok (A, session))
    (hinit : handleSRPInit sha256 G ⟨userID, emailHash, salt, v⟩ b
      = .ok (state, respB))
    (hfields : state.missingFields = false)
    (hu : computeSRPu sha256 (beNat A) state.B ≠ 0)
    {serverB : Bytes} (hserverB : setString10 respB = some (beNat serverB : Int))
    {reqA : String} (hreqA : setString10 reqA = some (beNat A : Int)) :
    ∃ xBytes m1 key session' m2 K,
      deriveSrpX sha256 P salt client.username client.password = .ok xBytes
      ∧ premaster sha256 G (beNat serverB)
          (scrambler sha256 session.publicKeyA (beNat serverB)) (beNat xBytes)
          (beNat session.privateKeyA)
        = sharedSecret G (beNat A) (beNat v)
          (computeSRPu sha256 (beNat A) state.B) b
      ∧ processChallenge sha256 P G session salt client.password serverB
        = .ok (m1, key, session')
      ∧ handleSRPVerify sha256 G state reqA (hexEncode m1) = .ok (hexEncode m2, K)
      ∧ key = K.toList
      ∧ verifyServer sha256 session' m2 = .ok () := by
  obtain ⟨xBytes, hx, rfl⟩ := computeVerifier_ok hregister
  obtain ⟨a, rfl, hA0, rfl⟩ := startAuth_ok hstart
  obtain ⟨B, hB, hB0, rfl, rfl⟩ := handleSRPInit_ok hinit
  rw [setString10_bigIntString] at hserverB
  have hserver : beNat serverB = B := by
    have := Option.some.inj hserverB
    omega
  simp only [beNat_toBytesBe] at hB hu hreqA ⊢
  -- `B` is below `N` and not zero, so the client accepts it
  have hBlt : B < G.N := by rw [hB]; exact Nat.mod_lt _ G.pos
  have haccept : ¬(B = 0 ∨ B % G.N = 0) := by
    rw [Nat.mod_eq_of_lt hBlt]
    omega
  have hsecret : premaster sha256 G B
      (computeSRPu sha256 (modpow G.g a G.N) (bigIntString B)) (beNat xBytes) a
      = sharedSecret G (modpow G.g a G.N) (modpow G.g (beNat xBytes) G.N)
        (computeSRPu sha256 (modpow G.g a G.N) (bigIntString B)) b := by
    rw [hB]
    exact premaster_eq_sharedSecret G _ _ _ _
  obtain ⟨S, hS⟩ : ∃ S, S = sharedSecret G (modpow G.g a G.N)
      (modpow G.g (beNat xBytes) G.N)
      (computeSRPu sha256 (modpow G.g a G.N) (bigIntString B)) b := ⟨_, rfl⟩
  have hverify := handleSRPVerify_ok hfields hreqA hA0
    (modpow_lt G.pos _ _) hu rfl (S := S) (by rw [beNat_toBytesBe]; exact hS) rfl
  have hclient : premaster sha256 G B (scrambler sha256 (modpow G.g a G.N) B)
      (beNat xBytes) (beNat (toBytesBe a)) = S := by
    rw [scrambler_eq, beNat_toBytesBe, hsecret, hS]
  rw [hserver, scrambler_eq]
  exact ⟨xBytes, _, _, _, _, _, hx, hsecret,
    processChallenge_ok hserver haccept hx hclient, hverify, rfl, verifyServer_ok _⟩

/-! ## A concrete handshake

The server asks for a verifier of at least 32 bytes, so the group needs a
prime of that size; a Proth prime has a short primality proof. -/

theorem samplePrime_prime : Nat.Prime (29 * 2 ^ 245 + 1) := by
  have hp : 29 * 2 ^ 245 + 1
      = 1639634076114340657853300080689428382687905056300574393136850554799551152129 :=
    rfl
  have hsub :
      1639634076114340657853300080689428382687905056300574393136850554799551152129 - 1
        = 29 * 2 ^ 245 := rfl
  rw [hp]
  -- 3 is a primitive root, and 29 and 2 are the prime factors of p - 1
  refine lucas_primality _ 3 ?_ fun q hq hdvd => ?_
  · norm_num only
    reduce_mod_char
  · rw [hsub] at hdvd
    rcases hq.dvd_mul.mp hdvd with h29 | h2
    · obtain rfl := (Nat.prime_dvd_prime_iff_eq hq (by norm_num)).mp h29
      norm_num only
      reduce_mod_char
      decide
    · obtain rfl :=
        (Nat.prime_dvd_prime_iff_eq hq Nat.prime_two).mp (hq.dvd_of_dvd_pow h2)
      norm_num only
      reduce_mod_char
      decide

def sampleGroup : Group where
  N := 29 * 2 ^ 245 + 1
  g := 2 ^ 248
  prime := samplePrime_prime
  generator := by norm_num

/-- The 32-byte big-endian one. -/
def oneVec : ByteVec 32 := ⟨zeros 31 ++ [1], rfl⟩

def samplePrimitives : Primitives :=
  { transparentPrimitives with
    argon2id := fun _ _ _ _ _ n => some (zeros (n - 1) ++ [1]) }

def sampleClient : SrpClient := ⟨"alice", [1, 2, 3]⟩

/-- The client's session for the private key 2. -/
def sampleSession : SrpClientSession where
  publicKeyA := modpow sampleGroup.g 2 sampleGroup.N
  username := "alice"
  privateKeyA := toBytesBe 2
  clientProofM1 := []
  sessionKey := []

/-- The server's session for the private key 1. -/
def sampleState : SrpServerState where
  B := bigIntString (2 ^ 249)
  bPrivate := bigIntString 1
  salt := [7]
  srpVerifier := toBytesBe (2 ^ 248)
  emailHash := "e"
  userID := "u"

theorem sampleVerifier_length : (toBytesBe (2 ^ 248)).length = 32 := by
  have hlog : Nat.log 256 (2 ^ 248) = 31 :=
    Nat.log_eq_of_pow_le_of_lt_pow (by norm_num) (by norm_num)
  rw [toBytesBe, if_neg (by norm_num), beBytes, List.length_reverse,
    List.length_map, Nat.length_digits 256 _ (by norm_num) (by norm_num), hlog]

theorem sample_register : computeVerifier (fun _ => oneVec) samplePrimitives
    sampleGroup sampleClient [7] = .ok (toBytesBe (2 ^ 248)) := rfl

theorem sample_start : startAuth sampleGroup sampleClient
    ⟨zeros 31 ++ [2], rfl⟩
      = .ok (toBytesBe sampleSession.publicKeyA, sampleSession) := rfl

theorem sample_init : handleSRPInit (fun _ => oneVec) sampleGroup
    ⟨"u", "e", [7], toBytesBe (2 ^ 248)⟩ 1
      = .ok (sampleState, bigIntString (2 ^ 249)) := by
  have hlen : ¬((toBytesBe (2 ^ 248)).length < srpVerifierMinLen
      ∨ (toBytesBe (2 ^ 248)).length > srpVerifierMaxLen) := by
    rw [sampleVerifier_length]
    decide
  have hB : (computeSRPk (fun _ => oneVec) sampleGroup * 2 ^ 248 % sampleGroup.N
      + modpow sampleGroup.g 1 sampleGroup.N) % sampleGroup.N = 2 ^ 249 := rfl
  have hB0 : ¬(2 : Nat) ^ 249 = 0 := by norm_num
  unfold handleSRPInit
  simp only [if_neg hlen, beNat_toBytesBe, hB, if_neg hB0]
  rfl

theorem sample_fields : sampleState.missingFields = false := by
  have hB : sampleState.B ≠ "" := Nat.repr_ne_empty
  have hb : sampleState.bPrivate ≠ "" := Nat.repr_ne_empty
  have hv : sampleState.srpVerifier.length ≠ 0 := by
    rw [show sampleState.srpVerifier.length = 32 from sampleVerifier_length]
    decide
  simp only [SrpServerState.missingFields, beq_eq_false_iff_ne.mpr hB,
    beq_eq_false_iff_ne.mpr hb, beq_eq_false_iff_ne.mpr hv]
  rfl

/-- A registered user logs in. -/
theorem handshake_agrees_sample : ∃ m1 key session' m2 K,
    processChallenge (fun _ => oneVec) samplePrimitives sampleGroup sampleSession
        [7] [1, 2, 3] (toBytesBe (2 ^ 249)) = .ok (m1, key, session')
    ∧ handleSRPVerify (fun _ => oneVec) sampleGroup sampleState
        (bigIntString sampleSession.publicKeyA) (hexEncode m1)
      = .ok (hexEncode m2, K)
    ∧ key = K.toList
    ∧ verifyServer (fun _ => oneVec) session' m2 = .ok () := by
  have hB : setString10 (bigIntString (2 ^ 249))
      = some (beNat (toBytesBe (2 ^ 249)) : Int) := by
    rw [beNat_toBytesBe, setString10_bigIntString]
  have hA : setString10 (bigIntString sampleSession.publicKeyA)
      = some (beNat (toBytesBe sampleSession.publicKeyA) : Int) := by
    rw [beNat_toBytesBe, setString10_bigIntString]
  obtain ⟨-, m1, key, session', m2, K, -, -, hprocess, hverify, hkey, hserver⟩ :=
    handshake_agrees sample_register sample_start sample_init sample_fields
      (show (1 : Nat) ≠ 0 by decide) hB hA
  exact ⟨m1, key, session', m2, K, hprocess, hverify, hkey, hserver⟩

end UsbVault.Srp
