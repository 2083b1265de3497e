import UsbVault.App.SrpClient
import UsbVault.Srp.Agreement

/-!
# Two implementations of the SRP client

The app's `crypto/srpClient.ts` against `srp_client.rs`. The core reduces its
exponent modulo `N - 1`, the app does not reduce it. For a modulus above
`2 ^ 512` the exponent `a + u * x` of three 256-bit numbers is below `N - 1`,
so that the reduction changes nothing (`exponent_lt`); the modulus of the
source is (`N_large`).
-/

namespace UsbVault.App.SrpClient

open Wire ModPow

variable {sha256 : Bytes → ByteVec 32} {P : Primitives} {G : Srp.Group}

/-! ## The modulus -/

/-- `N_HEX`, line by line. -/
def N_HEX : List Nat :=
  [0xFFFFFFFFFFFFFFFFADF85458A2BB4A9AAFDC5620273D3CF1,
    0xD8B9C583CE2D3695A9E13641146433FBCC939DCE249B3EF9,
    0x7D2FE363630C75D8F681B202AEC4617AD3DF1ED5D5FD6561,
    0x2433F51F5F066ED0856365553DED1AF3B557135E7F57C935,
    0x984F0C70E0E68B77E2A689DAF3EFE8721DF158A136ADE735,
    0x30ACCA4F483A797ABC0AB182B324FB61D108A94BB2C8E3FB,
    0xB96ADAB760D7F4681D4F42A3DE394DF4AE56EDE76372BB19,
    0x0B07A7C8EE0A6D709E02FCE1CDF7E2ECC03404CD28342F61,
    0x9172FE9CE98583FF8E4F1232EEF28183C3FE3B1B4C6FAD73,
    0x3BB5FCBC2EC22005C58EF1837D1683B2C6F34A26C1B2EFFA,
    0x886B4238611FCFDCDE355B3B6519035BBC34F4DEF99C0238,
    0x61B46FC9D6E6C9077AD91D2691F7F7EE598CB0FAC186D91C,
    0xAEFE130985139270B4130C93BC437944F4FD4452E2D74DD3,
    0x64F2E21E71F54BFF5CAE82AB9C9DF69EE86D2BC522363A0D,
    0xABC521979B0DEADA1DBF9A42D5C4484E0ABCD06BFA53DDEF,
    0x3C1B20EE3FD59D7C25E41D2B66C62E37FFFFFFFFFFFFFFFF]

/-- `N` -/
def N : Nat := N_HEX.foldl (fun value line => value * 16 ^ 48 + line) 0

theorem N_large : 2 ^ 512 < N := by
  rw [pow_add 2 256 256]
  norm_num [N, N_HEX]

/-! ## The same numbers on both sides -/

theorem pad_eq_core (n : Nat) : pad n = Srp.pad (Srp.toBytesBe n) := by
  have haligned := rightAligned_eq PAD_LEN (Srp.toBytesBe n)
  rw [Srp.beNat_toBytesBe] at haligned
  rw [pad_eq]
  exact haligned.symm

theorem computeK_eq : computeK sha256 G.N G.g = beNat (Srp.K sha256 G).toList := by
  rw [computeK, bytesToBigInt_eq, pad_eq_core, pad_eq_core, Srp.K]

theorem modPow_nat (b e : Nat) : modPow b e G.N = modpow b e G.N := by
  rw [modPow_eq _ _ G.pos, ← Int.natCast_mod, Int.toNat_natCast, modpow, ← Nat.pow_mod]
  rfl

theorem subMod_eq {b kgx n : Nat} (hkgx : kgx ≤ n) :
    (((b : Int) - kgx) % n).toNat = subMod b kgx n := by
  rw [subMod]
  split_ifs with hge
  · rw [← Int.natCast_sub hge, ← Int.natCast_mod, Int.toNat_natCast]
  · have hsum : (b : Int) - kgx + n = ((b + n - kgx : Nat) : Int) := by omega
    rw [← Int.add_emod_right, hsum, ← Int.natCast_mod, Int.toNat_natCast]

/-- Three 256-bit numbers make no exponent that the core would reduce. -/
theorem exponent_lt {a u x : Nat} (hN : 2 ^ 512 < G.N) (ha : a < 2 ^ 256)
    (hu : u < 2 ^ 256) (hx : x < 2 ^ 256) : a + u * x < G.N - 1 := by
  have hprod : u * x ≤ (2 ^ 256 - 1) * (2 ^ 256 - 1) :=
    Nat.mul_le_mul (Nat.le_sub_one_of_lt hu) (Nat.le_sub_one_of_lt hx)
  have hbound : (2 ^ 256 - 1) * (2 ^ 256 - 1) + 2 ^ 256 ≤ 2 ^ 512 := by
    rw [pow_add 2 256 256]
    norm_num
  omega

theorem beNat_vec_lt (v : ByteVec 32) : beNat v.toList < 2 ^ 256 := by
  have hlt := leNat_lt v.toList.reverse
  rw [List.length_reverse, v.toList_length] at hlt
  exact hlt

/-- The core derives the bytes that the app's `x` is read from. -/
theorem deriveSrpX_core {salt x : Bytes} {username password : String}
    (hx : P.argon2id (encode password)
      (sha256 (encode "srp-verifier" ++ salt ++ encode username)).toList 65536 3 4 32
        = some x) (hlen : x.length = 32) :
    Srp.deriveSrpX sha256 P salt username (encode password) = .ok x := by
  have hdomain : ascii "srp-verifier" = encode "srp-verifier" := by decide +kernel
  have hparams : validateArgon2Params 65536 3 4 = .ok () := rfl
  have hkek : deriveKekWithParams P (encode password)
      (sha256 (encode "srp-verifier" ++ salt ++ encode username)).toList 65536 3 4
        = .ok ⟨x, hlen⟩ := by
    rw [deriveKekWithParams, if_neg (not_not.mpr (List.Vector.toList_length _)), hparams]
    have hcore := hx
    rw [show (4 : UInt32) = (4 : UInt8).toUInt32 from rfl] at hcore
    simp only [bind, Except.bind, hcore, hlen, Nat.lt_irrefl, dite_false]
    exact congrArg Except.ok (Subtype.ext (List.take_of_length_le hlen.le))
  rw [Srp.deriveSrpX, hdomain]
  show (deriveKekWithParams P (encode password)
    (sha256 (encode "srp-verifier" ++ salt ++ encode username)).toList 65536 3 4 >>= fun kek =>
      pure kek.toList) = _
  rw [hkek]
  rfl

/-- **The premaster secrets are equal.** -/
theorem premaster_eq {a u x : Nat} (b : Nat) (hN : 2 ^ 512 < G.N) (ha : a < 2 ^ 256)
    (hu : u < 2 ^ 256) (hx : x < 2 ^ 256) :
    modPow (((b : Int) - (computeK sha256 G.N G.g * modPow G.g x G.N % G.N : Nat)) % G.N)
        (a + u * x) G.N
      = Srp.premaster sha256 G b u x a := by
  have hexp := exponent_lt hN ha hu hx
  have hux : u * x % (G.N - 1) = u * x := Nat.mod_eq_of_lt (by omega)
  have hkgx : computeK sha256 G.N G.g * modPow G.g x G.N % G.N ≤ G.N :=
    (Nat.mod_lt _ G.pos).le
  simp only [Srp.premaster]
  rw [hux, Nat.mod_eq_of_lt hexp, modPow_eq _ _ G.pos, Int.emod_emod_of_dvd _ dvd_rfl,
    subMod_eq hkgx, computeK_eq, modPow_nat]

/-! ## The same answers -/

theorem foldl_or_eq_zero (f : Nat → UInt8) (is : List Nat) (diff : UInt8) :
    is.foldl (fun diff i => diff ||| f i) diff = 0 ↔ diff = 0 ∧ ∀ i ∈ is, f i = 0 := by
  induction is generalizing diff with
  | nil => simp
  | cons i is ih =>
    rw [List.foldl_cons, ih, UInt8.or_eq_zero_iff]
    simp [and_assoc]

theorem verifyServerM2_iff {A : Nat} {M1 K serverM2 : Bytes} :
    verifyServerM2 sha256 A M1 K serverM2 = true
      ↔ (sha256 (pad A ++ M1 ++ K)).toList = serverM2 := by
  have hlen : (sha256 (pad A ++ M1 ++ K)).toList.length = 32 := List.Vector.toList_length _
  generalize hexp : (sha256 (pad A ++ M1 ++ K)).toList = expected at hlen
  rw [verifyServerM2, hexp]
  by_cases h32 : serverM2.length = 32
  · rw [if_neg (not_not.mpr h32)]
    simp only [decide_eq_true_eq, foldl_or_eq_zero, true_and, List.mem_range,
      UInt8.xor_eq_zero_iff]
    constructor
    · intro h
      refine List.ext_getElem (hlen.trans h32.symm) fun i hi hi' => ?_
      simpa [hi, hi'] using h i (by omega)
    · rintro rfl i _
      rfl
  · rw [if_pos h32]
    constructor
    · intro h
      cases h
    · rintro rfl
      exact absurd hlen h32

theorem verifyServer_iff {session : Srp.SrpClientSession} {serverM2 : Bytes} :
    Srp.verifyServer sha256 session serverM2 = .ok ()
      ↔ verifyServerM2 sha256 session.publicKeyA session.clientProofM1 session.sessionKey
        serverM2 = true := by
  rw [verifyServerM2_iff, Srp.verifyServer, ← pad_eq_core]
  split_ifs with hlen heq
  · refine iff_of_false (by simp) ?_
    rintro rfl
    exact hlen (List.Vector.toList_length _)
  · exact iff_of_true rfl heq
  · exact iff_of_false (by simp) heq

/-- The app's answer to a challenge that it does not reject, in the core's
terms. -/
theorem processChallenge_eq {a x : Nat} {serverB : Bytes} (hN : 2 ^ 512 < G.N)
    (ha : a < 2 ^ 256) (hx : x < 2 ^ 256)
    (hB : ¬(beNat serverB = 0 ∨ beNat serverB % G.N = 0)) {A : Nat}
    (hA : A = modpow G.g a G.N) {S : Nat}
    (hS : S = Srp.premaster sha256 G (beNat serverB)
      (Srp.scrambler sha256 A (beNat serverB)) x a) :
    processChallenge sha256 G.N G.g a x (bytesToBigInt serverB)
      = .ok ⟨S, (sha256 (pad S)).toList,
          (sha256 (pad A ++ pad (beNat serverB) ++ (sha256 (pad S)).toList)).toList⟩ := by
  have hu : bytesToBigInt (sha256 (pad A ++ pad (beNat serverB))).toList
      = Srp.scrambler sha256 A (beNat serverB) := by
    rw [bytesToBigInt_eq, pad_eq_core, pad_eq_core, Srp.scrambler]
  have hult : Srp.scrambler sha256 A (beNat serverB) < 2 ^ 256 := beNat_vec_lt _
  have hpublic : computePublicA G.N G.g a = A := by rw [computePublicA, modPow_nat, hA]
  rw [processChallenge, bytesToBigInt_eq, if_neg hB]
  simp only [hpublic, hu, tmod_normalised _ G.pos, premaster_eq _ hN ha hult hx, ← hS]

/-- **The two clients agree**: with the same 256-bit ephemeral and the same
Argon2id output they reject the same `B`, and otherwise compute the same
premaster secret, session key and proof, and accept the same server proofs. -/
theorem srp_clients_agree (hN : 2 ^ 512 < G.N) {session : Srp.SrpClientSession} {a : Nat}
    (ha : a < 2 ^ 256) (hprivate : beNat session.privateKeyA = a)
    (hpublic : session.publicKeyA = modpow G.g a G.N) {salt output : Bytes}
    {password : String}
    (houtput : P.argon2id (encode password)
      (sha256 (encode "srp-verifier" ++ salt ++ encode session.username)).toList
        65536 3 4 32 = some output)
    (hlen : output.length = 32) (serverB : Bytes) :
    ∃ x, deriveSrpX sha256 P salt session.username password = some x
      ∧ ((∃ e, processChallenge sha256 G.N G.g a x (bytesToBigInt serverB) = .error e)
        ↔ ∃ e, Srp.processChallenge sha256 P G session salt (encode password) serverB
          = .error e)
      ∧ ∀ result, processChallenge sha256 G.N G.g a x (bytesToBigInt serverB) = .ok result →
        result.S = Srp.premaster sha256 G (beNat serverB)
          (Srp.scrambler sha256 session.publicKeyA (beNat serverB)) (beNat output) a
        ∧ ∃ session',
          Srp.processChallenge sha256 P G session salt (encode password) serverB
            = .ok (result.M1, result.K, session')
          ∧ ∀ serverM2, verifyServerM2 sha256 (computePublicA G.N G.g a) result.M1 result.K
              serverM2 = true
            ↔ Srp.verifyServer sha256 session' serverM2 = .ok () := by
  have hx : deriveSrpX sha256 P salt session.username password = some (beNat output) := by
    have hempty : output.length ≠ 0 := by omega
    have hvalue := bytesToBigInt_eq output
    rw [bytesToBigInt, if_neg hempty] at hvalue
    rw [deriveSrpX, houtput, Option.map_some, hvalue]
  have hxlt : beNat output < 2 ^ 256 := beNat_vec_lt ⟨output, hlen⟩
  have hderive := deriveSrpX_core houtput hlen
  refine ⟨_, hx, ?_⟩
  by_cases hB : beNat serverB = 0 ∨ beNat serverB % G.N = 0
  · -- both reject
    have happ : processChallenge sha256 G.N G.g a (beNat output) (bytesToBigInt serverB)
        = .error "Invalid server public key B" := by
      rw [processChallenge, bytesToBigInt_eq, if_pos hB]
    have hcore : Srp.processChallenge sha256 P G session salt (encode password) serverB
        = .error (.srpError "Invalid server public key B") := by
      rw [Srp.processChallenge, if_pos hB]
    rw [happ, hcore]
    simp
  · let S := Srp.premaster sha256 G (beNat serverB)
      (Srp.scrambler sha256 session.publicKeyA (beNat serverB)) (beNat output) a
    let K := (sha256 (pad S)).toList
    let M1 := (sha256 (pad session.publicKeyA ++ pad (beNat serverB) ++ K)).toList
    have happ : processChallenge sha256 G.N G.g a (beNat output) (bytesToBigInt serverB)
        = .ok ⟨S, K, M1⟩ := processChallenge_eq hN ha hxlt hB hpublic rfl
    have hcore : Srp.processChallenge sha256 P G session salt (encode password) serverB
        = .ok (M1, K, { session with clientProofM1 := M1, sessionKey := K }) := by
      rw [Srp.processChallenge, if_neg hB, hderive, hprivate]
      simp only [← pad_eq_core]
      rfl
    have hA : computePublicA G.N G.g a = session.publicKeyA := by
      rw [computePublicA, modPow_nat, hpublic]
    rw [happ, hcore]
    refine ⟨by simp, ?_⟩
    rintro result ⟨⟩
    exact ⟨rfl, _, rfl, fun serverM2 => by rw [hA, verifyServer_iff]⟩

/-! ## A concrete exchange

A Proth prime above `2 ^ 512` has a short primality proof. -/

/-- `3 * 2 ^ 534 + 1` -/
def largePrime : Nat := 3 * (2 ^ 178) ^ 3 + 1

theorem largePrime_sub_one : largePrime - 1 = 3 * 2 ^ 534 := by
  rw [largePrime, Nat.add_sub_cancel, ← pow_mul]

/-- Repeated squaring, modulo `n`. -/
theorem cast_iterate_square (n b k : Nat) :
    (((fun y => y * y % n)^[k] b : Nat) : ZMod n) = (b : ZMod n) ^ 2 ^ k := by
  induction k with
  | zero => simp
  | succ k ih =>
    rw [Function.iterate_succ_apply', ZMod.natCast_mod, Nat.cast_mul, ih, pow_succ 2,
      pow_mul, pow_two]

theorem pow_eq_one_iff {b k : Nat} (h : (fun y => y * y % largePrime)^[k] b < largePrime) :
    (b : ZMod largePrime) ^ 2 ^ k = 1 ↔ (fun y => y * y % largePrime)^[k] b = 1 := by
  have hone : 1 < largePrime := by norm_num [largePrime]
  rw [← cast_iterate_square]
  constructor
  · intro heq
    exact eq_of_cast_eq h hone (heq.trans Nat.cast_one.symm)
  · intro heq
    rw [heq, Nat.cast_one]

theorem largePrime_prime : Nat.Prime largePrime := by
  have hcube : (5 : ZMod largePrime) ^ 3 = ((125 : Nat) : ZMod largePrime) := by
    norm_num
  have hall : (5 : ZMod largePrime) ^ (largePrime - 1) = 1 := by
    rw [largePrime_sub_one, pow_mul, hcube, pow_eq_one_iff (by decide +kernel)]
    decide +kernel
  -- 5 is a primitive root, and 3 and 2 are the prime factors of p - 1
  refine lucas_primality _ 5 hall fun q hq hdvd => ?_
  rw [largePrime_sub_one] at hdvd ⊢
  rcases hq.dvd_mul.mp hdvd with h3 | h2
  · obtain rfl := (Nat.prime_dvd_prime_iff_eq hq Nat.prime_three).mp h3
    have hthird := pow_eq_one_iff (b := 5) (k := 534) (by decide +kernel)
    rw [Nat.mul_div_cancel_left _ (by decide)]
    exact fun h => absurd (hthird.mp h) (by decide +kernel)
  · obtain rfl :=
      (Nat.prime_dvd_prime_iff_eq hq Nat.prime_two).mp (hq.dvd_of_dvd_pow h2)
    have hhalf := pow_eq_one_iff (b := 125) (k := 533) (by decide +kernel)
    have hexp : 3 * 2 ^ 534 / 2 = 3 * 2 ^ 533 := by
      rw [pow_succ 2 533, ← mul_assoc, Nat.mul_div_cancel _ Nat.two_pos]
    rw [hexp, pow_mul, hcube]
    exact fun h => absurd (hhalf.mp h) (by decide +kernel)

def largeGroup : Srp.Group where
  N := largePrime
  g := 2
  prime := largePrime_prime
  generator := by decide +kernel

/-- A session for the private key 2. -/
def largeSession : Srp.SrpClientSession where
  publicKeyA := modpow largeGroup.g 2 largeGroup.N
  username := "alice"
  privateKeyA := [2]
  clientProofM1 := []
  sessionKey := []

/-- Both clients answer the challenge 9 alike. -/
theorem srp_clients_agree_sample : ∃ x result session',
    deriveSrpX (fun _ => Srp.oneVec) Srp.samplePrimitives [7] "alice" "secret" = some x
    ∧ processChallenge (fun _ => Srp.oneVec) largeGroup.N largeGroup.g 2 x (bytesToBigInt [9])
      = .ok result
    ∧ Srp.processChallenge (fun _ => Srp.oneVec) Srp.samplePrimitives largeGroup largeSession
        [7] (encode "secret") [9] = .ok (result.M1, result.K, session')
    ∧ ∀ serverM2, verifyServerM2 (fun _ => Srp.oneVec)
        (computePublicA largeGroup.N largeGroup.g 2) result.M1 result.K serverM2 = true
      ↔ Srp.verifyServer (fun _ => Srp.oneVec) session' serverM2 = .ok () := by
  obtain ⟨x, hx, hreject, hagree⟩ := @srp_clients_agree (fun _ => Srp.oneVec)
    Srp.samplePrimitives largeGroup (by decide +kernel) largeSession 2 (by decide) rfl rfl [7] _
    "secret" rfl rfl [9]
  have haccept : ¬∃ e, Srp.processChallenge (fun _ => Srp.oneVec) Srp.samplePrimitives
      largeGroup largeSession [7] (encode "secret") [9] = .error e := by
    have hB : ¬(beNat [9] = 0 ∨ beNat [9] % largeGroup.N = 0) := by decide +kernel
    rintro ⟨e, he⟩
    rw [Srp.processChallenge, if_neg hB] at he
    cases he
  cases hresult : processChallenge (fun _ => Srp.oneVec) largeGroup.N largeGroup.g 2 x
      (bytesToBigInt [9]) with
  | error e => exact absurd (hreject.mp ⟨e, hresult⟩) haccept
  | ok result =>
    obtain ⟨-, session', hcore, hverify⟩ := hagree result hresult
    exact ⟨x, result, session', hx, hresult, hcore, hverify⟩

end UsbVault.App.SrpClient
