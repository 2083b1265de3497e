import UsbVault.Crypto.Kdf
import UsbVault.Lib.ModPow

/-!
# Client

`srp_client.rs`: the SRP-6a client. Big integers are naturals,
`to_bytes_be` and `from_bytes_be` are the big-endian encodings, SHA-256
is a parameter, Argon2id comes with the primitives. The 32 random bytes
`start_auth` draws are an argument of it.
-/

namespace UsbVault.Srp

open Wire ModPow

/-- `srp_params`: a prime modulus and a generator it does not divide. -/
structure Group where
  N : Nat
  g : Nat
  prime : N.Prime
  generator : ¬N ∣ g

variable (sha256 : Bytes → ByteVec 32) (P : Primitives) (G : Group)

/-! ## Parameters and padding -/

def PAD_LEN : Nat := 384

/-- `pad`: left-zero-padded to `PAD_LEN` bytes, or the low `PAD_LEN`
bytes of an oversized input. -/
def pad (bytes : Bytes) : Bytes :=
  if bytes.length ≤ PAD_LEN then zeros (PAD_LEN - bytes.length) ++ bytes
  else bytes.drop (bytes.length - PAD_LEN)

/-- `BigUint::to_bytes_be`: zero is one zero byte. -/
def toBytesBe (n : Nat) : Bytes := if n = 0 then [0] else beBytes n

/-- `srp_params::K`. -/
def K : ByteVec 32 := sha256 (pad (toBytesBe G.N) ++ pad (toBytesBe G.g))

/-! ## The client -/

/-- `SrpClient`, as far as the handshake reads it. -/
structure SrpClient where
  username : String
  password : Bytes

/-- `SrpClientSession`. -/
structure SrpClientSession where
  publicKeyA : Nat
  username : String
  privateKeyA : Bytes
  clientProofM1 : Bytes
  sessionKey : Bytes

/-- `derive_srp_x`. -/
def deriveSrpX (salt : Bytes) (username : String) (password : Bytes) :
    Result Bytes := do
  let srpSalt := sha256 (ascii "srp-verifier" ++ salt
    ++ username.toUTF8.toList)
  let kek ← deriveKekWithParams P password srpSalt.toList 65536 3 4
  return kek.toList

/-- `compute_verifier`. -/
def computeVerifier (client : SrpClient) (salt : Bytes) : Result Bytes := do
  let xBytes ← deriveSrpX sha256 P salt client.username client.password
  let x := beNat xBytes
  return toBytesBe (modpow G.g x G.N)

/-- `start_auth`, with the 32 bytes it draws: the public key and the
session. -/
def startAuth (client : SrpClient) (aBytes : ByteVec 32) :
    Result (Bytes × SrpClientSession) :=
  let drawn := beNat aBytes.toList
  let a := if drawn ≥ G.N then drawn % (G.N - 1) + 1 else drawn
  if a ≤ 1 then .error (.srpError "Ephemeral key 'a' out of valid range")
  else
    let publicA := modpow G.g a G.N
    if publicA = 0 ∨ publicA = 1 ∨ publicA % G.N = 0 then
      .error (.srpError "Computed public key A is weak or trivial")
    else
      .ok (toBytesBe publicA,
        { publicKeyA := publicA
          username := client.username
          privateKeyA := toBytesBe a
          clientProofM1 := []
          sessionKey := [] })

/-- `u` of `process_challenge`. -/
def scrambler (publicA b : Nat) : Nat :=
  beNat (sha256 (pad (toBytesBe publicA) ++ pad (toBytesBe b))).toList

/-- `s` of `process_challenge`: the premaster secret. -/
def premaster (b u x a : Nat) : Nat :=
  let k := beNat (K sha256 G).toList
  let gx := modpow G.g x G.N
  let kgx := k * gx % G.N
  let bMinusKgx := subMod b kgx G.N
  let ux := u * x % (G.N - 1)
  let exponent := (a + ux) % (G.N - 1)
  modpow bMinusKgx exponent G.N

/-- `process_challenge`: the proof, the session key and the session
that carries both. -/
def processChallenge (session : SrpClientSession) (salt password serverB : Bytes) :
    Result (Bytes × Bytes × SrpClientSession) :=
  let b := beNat serverB
  if b = 0 ∨ b % G.N = 0 then
    .error (.srpError "Invalid server public key B")
  else do
    let u := scrambler sha256 session.publicKeyA b
    let xBytes ← deriveSrpX sha256 P salt session.username password
    let x := beNat xBytes
    let a := beNat session.privateKeyA
    let s := premaster sha256 G b u x a
    let kSession := sha256 (pad (toBytesBe s))
    let m1 := sha256 (pad (toBytesBe session.publicKeyA) ++ pad (toBytesBe b)
      ++ kSession.toList)
    return (m1.toList, kSession.toList,
      { session with clientProofM1 := m1.toList, sessionKey := kSession.toList })

/-- `verify_server`. -/
def verifyServer (session : SrpClientSession) (serverM2 : Bytes) : Result Unit :=
  let expectedM2 := sha256 (pad (toBytesBe session.publicKeyA)
    ++ session.clientProofM1 ++ session.sessionKey)
  if serverM2.length ≠ 32 then
    .error (.srpError "Server proof verification failed")
  else if expectedM2.toList = serverM2 then .ok ()
  else .error (.srpError "Server proof verification failed")

end UsbVault.Srp
