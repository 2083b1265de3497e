import UsbVault.Lib.Bytes
import UsbVault.Srp.Client

/-!
# Server

`internal/auth/srp.go`: the SRP-6a server, from the user's row to the
challenge (`HandleSRPInit`) and from the stored session and the client's
proof to the server's proof (`HandleSRPVerify`). The lookups around them
(database, Redis, lockout, session age, token issue) are not part of it.
`big.Int` values cross into the session and the requests as base-10
strings, digests as lower-case hex.
-/

namespace UsbVault.Srp

open Wire ModPow

variable (sha256 : Bytes → ByteVec 32) (G : Group)

/-! ## Strings -/

/-- `(*big.Int).String` of a natural. -/
def bigIntString (n : Nat) : String := n.repr

/-- The value of a string of decimal digits. -/
def decimalDigits (ds : List Char) : Option Nat :=
  if ds ≠ [] ∧ ds.all Char.isDigit then some (Nat.ofDigitChars 10 ds 0) else none

/-- `(*big.Int).SetString(s, 10)`: an optional sign, then digits. -/
def setString10 (s : String) : Option Int :=
  match s.toList with
  | '-' :: ds => (decimalDigits ds).map fun n => -(n : Int)
  | '+' :: ds => (decimalDigits ds).map Int.ofNat
  | ds => (decimalDigits ds).map Int.ofNat

def hexDigit (n : Nat) : Char := Nat.digitChar n

/-- `hex.EncodeToString`. -/
def hexEncode (bs : Bytes) : String :=
  .ofList (bs.flatMap fun b => [hexDigit (b.toNat / 16), hexDigit (b.toNat % 16)])

/-! ## Hash inputs -/

def srpPadLen : Nat := 384

/-- `padBigInt`: right-aligned in `srpPadLen` zero bytes, or the low
bytes of an oversized number. -/
def padBigInt (x : Nat) : Bytes :=
  let xb := beBytes x
  if xb.length ≤ srpPadLen then zeros (srpPadLen - xb.length) ++ xb
  else xb.drop (xb.length - srpPadLen)

def computeSRPk : Nat :=
  beNat (sha256 (padBigInt G.N ++ padBigInt G.g)).toList

/-- The number behind `state.B`. (`Bytes` of a `big.Int` ignores its
sign.) -/
def parseB (bStr : String) : Nat := ((setString10 bStr).getD 0).natAbs

def computeSRPu (A : Nat) (bStr : String) : Nat :=
  beNat (sha256 (padBigInt A ++ padBigInt (parseB bStr))).toList

def computeSRPProofM1 (A : Nat) (bStr : String) (K : Bytes) : ByteVec 32 :=
  sha256 (padBigInt A ++ padBigInt (parseB bStr) ++ K)

def computeSRPProofM2 (A : Nat) (M1 K : Bytes) : ByteVec 32 :=
  sha256 (padBigInt A ++ M1 ++ K)

/-! ## The handlers -/

/-- `http.Error`. -/
structure HttpError where
  text : String
  status : Nat
  deriving DecidableEq

/-- The columns `HandleSRPInit` reads. -/
structure UserRow where
  userID : String
  emailHash : String
  srpSalt : Bytes
  srpVerifier : Bytes

/-- `srpServerState`, the fields the verification reads. -/
structure SrpServerState where
  B : String
  bPrivate : String
  salt : Bytes
  srpVerifier : Bytes
  emailHash : String
  userID : String

def srpVerifierMinLen : Nat := 32
def srpVerifierMaxLen : Nat := 512

/-- `HandleSRPInit` for a known user, with the drawn `b`: the session
and the `B` of the response. -/
def handleSRPInit (user : UserRow) (b : Nat) :
    Except HttpError (SrpServerState × String) :=
  let k := computeSRPk sha256 G
  if user.srpVerifier.length < srpVerifierMinLen
      ∨ user.srpVerifier.length > srpVerifierMaxLen then
    .error ⟨"invalid credentials", 401⟩
  else
    let v := beNat user.srpVerifier
    let gb := modpow G.g b G.N
    let kv := k * v % G.N
    let B := (kv + gb) % G.N
    if B = 0 then .error ⟨"internal error", 500⟩
    else
      .ok ({ B := bigIntString B
             bPrivate := bigIntString b
             salt := user.srpSalt
             srpVerifier := user.srpVerifier
             emailHash := user.emailHash
             userID := user.userID }, bigIntString B)

/-- The required-field check on a session. -/
def SrpServerState.missingFields (state : SrpServerState) : Bool :=
  state.userID == "" || state.emailHash == "" || state.salt.length == 0
    || state.srpVerifier.length == 0 || state.B == "" || state.bPrivate == ""

/-- `S = (A * v^u)^b mod N`. -/
def sharedSecret (A v u b : Nat) : Nat :=
  let vu := modpow v u G.N
  let Avu := A * vu % G.N
  modpow Avu b G.N

/-- `HandleSRPVerify` on a session: the `M2` of the response, and the
session key it was computed from. -/
def handleSRPVerify (state : SrpServerState) (reqA reqM1 : String) :
    Except HttpError (String × ByteVec 32) :=
  if state.missingFields then .error ⟨"invalid session", 401⟩
  else
    match setString10 reqA with
    | none => .error ⟨"authentication failed", 401⟩
    | some A =>
      if A ≤ 0 ∨ A ≥ G.N then .error ⟨"authentication failed", 401⟩
      else
        let A := A.toNat
        let u := computeSRPu sha256 A state.B
        if u = 0 then .error ⟨"authentication failed", 401⟩
        else
          let v := beNat state.srpVerifier
          match setString10 state.bPrivate with
          | none => .error ⟨"invalid session", 401⟩
          | some b =>
            let S := sharedSecret G A v u b.toNat
            let K := sha256 (padBigInt S)
            let M1 := computeSRPProofM1 sha256 A state.B K.toList
            if reqM1 ≠ hexEncode M1.toList then
              .error ⟨"authentication failed", 401⟩
            else
              let M2 := computeSRPProofM2 sha256 A M1.toList K.toList
              .ok (hexEncode M2.toList, K)

end UsbVault.Srp
