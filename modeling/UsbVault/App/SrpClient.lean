import UsbVault.Crypto.Primitives
import UsbVault.Lib.JsonText
import UsbVault.Lib.ModPow

/-!
# The app's SRP client

`crypto/srpClient.ts`. A `bigint` is a natural number where it is never
negative, and an integer where it can be; `%` truncates towards zero. SHA-256
is a parameter, and so are the modulus and the generator, which the source
has as constants (`N_HEX`).

`pad_eq`, `modPow_eq` and `bytesToBigInt_eq` say what the helpers compute:
384 big-endian bytes, a modular power, and the number behind bytes.
-/

namespace UsbVault.App.SrpClient

open Wire JsonText

/-! ## Hex and bytes -/

/-- `value.toString(16)`, of a number that is not negative. -/
def toString16 (value : Nat) : List Char :=
  if value = 0 then ['0'] else (Nat.digits 16 value).reverse.map hexDigit

/-- `text.padStart(2, '0')` -/
def padStart2 (text : List Char) : List Char :=
  List.replicate (2 - text.length) '0' ++ text

/-- `parseInt(text, 16)` and `BigInt('0x' + text)`, of hexadecimal digits. -/
def parse16 (text : List Char) : Nat :=
  text.foldl (fun total c => 16 * total + (hexValue c).getD 0) 0

def bytesToHex (bytes : Bytes) : List Char :=
  bytes.foldl (fun out b => out ++ padStart2 (toString16 b.toNat)) []

/-- The loop of `hexToBytes`, two characters a round. -/
def pairsToBytes : List Char → Bytes
  | c :: d :: rest => UInt8.ofNat (parse16 [c, d]) :: pairsToBytes rest
  | _ => []

def hexToBytes (hex : List Char) : Bytes :=
  pairsToBytes (if hex.length % 2 = 0 then hex else '0' :: hex)

def bigIntToBytes (value : Nat) : Bytes :=
  if value = 0 then [0]
  else
    let hex := toString16 value
    hexToBytes (if hex.length % 2 ≠ 0 then '0' :: hex else hex)

def bytesToBigInt (bytes : Bytes) : Nat :=
  if bytes.length = 0 then 0 else parse16 (bytesToHex bytes)

def PAD_LEN : Nat := 384

/-- `pad`: `set` at an offset overwrites the zeros behind it. -/
def pad (value : Nat) : Bytes :=
  let bytes := bigIntToBytes value
  if bytes.length ≤ PAD_LEN then zeros (PAD_LEN - bytes.length) ++ bytes
  else bytes.drop (bytes.length - PAD_LEN)

/-! ## Modular exponentiation -/

/-- `while (e > 0n)`, with `result` and `b`. -/
def modPowLoop (mod e result b : Nat) : Nat :=
  if _h : e > 0 then
    modPowLoop mod (e / 2) (if e % 2 = 1 then result * b % mod else result) (b * b % mod)
  else result
termination_by e

/-- `modPow`. After its second step `b` is not negative. -/
def modPow (base : Int) (exp mod : Nat) : Nat :=
  if mod = 1 then 0
  else
    let b := base.tmod mod
    let b := if b < 0 then b + mod else b
    modPowLoop mod exp 1 b.toNat

/-! ## The client -/

section

variable (sha256 : Bytes → ByteVec 32) (P : Primitives) (N g : Nat)

def computeK : Nat := bytesToBigInt (sha256 (pad N ++ pad g)).toList

/-- The bytes of a `TextEncoder`. -/
def encode (text : String) : Bytes := text.toUTF8.toList

/-- `deriveSrpX`; `none` where `argon2id` throws. -/
def deriveSrpX (salt : Bytes) (username password : String) : Option Nat :=
  let srpSalt := sha256 (encode "srp-verifier" ++ salt ++ encode username)
  (P.argon2id (encode password) srpSalt.toList 65536 3 4 32).map fun x =>
    parse16 (bytesToHex x)

def computePublicA (a : Nat) : Nat := modPow g a N

structure SrpChallengeResult where
  S : Nat
  K : Bytes
  M1 : Bytes

/-- `processChallenge` -/
def processChallenge (a x B : Nat) : Except String SrpChallengeResult :=
  if B = 0 ∨ B % N = 0 then .error "Invalid server public key B"
  else
    let A := computePublicA N g a
    let k := computeK sha256 N g
    let u := bytesToBigInt (sha256 (pad A ++ pad B)).toList
    let gx := modPow g x N
    let kgx := k * gx % N
    let base := ((B : Int) - kgx).tmod N
    let base := if base < 0 then base + N else base
    let exponent := a + u * x
    let S := modPow base exponent N
    let K := sha256 (pad S)
    let M1 := sha256 (pad A ++ pad B ++ K.toList)
    .ok { S, K := K.toList, M1 := M1.toList }

/-- `verifyServerM2` -/
def verifyServerM2 (A : Nat) (M1 K serverM2 : Bytes) : Bool :=
  if serverM2.length ≠ 32 then false
  else
    let expected := (sha256 (pad A ++ M1 ++ K)).toList
    let diff := (List.range 32).foldl
      (fun diff i => diff ||| (expected.getD i 0 ^^^ serverM2.getD i 0)) (0 : UInt8)
    diff = 0

end

/-! ## What the helpers compute -/

theorem parse16_append (xs ys : List Char) :
    parse16 (xs ++ ys) = parse16 xs * 16 ^ ys.length + parse16 ys := by
  induction ys using List.reverseRecOn with
  | nil => simp [parse16]
  | append_singleton ys c ih =>
    have hlast : ∀ text, parse16 (text ++ [c])
        = 16 * parse16 text + (hexValue c).getD 0 := by
      simp [parse16]
    rw [← List.append_assoc, hlast, hlast, ih, List.length_append, pow_add]
    simp only [List.length_singleton, pow_one]
    ring

theorem parse16_digits {ds : List Nat} (h : ∀ d ∈ ds, d < 16) :
    parse16 (ds.reverse.map hexDigit) = Nat.ofDigits 16 ds := by
  induction ds with
  | nil => rfl
  | cons d ds ih =>
    have hd : parse16 [hexDigit d] = d := by
      simp [parse16, hexValue_hexDigit d (h d (by simp))]
    rw [List.reverse_cons, List.map_append, parse16_append,
      ih fun e he => h e (by simp [he]), Nat.ofDigits_cons]
    simp only [List.map_cons, List.map_nil, List.length_singleton, pow_one, hd]
    ring

@[simp] theorem parse16_toString16 (n : Nat) : parse16 (toString16 n) = n := by
  rw [toString16]
  split_ifs with hzero
  · rw [hzero]
    decide
  · rw [parse16_digits fun d hd => Nat.digits_lt_base (by decide) hd, Nat.ofDigits_digits]

theorem padStart2_byte (b : UInt8) :
    (padStart2 (toString16 b.toNat)).length = 2 := by
  have hlt := b.toNat_lt
  rw [padStart2, toString16]
  split_ifs with hzero
  · rfl
  · have hlen : (Nat.digits 16 b.toNat).length ≤ 2 :=
      (Nat.digits_length_le_iff (by decide) _).mpr (by omega)
    simp only [List.length_append, List.length_replicate, List.length_map,
      List.length_reverse]
    omega

theorem parse16_padStart2 (text : List Char) : parse16 (padStart2 text) = parse16 text := by
  have hzeros : ∀ n, parse16 (List.replicate n '0') = 0 := by
    intro n
    induction n with
    | zero => rfl
    | succ n ih =>
      rw [List.replicate_succ', parse16_append, ih]
      rfl
  rw [padStart2, parse16_append, hzeros, Nat.zero_mul, Nat.zero_add]

theorem bytesToBigInt_eq (bytes : Bytes) : bytesToBigInt bytes = beNat bytes := by
  have hhex : parse16 (bytesToHex bytes) = beNat bytes := by
    induction bytes using List.reverseRecOn with
    | nil => rfl
    | append_singleton bytes b ih =>
      have hlast : bytesToHex (bytes ++ [b])
          = bytesToHex bytes ++ padStart2 (toString16 b.toNat) := by
        simp [bytesToHex]
      rw [hlast, parse16_append, padStart2_byte, parse16_padStart2, parse16_toString16,
        ih, beNat_append]
      rfl
  rw [bytesToBigInt, hhex]
  split_ifs with hempty
  · rw [List.length_eq_zero_iff.mp hempty]
    rfl
  · rfl

theorem hexValue_lt (c : Char) : (hexValue c).getD 0 < 16 := by
  cases hvalue : hexValue c with
  | none => decide
  | some i =>
    rw [hexValue, List.idxOf?] at hvalue
    exact (List.findIdx?_eq_some_iff_findIdx_eq.mp hvalue).1

/-- Text of an even number of digits is cut into bytes of the same number. -/
theorem pairsToBytes_spec {hex : List Char} (heven : hex.length % 2 = 0) :
    beNat (pairsToBytes hex) = parse16 hex
      ∧ 2 * (pairsToBytes hex).length = hex.length := by
  induction hex using pairsToBytes.induct with
  | case1 c d rest ih =>
    obtain ⟨hvalue, hlen⟩ := ih (by simp only [List.length_cons] at heven; omega)
    have hpair : parse16 [c, d] < 256 := by
      have hc := hexValue_lt c
      have hd := hexValue_lt d
      simp only [parse16, List.foldl_cons, List.foldl_nil]
      omega
    have hbyte : beNat [UInt8.ofNat (parse16 [c, d])] = parse16 [c, d] := by
      simp [beNat, leNat, Nat.mod_eq_of_lt hpair]
    have hcons := beNat_append [UInt8.ofNat (parse16 [c, d])] (pairsToBytes rest)
    have hparse := parse16_append [c, d] rest
    rw [List.cons_append, List.nil_append, hbyte, hvalue] at hcons
    simp only [List.cons_append, List.nil_append] at hparse
    constructor
    · rw [pairsToBytes, hcons, hparse, ← hlen, pow_mul]
      rfl
    · simp only [pairsToBytes, List.length_cons]
      omega
  | case2 hex hshort =>
    cases hex with
    | nil => exact ⟨rfl, rfl⟩
    | cons c hex =>
      cases hex with
      | nil => simp at heven
      | cons d rest => exact absurd rfl (hshort c d rest)

theorem parse16_zero_cons (text : List Char) : parse16 ('0' :: text) = parse16 text := by
  have hzero := parse16_append ['0'] text
  rwa [show parse16 ['0'] = 0 from rfl, Nat.zero_mul, Nat.zero_add] at hzero

theorem beNat_hexToBytes (hex : List Char) : beNat (hexToBytes hex) = parse16 hex := by
  rw [hexToBytes]
  split_ifs with heven
  · exact (pairsToBytes_spec heven).1
  · have hlen : ('0' :: hex).length % 2 = 0 := by
      rw [List.length_cons]
      omega
    rw [(pairsToBytes_spec hlen).1, parse16_zero_cons]

theorem beNat_bigIntToBytes (value : Nat) : beNat (bigIntToBytes value) = value := by
  rw [bigIntToBytes]
  by_cases hzero : value = 0
  · rw [if_pos hzero, hzero]
    rfl
  · rw [if_neg hzero, beNat_hexToBytes]
    by_cases hodd : (toString16 value).length % 2 ≠ 0
    · rw [if_pos hodd, parse16_zero_cons, parse16_toString16]
    · rw [if_neg hodd, parse16_toString16]

/-- **`pad`**: the 384 low bytes, the most significant first. -/
theorem pad_eq (value : Nat) : pad value = (leBytes PAD_LEN value).reverse := by
  have haligned := rightAligned_eq PAD_LEN (bigIntToBytes value)
  rwa [beNat_bigIntToBytes] at haligned

/-! ## Square and multiply -/

theorem modPowLoop_eq {mod : Nat} (e : Nat) {result : Nat} (b : Nat)
    (hresult : result < mod) :
    modPowLoop mod e result b = result * b ^ e % mod := by
  induction e using Nat.strong_induction_on generalizing result b with
  | _ e ih =>
    rw [modPowLoop]
    split_ifs with hpos hodd
    · -- the last bit of the exponent goes into the result
      have he : e = 2 * (e / 2) + 1 := by omega
      have hlt : result * b % mod < mod := Nat.mod_lt _ (by omega)
      rw [ih (e / 2) (by omega) _ hlt]
      calc result * b % mod * (b * b % mod) ^ (e / 2) % mod
          = result * b * (b * b) ^ (e / 2) % mod := by
            rw [Nat.mul_mod, Nat.mod_mod, ← Nat.pow_mod, ← Nat.mul_mod]
        _ = result * b ^ (2 * (e / 2) + 1) % mod := by
            rw [pow_succ, pow_mul, pow_two]
            congr 1
            ring
        _ = result * b ^ e % mod := by rw [← he]
    · have he : e = 2 * (e / 2) := by omega
      rw [ih (e / 2) (by omega) _ hresult]
      calc result * (b * b % mod) ^ (e / 2) % mod
          = result * (b * b) ^ (e / 2) % mod := by
            rw [Nat.mul_mod, ← Nat.pow_mod, ← Nat.mul_mod]
        _ = result * b ^ (2 * (e / 2)) % mod := by rw [pow_mul, pow_two]
        _ = result * b ^ e % mod := by rw [← he]
    · obtain rfl : e = 0 := by omega
      rw [pow_zero, Nat.mul_one, Nat.mod_eq_of_lt hresult]

theorem tmod_normalised (base : Int) {mod : Nat} (hmod : 0 < mod) :
    (if base.tmod mod < 0 then base.tmod mod + mod else base.tmod mod) = base % mod := by
  have hnonneg := Int.emod_nonneg base (show (mod : Int) ≠ 0 by omega)
  have hlt := Int.emod_lt_of_pos base (show (0 : Int) < mod by omega)
  rw [Int.tmod_eq_emod, Int.natAbs_natCast]
  by_cases hsign : 0 ≤ base ∨ (mod : Int) ∣ base
  · rw [if_pos hsign]
    split_ifs <;> omega
  · rw [if_neg hsign]
    split_ifs <;> omega

/-- **`modPow`** is the power of the residue. -/
theorem modPow_eq (base : Int) (exp : Nat) {mod : Nat} (hmod : 0 < mod) :
    modPow base exp mod = ModPow.modpow (base % mod).toNat exp mod := by
  have hbase := tmod_normalised base hmod
  simp only [modPow, hbase, ModPow.modpow]
  split_ifs with hone
  · rw [hone, Nat.mod_one]
  · rw [modPowLoop_eq _ _ (by omega), Nat.one_mul]

end UsbVault.App.SrpClient
