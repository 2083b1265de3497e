import UsbVault.Lib.Bytes
import UsbVault.Lib.Faults

/-!
# Device attestation

The App Attest object as the server reads it: its certificates are what a
scan for the marker of a DER SEQUENCE finds, and its authenticator data the
last 37 bytes. The scan is written with every indexing and slice that may
fail; none does, and what it finds is a list of whole SEQUENCEs, one after
the other (`extractCertChainFromCBOR_exact`).
-/

namespace UsbVault.Device

open Wire Faults

variable {ε : Type}

/-! ## The functions of the source -/

/-- The body of the loop, for a marker at `i`: a certificate that fits is
copied, and skipped but for its last byte. -/
def takeCert (data : Bytes) (i : Nat) (certs : List Bytes) :
    Checked ε ({ i' : Nat // i ≤ i' } × List Bytes) := do
  let high ← index data (i + 2)
  let low ← index data (i + 3)
  -- `<<` binds most tightly; `|` and `+` are of one precedence, left to right
  let certLen := (high.toNat <<< 8 ||| low.toNat) + 4
  if i + certLen ≤ data.length then do
    let cert ← range data i (i + certLen)
    lift (.ok (⟨i + (certLen - 1), Nat.le_add_right _ _⟩, certs ++ [cert]))
  else lift (.ok (⟨i, Nat.le_refl _⟩, certs))

/-- The body of the loop: the second byte is only read after a `0x30`. -/
def scanByte (data : Bytes) (i : Nat) (certs : List Bytes) :
    Checked ε ({ i' : Nat // i ≤ i' } × List Bytes) := do
  let first ← index data i
  if first = 0x30 then do
    let second ← index data (i + 1)
    if second = 0x82 then takeCert data i certs
    else lift (.ok (⟨i, Nat.le_refl _⟩, certs))
  else lift (.ok (⟨i, Nat.le_refl _⟩, certs))

/-- The loop from `i`. The body never moves back. -/
def scanFrom (data : Bytes) (i : Nat) (certs : List Bytes) : Checked ε (List Bytes) :=
  if _h : (i : Int) < data.length - 4 then
    scanByte data i certs >>= fun r => scanFrom data (r.1 + 1) r.2
  else lift (.ok certs)
termination_by data.length - i
decreasing_by
  have hle : i ≤ r.1 := r.1.2
  omega

/-- `extractCertChainFromCBOR` -/
def extractCertChainFromCBOR (data : Bytes) : Checked ε (List Bytes) := scanFrom data 0 []

/-- `extractAuthDataFromCBOR` -/
def extractAuthDataFromCBOR (data : Bytes) : Checked ε Bytes :=
  if data.length > 37 then do
    let start ← sub data.length 37
    range data start data.length
  else lift (.ok [])

/-- `appAttestParsed` -/
structure AppAttestParsed where
  format : Bytes
  certChain : List Bytes
  authData : Bytes
  deriving DecidableEq, Repr

inductive AttestError where
  /-- "attestation object too short (%d bytes)" -/
  | tooShort (length : Nat)
  /-- "no certificates in attestation" -/
  | noCertificates
  deriving DecidableEq, Repr

/-- `parseAppAttestObject` -/
def parseAppAttestObject (data : Bytes) : Checked AttestError AppAttestParsed :=
  if data.length < 64 then lift (.error (.tooShort data.length))
  else do
    let certChain ← extractCertChainFromCBOR data
    let authData ← extractAuthDataFromCBOR data
    if certChain.length = 0 then lift (.error .noCertificates)
    else lift (.ok { format := ascii "apple-appattest", certChain, authData })

/-! ## SEQUENCEs -/

/-- A DER SEQUENCE of the long form with two length bytes, whole. -/
structure DerSequence (data : Bytes) where
  start : Nat
  high : UInt8
  low : UInt8
  tag : data[start]? = some 0x30
  form : data[start + 1]? = some 0x82
  high_eq : data[start + 2]? = some high
  low_eq : data[start + 3]? = some low
  whole : start + (4 + (256 * high.toNat + low.toNat)) ≤ data.length

namespace DerSequence

variable {data : Bytes}

def size (s : DerSequence data) : Nat := 4 + (256 * s.high.toNat + s.low.toNat)

def bytes (s : DerSequence data) : Bytes := (data.drop s.start).take s.size

/-- What follows the header. -/
def content (s : DerSequence data) : Bytes :=
  (data.drop (s.start + 4)).take (256 * s.high.toNat + s.low.toNat)

theorem content_length (s : DerSequence data) :
    s.content.length = 256 * s.high.toNat + s.low.toNat := by
  have hwhole := s.whole
  rw [content, List.length_take, List.length_drop]
  omega

theorem drop_of_getElem? {xs : Bytes} {i : Nat} {x : UInt8} (h : xs[i]? = some x) :
    xs.drop i = x :: xs.drop (i + 1) := by
  obtain ⟨hlt, rfl⟩ := List.getElem?_eq_some_iff.mp h
  exact List.drop_eq_getElem_cons hlt

theorem bytes_eq (s : DerSequence data) :
    s.bytes = 0x30 :: 0x82 :: s.high :: s.low :: s.content := by
  rw [bytes, size, Nat.add_comm 4, drop_of_getElem? s.tag, List.take_succ_cons,
    drop_of_getElem? s.form, List.take_succ_cons, drop_of_getElem? s.high_eq, List.take_succ_cons,
    drop_of_getElem? s.low_eq, List.take_succ_cons, content]

/-- The one ends before the other begins. -/
def Before (s t : DerSequence data) : Prop := s.start + s.size ≤ t.start

end DerSequence

/-! ## The scan -/

variable {data : Bytes} {i : Nat} {certs : List Bytes}

theorem certLen_eq (high low : UInt8) :
    (high.toNat <<< 8 ||| low.toNat) + 4 = 4 + (256 * high.toNat + low.toNat) := by
  rw [← Nat.shiftLeft_add_eq_or_of_lt low.toNat_lt, Nat.shiftLeft_eq]
  omega

/-- What the body does: it passes a byte at which no SEQUENCE starts, or the one
that does. -/
def Passes (data : Bytes) (i : Nat) (certs : List Bytes)
    (r : { i' : Nat // i ≤ i' } × List Bytes) : Prop :=
  (r.1.1 = i ∧ r.2 = certs ∧ ∀ s : DerSequence data, s.start ≠ i)
    ∨ ∃ s : DerSequence data, s.start = i ∧ r.1.1 + 1 = i + s.size ∧ r.2 = certs ++ [s.bytes]

theorem takeCert_passes (hi : i + 4 < data.length) (htag : data[i]? = some 0x30)
    (hform : data[i + 1]? = some 0x82) :
    ∃ r, (takeCert data i certs : Checked ε _) = lift (.ok r) ∧ Passes data i certs r := by
  have hhigh := List.getElem?_eq_getElem (show i + 2 < data.length by omega)
  have hlow := List.getElem?_eq_getElem (show i + 3 < data.length by omega)
  rw [takeCert, index_of_getElem? hhigh, index_of_getElem? hlow]
  simp only [lift_ok_bind, certLen_eq]
  split
  · rename_i hwhole
    rw [range_of_le (Nat.le_add_right _ _) hwhole, Nat.add_sub_cancel_left, lift_ok_bind]
    exact ⟨_, rfl, .inr ⟨⟨i, _, _, htag, hform, hhigh, hlow, hwhole⟩, rfl, by
      simp only [DerSequence.size]
      omega, rfl⟩⟩
  · rename_i hcut
    refine ⟨_, rfl, .inl ⟨rfl, rfl, ?_⟩⟩
    rintro s rfl
    have hhigh' := Option.some.inj (hhigh.symm.trans s.high_eq)
    have hlow' := Option.some.inj (hlow.symm.trans s.low_eq)
    rw [hhigh', hlow'] at hcut
    exact hcut s.whole

theorem scanByte_passes (certs : List Bytes) (hi : i + 4 < data.length) :
    ∃ r, (scanByte data i certs : Checked ε _) = lift (.ok r) ∧ Passes data i certs r := by
  have hfirst := List.getElem?_eq_getElem (show i < data.length by omega)
  have hsecond := List.getElem?_eq_getElem (show i + 1 < data.length by omega)
  rw [scanByte, index_of_getElem? hfirst, lift_ok_bind]
  split
  · rename_i htag
    rw [index_of_getElem? hsecond, lift_ok_bind]
    split
    · rename_i hform
      exact takeCert_passes hi (htag ▸ hfirst) (hform ▸ hsecond)
    · rename_i hform
      refine ⟨_, rfl, .inl ⟨rfl, rfl, ?_⟩⟩
      rintro s rfl
      exact hform (Option.some.inj (hsecond.symm.trans s.form))
  · rename_i htag
    refine ⟨_, rfl, .inl ⟨rfl, rfl, ?_⟩⟩
    rintro s rfl
    exact htag (Option.some.inj (hfirst.symm.trans s.tag))

/-- The loop finds SEQUENCEs that start where it is or later, and passes none
over. -/
theorem scanFrom_exact (data : Bytes) (i : Nat) (certs : List Bytes) :
    ∃ found : List (DerSequence data),
      (scanFrom data i certs : Checked ε _)
          = lift (.ok (certs ++ found.map DerSequence.bytes))
        ∧ (∀ s ∈ found, i ≤ s.start) ∧ found.Pairwise DerSequence.Before
        ∧ ∀ s : DerSequence data, i ≤ s.start → s.start + 4 < data.length →
          ∃ t ∈ found, t.start ≤ s.start ∧ s.start < t.start + t.size := by
  rw [scanFrom]
  split
  · rename_i hlt
    obtain ⟨⟨⟨i', hle⟩, certs'⟩, hbody, hpasses⟩ :=
      scanByte_passes (ε := ε) certs (show i + 4 < data.length by omega)
    obtain ⟨found, hscan, hstart, hbefore, hall⟩ := scanFrom_exact data (i' + 1) certs'
    rw [hbody, lift_ok_bind, hscan]
    rcases hpasses with ⟨hnext, hcerts, hnone⟩ | ⟨s, hs, hnext, hcerts⟩
    · have hnext' : i' = i := hnext
      refine ⟨found, by rw [← hcerts], fun t ht => by have := hstart t ht; omega, hbefore, ?_⟩
      intro s hfrom hin
      have hne := hnone s
      exact hall s (by omega) hin
    · have hcerts' : certs' = certs ++ [s.bytes] := hcerts
      have hnext' : i' + 1 = i + s.size := hnext
      refine ⟨s :: found, ?_, ?_, ?_, ?_⟩
      · rw [hcerts', List.map_cons, List.append_assoc, List.singleton_append]
      · rintro t ht
        rcases List.mem_cons.mp ht with rfl | ht
        · exact Nat.le_of_eq hs.symm
        · have := hstart t ht
          omega
      · refine List.pairwise_cons.mpr ⟨fun t ht => ?_, hbefore⟩
        have := hstart t ht
        rw [DerSequence.Before]
        omega
      · intro t hfrom hin
        by_cases hinside : t.start < i + s.size
        · exact ⟨s, List.mem_cons_self, by omega, by omega⟩
        · obtain ⟨t', ht', hcovers⟩ := hall t (by omega) hin
          exact ⟨t', List.mem_cons_of_mem s ht', hcovers⟩
  · exact ⟨[], by rw [List.map_nil, List.append_nil], by simp, .nil, fun s hfrom hin => by omega⟩
termination_by data.length - i

/-- **The extraction of the certificates is exact**: the scan ends without a
fault, and what it hands on is whole SEQUENCEs, `0x30 0x82`, two bytes of
length and as many bytes as they say, each after the end of the one before. One
that starts in the range of the scan is handed on, or starts inside one that is. -/
theorem extractCertChainFromCBOR_exact (data : Bytes) :
    ∃ found : List (DerSequence data),
      (extractCertChainFromCBOR data : Checked ε _)
          = lift (.ok (found.map DerSequence.bytes))
        ∧ (∀ s ∈ found, s.bytes = (data.drop s.start).take s.size
          ∧ s.bytes.length = 4 + (256 * s.high.toNat + s.low.toNat)
          ∧ s.bytes = 0x30 :: 0x82 :: s.high :: s.low :: s.content
          ∧ s.start + s.size ≤ data.length)
        ∧ (found.Pairwise fun s t => s.start + s.size ≤ t.start)
        ∧ ∀ s : DerSequence data, s.start + 4 < data.length →
          ∃ t ∈ found, t.start ≤ s.start ∧ s.start < t.start + t.size := by
  obtain ⟨found, hscan, -, hbefore, hall⟩ := scanFrom_exact (ε := ε) data 0 []
  refine ⟨found, hscan, fun s _ => ⟨rfl, ?_, s.bytes_eq, s.whole⟩, hbefore,
    fun s hin => hall s (Nat.zero_le _) hin⟩
  rw [s.bytes_eq]
  simp only [List.length_cons, s.content_length]
  omega

/-! ## The object -/

theorem extractAuthDataFromCBOR_eq (data : Bytes) :
    (extractAuthDataFromCBOR data : Checked ε _)
      = lift (.ok (if data.length > 37 then data.drop (data.length - 37) else [])) := by
  rw [extractAuthDataFromCBOR]
  split
  · rename_i hlong
    rw [sub_of_le hlong.le, lift_ok_bind, range_of_le (Nat.sub_le _ _) (Nat.le_refl _)]
    rw [List.take_of_length_le (by rw [List.length_drop])]
  · rfl

theorem parseAppAttestObject_returns (data : Bytes) :
    (∃ e, parseAppAttestObject data = lift (.error e))
      ∨ ∃ parsed, parseAppAttestObject data = lift (.ok parsed)
        ∧ parsed.certChain ≠ [] ∧ parsed.authData.length = 37 := by
  rw [parseAppAttestObject]
  split
  · exact .inl ⟨_, rfl⟩
  · rename_i hlong
    obtain ⟨found, hscan, -⟩ := scanFrom_exact (ε := AttestError) data 0 []
    rw [extractCertChainFromCBOR, hscan, lift_ok_bind, extractAuthDataFromCBOR_eq, lift_ok_bind]
    split
    · exact .inl ⟨_, rfl⟩
    · rename_i hcerts
      refine .inr ⟨_, rfl, fun h => hcerts (List.length_eq_zero_iff.mpr h), ?_⟩
      rw [if_pos (by omega), List.length_drop]
      omega

end UsbVault.Device
