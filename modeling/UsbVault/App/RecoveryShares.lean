import UsbVault.Crypto.Shamir

/-!
# Recovery shares

The secret sharing of the app's `services/vault/recovery.ts`. Its
multiplication goes through tables of logarithms, built from the powers of
3. `mul_eq` and `inv_eq` say that the tables compute the field `GF256`, so
that `reconstructSecret` interpolates what `splitSecret` evaluates
(`reconstructSecret_splitSecret`).

Numbers that are bytes in the source are `UInt8`; the others are `Nat`.
-/

namespace UsbVault.App.Recovery

open Wire Sharing

/-! ## Tables -/

/-- The loop of `buildTables`: the two arrays and `x`. -/
structure Tables where
  exp : Bytes
  log : Bytes
  x : Nat

def Tables.empty : Tables :=
  { exp := List.replicate 256 0, log := List.replicate 256 0, x := 1 }

/-- `x ^ (x << 1) ^ (x >= 128 ? 0x11b : 0)`, cut to a byte. -/
def timesThree (x : Nat) : Nat :=
  (x ^^^ (x <<< 1) ^^^ (if x ≥ 128 then 0x11b else 0)) &&& 0xff

def Tables.round (t : Tables) (i : Nat) : Tables :=
  { exp := t.exp.set i (UInt8.ofNat t.x)
    log := t.log.set t.x (UInt8.ofNat i)
    x := timesThree t.x }

/-- `buildTables` -/
def buildTables : Tables :=
  let t := (List.range 255).foldl Tables.round .empty
  { t with exp := t.exp.set 255 (t.exp.getD 0 0), log := t.log.set 0 0 }

def gf256Exp (i : Nat) : UInt8 := buildTables.exp.getD i 0

def gf256Log (a : UInt8) : Nat := (buildTables.log.getD a.toNat 0).toNat

/-- `gf256Mul` -/
def gf256Mul (a b : UInt8) : UInt8 :=
  if a = 0 ∨ b = 0 then 0 else gf256Exp ((gf256Log a + gf256Log b) % 255)

/-- `gf256Inv` -/
def gf256Inv (a : UInt8) : Except String UInt8 :=
  if a = 0 then .error "Division by zero in GF(256)"
  else .ok (gf256Exp (255 - gf256Log a))

/-- `gf256Add` -/
def gf256Add (a b : UInt8) : UInt8 := a ^^^ b

/-! ## Sharing -/

structure ShamirShare where
  index : Nat
  data : Bytes
  deriving DecidableEq, Repr

/-- The polynomial of one byte of the secret: the byte, then its random
coefficients. An element past the end of the array is stored as 0. -/
def coefficients (secret coefficientBytes : Bytes) (k byteIdx : Nat) : Bytes :=
  secret.getD byteIdx 0 :: (List.range (k - 1)).map fun c =>
    coefficientBytes.getD (byteIdx * (k - 1) + c) 0

/-- The inner loop of `splitSecret`: `y` and `xPow`. -/
def evaluateStep (x : UInt8) (acc : UInt8 × UInt8) (coeff : UInt8) : UInt8 × UInt8 :=
  (gf256Add acc.1 (gf256Mul coeff acc.2), gf256Mul acc.2 x)

def evaluate (coeffs : Bytes) (x : UInt8) : UInt8 :=
  (coeffs.foldl (evaluateStep x) (0, 1)).1

/-- One round of the byte loop: store the evaluations of every share. -/
def splitByte (secret coefficientBytes : Bytes) (k : Nat)
    (shares : List ShamirShare) (byteIdx : Nat) : List ShamirShare :=
  shares.map fun share =>
    { share with
      data := share.data.set byteIdx
        (evaluate (coefficients secret coefficientBytes k byteIdx)
          (UInt8.ofNat share.index)) }

/-- `splitSecret`, with the bytes that `randomBytes` returns. -/
def splitSecret (secret : Bytes) (n k : Nat) (coefficientBytes : Bytes) :
    Except String (List ShamirShare) :=
  if k < 2 ∨ k > n then
    .error s!"Invalid threshold: need 2 ≤ k({k}) ≤ n({n})"
  else if n > 255 then .error "Cannot create more than 255 shares"
  else if secret.length = 0 then .error "Secret cannot be empty"
  else
    let shares := (List.range n).map fun i =>
      { index := i + 1, data := List.replicate secret.length 0 : ShamirShare }
    .ok ((List.range secret.length).foldl
      (splitByte secret coefficientBytes k) shares)

/-! ## Reconstruction -/

/-- One round of the basis loop: multiply by `x_j / (x_i - x_j)`. -/
def basisStep (xs : Bytes) (i : Nat) (basis : UInt8) (j : Nat) :
    Except String UInt8 :=
  if i = j then .ok basis
  else do
    let num := xs.getD j 0
    let den := gf256Add (xs.getD i 0) (xs.getD j 0)
    return gf256Mul basis (gf256Mul num (← gf256Inv den))

def lagrangeBasis (xs : Bytes) (i : Nat) : Except String UInt8 :=
  (List.range xs.length).foldlM (basisStep xs i) 1

/-- One byte of the secret. -/
def reconstructByte (shares : List ShamirShare) (byteIdx : Nat) :
    Except String UInt8 :=
  let xs := shares.map fun share => UInt8.ofNat share.index
  (List.range shares.length).foldlM (fun result i => do
    let yi := (shares.map fun share => share.data.getD byteIdx 0).getD i 0
    return gf256Add result (gf256Mul yi (← lagrangeBasis xs i))) 0

/-- The checks of one share. -/
def checkShare (dataLength : Nat) (share : ShamirShare) : Except String Unit :=
  if share.data.length ≠ dataLength then
    .error "All shares must have the same data length"
  else if share.index < 1 ∨ share.index > 255 then
    .error s!"Invalid share index: {share.index} (must be 1-255)"
  else .ok ()

/-- The last check of `reconstructSecret`. -/
def checkLength (secret : Bytes) : Option Nat → Except String Bytes
  | none => .ok secret
  | some expected =>
    if secret.length ≠ expected then
      .error s!"Reconstructed secret length ({secret.length}) doesn't match expected ({expected})"
    else .ok secret

/-- `reconstructSecret` -/
def reconstructSecret (shares : List ShamirShare) (secretLength : Option Nat) :
    Except String Bytes :=
  match shares with
  | first :: _ :: _ => do
      let dataLength := first.data.length
      shares.forM (checkShare dataLength)
      if (shares.map (·.index)).dedup.length ≠ shares.length then
        throw "Duplicate share indices detected"
      else
        let secret ← (List.range dataLength).mapM (reconstructByte shares)
        checkLength secret secretLength
  | _ => .error "Need at least 2 shares for reconstruction"

/-! ## The tables are the field -/

/-- The generator. -/
def three : GF256 := ⟨3⟩

theorem three_pow_255 : three ^ 255 = 1 := GF256.pow_255 (by decide)

/-- The powers of 3 are distinct below 255: the order of 3 divides 255, and
neither 85, 51 nor 15. -/
theorem orderOf_three : orderOf three = 255 := by
  apply orderOf_eq_of_pow_and_pow_div_prime (by decide) three_pow_255
  intro p hp hdvd
  have hprime : p = 3 ∨ p = 5 ∨ p = 17 := by
    have hfactors : (255 : Nat) = 3 * 5 * 17 := rfl
    rw [hfactors, hp.dvd_mul, hp.dvd_mul] at hdvd
    have hself : ∀ q : Nat, q.Prime → p ∣ q → p = q :=
      fun q hq h => (Nat.prime_dvd_prime_iff_eq hp hq).mp h
    rcases hdvd with (h | h) | h
    · exact .inl (hself 3 (by decide) h)
    · exact .inr (.inl (hself 5 (by decide) h))
    · exact .inr (.inr (hself 17 (by decide) h))
  rcases hprime with rfl | rfl | rfl
  · decide +kernel
  · decide +kernel
  · decide +kernel

theorem three_pow_inj {i j : Nat} (hi : i < 255) (hj : j < 255)
    (h : (three ^ i).byte = (three ^ j).byte) : i = j := by
  have hpow : three ^ i = three ^ j := GF256.ext h
  exact pow_injOn_Iio_orderOf (by rwa [orderOf_three]) (by rwa [orderOf_three]) hpow

theorem three_pow_ne_zero (n : Nat) : (three ^ n).byte ≠ 0 := by
  intro h
  have hzero : three ^ n = 0 := GF256.ext h
  exact pow_ne_zero n (by decide) hzero

/-- Every byte but zero is a power of 3: there are as many of them. -/
theorem exists_three_pow {a : UInt8} (ha : a ≠ 0) : ∃ n < 255, (three ^ n).byte = a := by
  let powers := (Finset.range 255).image fun n => (three ^ n).byte.toNat
  have hsub : powers ⊆ Finset.Ico 1 256 := by
    intro b hb
    obtain ⟨n, -, rfl⟩ := Finset.mem_image.mp hb
    have hne : (three ^ n).byte.toNat ≠ 0 :=
      fun h => three_pow_ne_zero n (UInt8.toNat_inj.mp h)
    exact Finset.mem_Ico.mpr ⟨Nat.pos_of_ne_zero hne, (three ^ n).byte.toNat_lt⟩
  have hcard : powers.card = 255 := by
    rw [Finset.card_image_of_injOn, Finset.card_range]
    intro i hi j hj hij
    exact three_pow_inj (Finset.mem_range.mp hi) (Finset.mem_range.mp hj) (UInt8.toNat_inj.mp hij)
  have hall : powers = Finset.Ico 1 256 :=
    Finset.eq_of_subset_of_card_le hsub (by rw [hcard, Nat.card_Ico])
  have hmem : a.toNat ∈ powers := by
    have hne : a.toNat ≠ 0 := fun h => ha (UInt8.toNat_inj.mp h)
    rw [hall]
    exact Finset.mem_Ico.mpr ⟨Nat.pos_of_ne_zero hne, a.toNat_lt⟩
  obtain ⟨n, hn, heq⟩ := Finset.mem_image.mp hmem
  exact ⟨n, Finset.mem_range.mp hn, UInt8.toNat_inj.mp heq⟩

theorem timesThree_byte (a : UInt8) : timesThree a.toNat = (UsbVault.gf256Mul a 3).toNat :=
  forall_byte (p := fun a => timesThree a.toNat = (UsbVault.gf256Mul a 3).toNat)
    (by decide +kernel) a

/-- After `n` rounds the tables hold the first `n` powers of 3. -/
structure Filled (n : Nat) (t : Tables) : Prop where
  exp_length : t.exp.length = 256
  log_length : t.log.length = 256
  x : t.x = (three ^ n).byte.toNat
  exp : ∀ j < n, t.exp.getD j 0 = (three ^ j).byte
  log : ∀ j < n, t.log.getD (three ^ j).byte.toNat 0 = UInt8.ofNat j

theorem Filled.empty : Filled 0 .empty := by
  refine ⟨?_, ?_, ?_, by simp, by simp⟩
  · exact List.length_replicate
  · exact List.length_replicate
  · rw [pow_zero]
    rfl

theorem getD_set {bytes : Bytes} {i : Nat} (hi : i < bytes.length) (byte : UInt8) (j : Nat) :
    (bytes.set i byte).getD j 0 = if i = j then byte else bytes.getD j 0 := by
  rw [List.getD_eq_getElem?_getD, List.getElem?_set]
  split
  · simp [*]
  · rw [List.getD_eq_getElem?_getD]

theorem Filled.round {n : Nat} {t : Tables} (h : Filled n t) (hn : n < 255) :
    Filled (n + 1) (t.round n) := by
  have hexp : n < t.exp.length := by rw [h.exp_length]; omega
  have hlog : t.x < t.log.length := by rw [h.log_length, h.x]; exact (three ^ n).byte.toNat_lt
  refine ⟨?_, ?_, ?_, ?_, ?_⟩
  · rw [Tables.round, List.length_set, h.exp_length]
  · rw [Tables.round, List.length_set, h.log_length]
  · rw [Tables.round, h.x, timesThree_byte, pow_succ]
    rfl
  · intro j hj
    rw [Tables.round, getD_set hexp]
    split
    case isTrue hnj =>
      subst hnj
      rw [h.x, UInt8.ofNat_toNat]
    case isFalse hnj => exact h.exp j (by omega)
  · intro j hj
    rw [Tables.round, getD_set hlog, h.x]
    split
    case isTrue hpow => rw [three_pow_inj hn (by omega) (UInt8.toNat_inj.mp hpow)]
    case isFalse hpow =>
      have hne : n ≠ j := fun hnj => hpow (by rw [hnj])
      exact h.log j (by omega)

theorem filled_loop {n : Nat} (hn : n ≤ 255) :
    Filled n ((List.range n).foldl Tables.round .empty) := by
  induction n with
  | zero => exact .empty
  | succ n ih =>
    rw [List.range_succ, List.foldl_append]
    exact (ih (by omega)).round hn

theorem exp_eq (n : Nat) (hn : n ≤ 255) : gf256Exp n = (three ^ n).byte := by
  have hfilled := filled_loop (le_refl 255)
  rw [gf256Exp, buildTables, getD_set (by rw [hfilled.exp_length]; decide)]
  split
  case isTrue hlast =>
    rw [hfilled.exp 0 (by decide), ← hlast, three_pow_255, pow_zero]
  case isFalse hlast => exact hfilled.exp n (by omega)

theorem log_eq {n : Nat} (hn : n < 255) : gf256Log (three ^ n).byte = n := by
  have hfilled := filled_loop (le_refl 255)
  have hne : 0 ≠ (three ^ n).byte.toNat :=
    fun h => three_pow_ne_zero n (UInt8.toNat_inj.mp h.symm)
  rw [gf256Log, buildTables, getD_set (by rw [hfilled.log_length]; decide), if_neg hne,
    hfilled.log n hn]
  exact UInt8.toNat_ofNat_of_lt' (by rw [UInt8.size]; omega)

theorem exp_log {a : UInt8} (ha : a ≠ 0) : gf256Exp (gf256Log a) = a := by
  obtain ⟨n, hn, rfl⟩ := exists_three_pow ha
  rw [log_eq hn, exp_eq n hn.le]

theorem log_lt (a : UInt8) : gf256Log a < 255 := by
  by_cases ha : a = 0
  · have hfilled := filled_loop (le_refl 255)
    rw [ha, gf256Log, buildTables, getD_set (by rw [hfilled.log_length]; decide)]
    decide
  · obtain ⟨n, hn, rfl⟩ := exists_three_pow ha
    rwa [log_eq hn]

theorem pow_log {a : UInt8} (ha : a ≠ 0) : three ^ gf256Log a = ⟨a⟩ := by
  ext
  rw [← exp_eq _ (log_lt a).le, exp_log ha]

/-- **The table multiplication is the field's.** -/
theorem mul_eq (a b : UInt8) : gf256Mul a b = UsbVault.gf256Mul a b := by
  by_cases hzero : a = 0 ∨ b = 0
  · rw [gf256Mul, if_pos hzero]
    rcases hzero with rfl | rfl
    · rw [gf256Mul_comm, gf256Mul_zero]
    · rw [gf256Mul_zero]
  · obtain ⟨ha, hb⟩ := not_or.mp hzero
    have hmod : (gf256Log a + gf256Log b) % 255 < 255 := Nat.mod_lt _ (by decide)
    -- exponents count modulo the order of 3
    rw [gf256Mul, if_neg hzero, exp_eq _ hmod.le, ← pow_eq_pow_mod _ three_pow_255,
      pow_add, pow_log ha, pow_log hb]
    rfl

/-- **The table inverse is the field's**; zero has none. -/
theorem inv_eq {a : UInt8} (ha : a ≠ 0) :
    gf256Inv a = .ok (⟨a⟩⁻¹ : GF256).byte := by
  have hlog := log_lt a
  have hmul : three ^ (255 - gf256Log a) * ⟨a⟩ = 1 := by
    rw [← pow_log ha, ← pow_add, Nat.sub_add_cancel hlog.le, three_pow_255]
  rw [gf256Inv, if_neg ha, exp_eq _ (by omega), eq_inv_of_mul_eq_one_left hmul]

/-! ## The loops over the field -/

/-- The inner loop keeps the power of `x` beside the sum. -/
theorem foldl_evaluateStep (coeffs : Bytes) (x : UInt8) (y power : GF256) :
    coeffs.foldl (evaluateStep x) (y.byte, power.byte)
      = ((y + horner (toField coeffs) ⟨x⟩ * power).byte,
          (power * ⟨x⟩ ^ coeffs.length).byte) := by
  induction coeffs generalizing y power with
  | nil => simp [toField, horner]
  | cons c cs ih =>
    have hstep : evaluateStep x (y.byte, power.byte) c
        = ((y + ⟨c⟩ * power).byte, (power * ⟨x⟩).byte) := by
      simp [evaluateStep, gf256Add, mul_eq]
    have hsum : y + ⟨c⟩ * power + horner (toField cs) ⟨x⟩ * (power * ⟨x⟩)
        = y + horner (toField (c :: cs)) ⟨x⟩ * power := by
      simp only [toField, List.map_cons, horner]
      ring
    have hpower : power * ⟨x⟩ * ⟨x⟩ ^ cs.length
        = power * ⟨x⟩ ^ (c :: cs).length := by
      rw [List.length_cons, pow_succ]
      ring
    rw [List.foldl_cons, hstep, ih, hsum, hpower]

theorem evaluate_eq (coeffs : Bytes) (x : UInt8) :
    evaluate coeffs x = (horner (toField coeffs) ⟨x⟩).byte := by
  have hloop := foldl_evaluateStep coeffs x 0 1
  rw [zero_add, mul_one] at hloop
  exact congrArg Prod.fst hloop

theorem basisStep_ok {xs : Bytes} (hx : xs.Nodup) {i j : Nat}
    (hi : i < xs.length) (hj : j < xs.length) (basis : GF256) :
    basisStep xs i basis.byte j
      = .ok (if i = j then basis
          else basis * (node (toField xs) j
            * (node (toField xs) j - node (toField xs) i)⁻¹)).byte := by
  by_cases hij : i = j
  · simp [basisStep, hij]
  · have hden : gf256Add (xs.getD i 0) (xs.getD j 0) ≠ 0 := by
      intro hzero
      have heq := UInt8.xor_eq_zero_iff.mp hzero
      rw [List.getD_eq_getElem _ _ hj, List.getD_eq_getElem _ _ hi] at heq
      exact hij ((List.Nodup.getElem_inj_iff hx).mp heq)
    have hsub : (⟨gf256Add (xs.getD i 0) (xs.getD j 0)⟩ : GF256)
        = node (toField xs) j - node (toField xs) i := by
      ext
      rw [GF256.sub_byte, toField_node, toField_node, UInt8.xor_comm]
      rfl
    simp only [basisStep, if_neg hij, inv_eq hden, mul_eq, hsub, toField_node,
      GF256.mul_byte]
    rfl

theorem lagrangeBasis_eq {xs : Bytes} (hx : xs.Nodup) {i : Nat}
    (hi : i < xs.length) :
    lagrangeBasis xs i = .ok (basisAtZero (toField xs) i).byte := by
  rw [lagrangeBasis, basisAtZero, toField_length, ← foldl_range_mul_skip]
  have hstep : ∀ basis : GF256, ∀ j ∈ List.range xs.length,
      basisStep xs i basis.byte j = .ok (if i = j then basis
          else basis * (node (toField xs) j
            * (node (toField xs) j - node (toField xs) i)⁻¹)).byte :=
    fun basis j hj => basisStep_ok hx hi (List.mem_range.mp hj) basis
  exact Run.foldlM_hom_ok (g := GF256.byte) _ hstep 1

/-- The x-coordinates and, for one byte, the y-coordinates of shares. -/
def xsOf (shares : List ShamirShare) : Bytes :=
  shares.map fun share => UInt8.ofNat share.index

def ysOf (shares : List ShamirShare) (byteIdx : Nat) : Bytes :=
  shares.map fun share => share.data.getD byteIdx 0

/-- With distinct indices, the byte loop is the interpolation at zero. -/
theorem reconstructByte_eq {shares : List ShamirShare} (hx : (xsOf shares).Nodup)
    (byteIdx : Nat) :
    reconstructByte shares byteIdx
      = .ok (recoverAtZero (toField (xsOf shares))
          (toField (ysOf shares byteIdx))).byte := by
  have hlen : shares.length = (toField (xsOf shares)).length := by simp [xsOf]
  rw [reconstructByte, recoverAtZero, hlen, ← foldl_range_add]
  have hstep : ∀ result : GF256, ∀ i ∈ List.range (toField (xsOf shares)).length,
      (do
        let yi := (ysOf shares byteIdx).getD i 0
        return gf256Add result.byte
          (gf256Mul yi (← lagrangeBasis (xsOf shares) i)) : Except String UInt8)
      = .ok (result + node (toField (ysOf shares byteIdx)) i
          * basisAtZero (toField (xsOf shares)) i).byte := by
    intro result i hi
    rw [lagrangeBasis_eq hx (by simpa using hi), toField_node]
    simp only [gf256Add, mul_eq, GF256.add_byte, GF256.mul_byte]
    rfl
  exact Run.foldlM_hom_ok (g := GF256.byte) _ hstep 0

/-! ## The shares -/

/-- The share of index `x`. -/
def shareAt (secret coefficientBytes : Bytes) (k x : Nat) : ShamirShare :=
  { index := x
    data := (List.range secret.length).map fun byteIdx =>
      evaluate (coefficients secret coefficientBytes k byteIdx) (UInt8.ofNat x) }

theorem foldl_splitByte (secret coefficientBytes : Bytes) (k : Nat)
    (bytes : List Nat) (shares : List ShamirShare) :
    bytes.foldl (splitByte secret coefficientBytes k) shares
      = shares.map fun share =>
          { share with
            data := bytes.foldl (fun data byteIdx => data.set byteIdx
              (evaluate (coefficients secret coefficientBytes k byteIdx)
                (UInt8.ofNat share.index))) share.data } := by
  induction bytes generalizing shares with
  | nil => simp
  | cons b bytes ih => simp [ih, splitByte]

/-- Split shares are the polynomials' values at `1, …, n`. -/
theorem splitSecret_ok {secret : Bytes} {n k : Nat} (hsecret : secret ≠ [])
    (hk : 2 ≤ k) (hkn : k ≤ n) (hn : n ≤ 255) (coefficientBytes : Bytes) :
    splitSecret secret n k coefficientBytes
      = .ok ((List.range n).map fun i =>
          shareAt secret coefficientBytes k (i + 1)) := by
  rw [splitSecret, if_neg (by omega), if_neg (by omega),
    if_neg (by simpa using hsecret)]
  refine congrArg Except.ok ((foldl_splitByte _ _ _ _ _).trans ?_)
  rw [List.map_map]
  refine List.map_congr_left fun i _ => ?_
  have hdata := foldl_set (fun byteIdx =>
    evaluate (coefficients secret coefficientBytes k byteIdx)
      (UInt8.ofNat (i + 1))) secret.length [] (List.replicate secret.length 0) [] (by simp)
  simpa [shareAt] using hdata

/-! ## Recovery -/

/-- Enough shares with distinct indices interpolate to the secret byte. -/
theorem reconstructByte_shareAt {secret coefficientBytes : Bytes} {k : Nat}
    {indices : List Nat} (hk : 1 ≤ k) (hcount : k ≤ indices.length)
    (hx : (indices.map UInt8.ofNat).Nodup) {byteIdx : Nat}
    (hidx : byteIdx < secret.length) :
    reconstructByte (indices.map (shareAt secret coefficientBytes k)) byteIdx
      = .ok secret[byteIdx] := by
  let poly := coefficients secret coefficientBytes k byteIdx
  have hxs : xsOf (indices.map (shareAt secret coefficientBytes k))
      = indices.map UInt8.ofNat := by
    simp [xsOf, shareAt]
  have hys : toField (ysOf (indices.map (shareAt secret coefficientBytes k)) byteIdx)
      = (toField (indices.map UInt8.ofNat)).map (horner (toField poly)) := by
    simp [ysOf, shareAt, toField, hidx, evaluate_eq, poly]
  have hlen : (toField poly).length ≤ (toField (indices.map UInt8.ofNat)).length := by
    simpa [poly, coefficients, Nat.sub_add_cancel hk] using hcount
  rw [reconstructByte_eq (by rwa [hxs]), hxs, hys,
    recoverAtZero_horner (toField_nodup hx) hlen]
  simp [poly, coefficients, toField, hidx]

theorem forM_checkShare {dataLength : Nat} {shares : List ShamirShare}
    (h : ∀ share ∈ shares, share.data.length = dataLength
      ∧ 1 ≤ share.index ∧ share.index ≤ 255) :
    shares.forM (checkShare dataLength) = .ok () := by
  induction shares with
  | nil => rfl
  | cons share shares ih =>
    obtain ⟨hdata, hpos, hle⟩ := h share (by simp)
    have hcheck : checkShare dataLength share = .ok () := by
      rw [checkShare, if_neg (not_not.mpr hdata), if_neg (by omega)]
    show (do checkShare dataLength share; shares.forM (checkShare dataLength))
      = Except.ok ()
    rw [hcheck]
    exact ih fun other hmem => h other (by simp [hmem])

/-- Well-formed shares with distinct indices reach the interpolation. -/
theorem reconstructSecret_of {shares : List ShamirShare} {secret : Bytes}
    {secretLength : Option Nat} (hlen : 2 ≤ shares.length)
    (hshare : ∀ share ∈ shares, share.data.length = secret.length
      ∧ 1 ≤ share.index ∧ share.index ≤ 255)
    (hnodup : (shares.map (·.index)).Nodup)
    (hexpected : ∀ expected ∈ secretLength, secret.length = expected)
    (hbytes : ∀ byteIdx (hb : byteIdx < secret.length),
      reconstructByte shares byteIdx = .ok secret[byteIdx]) :
    reconstructSecret shares secretLength = .ok secret := by
  match shares with
  | [] => simp at hlen
  | [_] => simp at hlen
  | first :: second :: rest =>
    have hfirst := (hshare first (by simp)).1
    have hcheck : (first :: second :: rest).forM (checkShare first.data.length)
        = .ok () := by
      rw [hfirst]
      exact forM_checkShare hshare
    have hdup : ((first :: second :: rest).map (·.index)).dedup.length
        = (first :: second :: rest).length := by
      rw [hnodup.dedup, List.length_map]
    have hmap : (List.range first.data.length).mapM
        (reconstructByte (first :: second :: rest)) = .ok secret := by
      have hget : ∀ byteIdx ∈ List.range first.data.length,
          reconstructByte (first :: second :: rest) byteIdx
            = .ok (secret.getD byteIdx 0) := by
        intro byteIdx hmem
        have hb : byteIdx < secret.length := by simpa [hfirst] using hmem
        rw [hbytes byteIdx hb, List.getD_eq_getElem _ _ hb]
      rw [Run.mapM_ok _ hget, hfirst]
      refine congrArg Except.ok (List.ext_getElem (by simp) ?_)
      intro byteIdx hb hb'
      simp [hb']
    simp only [reconstructSecret, hcheck, hdup, hmap, ne_eq, not_true_eq_false, if_false]
    show checkLength secret secretLength = .ok secret
    cases secretLength with
    | none => rfl
    | some expected => exact if_neg (not_not.mpr (hexpected expected rfl))

theorem ofNat_nodup {indices : List Nat} (h : indices.Nodup)
    (hle : ∀ x ∈ indices, x ≤ 255) : (indices.map UInt8.ofNat).Nodup := by
  refine List.Nodup.map_on ?_ h
  intro x hx y hy hxy
  have hmod : x % 256 = y % 256 := by
    simpa using congrArg UInt8.toNat hxy
  have hxle := hle x hx
  have hyle := hle y hy
  omega

/-- **Recovery**: every list of at least `k` distinct split shares gives
back the secret. -/
theorem reconstructSecret_splitSecret {secret coefficientBytes : Bytes} {n k : Nat}
    (hk : 2 ≤ k) (hn : n ≤ 255) {picked : List ShamirShare}
    (hpicked : ∀ share ∈ picked, share ∈ (List.range n).map fun i =>
      shareAt secret coefficientBytes k (i + 1))
    (hdistinct : picked.Nodup) (hlen : k ≤ picked.length) :
    reconstructSecret picked (some secret.length) = .ok secret := by
  let indices := picked.map (·.index)
  have hshare : ∀ share ∈ picked,
      share = shareAt secret coefficientBytes k share.index
        ∧ 1 ≤ share.index ∧ share.index ≤ 255 := by
    intro share hmem
    obtain ⟨i, hi, rfl⟩ := List.mem_map.mp (hpicked share hmem)
    have hin : i < n := List.mem_range.mp hi
    exact ⟨rfl, Nat.succ_pos i, by show i + 1 ≤ 255; omega⟩
  -- a share is determined by its index
  have hmap : picked = indices.map (shareAt secret coefficientBytes k) := by
    rw [List.map_map]
    exact (List.map_id _).symm.trans
      (List.map_congr_left fun share hmem => (hshare share hmem).1)
  have hnodup : indices.Nodup := by
    rw [hmap] at hdistinct
    exact hdistinct.of_map
  have hle : ∀ x ∈ indices, x ≤ 255 := by
    intro x hx
    obtain ⟨share, hmem, rfl⟩ := List.mem_map.mp hx
    exact (hshare share hmem).2.2
  refine reconstructSecret_of (hk.trans hlen) ?_ hnodup (by simp) ?_
  · intro share hmem
    obtain ⟨heq, hbounds⟩ := hshare share hmem
    refine ⟨?_, hbounds⟩
    rw [heq]
    simp [shareAt]
  · intro byteIdx hb
    rw [hmap]
    exact reconstructByte_shareAt (by omega) (by simpa [indices] using hlen)
      (ofNat_nodup hnodup hle) hb

/-! ## What is recovered -/

/-- What `reconstructSecret` checks of the shares. -/
structure WellFormed (dataLength : Nat) (shares : List ShamirShare) : Prop where
  enough : 2 ≤ shares.length
  share : ∀ share ∈ shares, share.data.length = dataLength
    ∧ 1 ≤ share.index ∧ share.index ≤ 255
  distinct : (shares.map (·.index)).Nodup

theorem WellFormed.xsOf_nodup {dataLength : Nat} {shares : List ShamirShare}
    (h : WellFormed dataLength shares) : (xsOf shares).Nodup := by
  have hle : ∀ x ∈ shares.map (·.index), x ≤ 255 := by
    intro x hx
    obtain ⟨share, hmem, rfl⟩ := List.mem_map.mp hx
    exact (h.share share hmem).2.2
  simpa [xsOf, Function.comp_def] using ofNat_nodup h.distinct hle

/-- The value at zero of the interpolation through a byte of the shares. -/
def interpolated (shares : List ShamirShare) (byteIdx : Nat) : UInt8 :=
  (recoverAtZero (toField (xsOf shares)) (toField (ysOf shares byteIdx))).byte

theorem forM_checkShare_inv {shares : List ShamirShare} {dataLength : Nat}
    (h : shares.forM (checkShare dataLength) = .ok ()) :
    ∀ share ∈ shares, share.data.length = dataLength
      ∧ 1 ≤ share.index ∧ share.index ≤ 255 := by
  induction shares with
  | nil => simp
  | cons share shares ih =>
    change (checkShare dataLength share >>= fun _ =>
      shares.forM (checkShare dataLength)) = .ok () at h
    rw [checkShare] at h
    split_ifs at h with hdata hindex
    · cases h
    · cases h
    · exact List.forall_mem_cons.mpr ⟨⟨not_not.mp hdata, by omega, by omega⟩, ih h⟩

theorem checkLength_inv {secret app : Bytes} {secretLength : Option Nat}
    (h : checkLength secret secretLength = .ok app) :
    secret = app ∧ ∀ expected ∈ secretLength, secret.length = expected := by
  cases secretLength with
  | none => exact ⟨Except.ok.inj h, by simp⟩
  | some expected =>
    rw [checkLength] at h
    split_ifs at h with hlen
    exact ⟨Except.ok.inj h, by simpa using hlen⟩

/-- **What the app recovers**, when it does: of well-formed shares, the
interpolation through all of them. -/
theorem reconstructSecret_inv {shares : List ShamirShare} {secretLength : Option Nat}
    {secret : Bytes} (h : reconstructSecret shares secretLength = .ok secret) :
    WellFormed secret.length shares
      ∧ (∀ expected ∈ secretLength, secret.length = expected)
      ∧ secret = (List.range secret.length).map (interpolated shares) := by
  match shares with
  | [] => cases h
  | [_] => cases h
  | first :: second :: rest =>
    have henough : 2 ≤ (first :: second :: rest).length := by simp
    rw [reconstructSecret] at h
    generalize first :: second :: rest = shares at h henough ⊢
    cases hcheck : shares.forM (checkShare first.data.length) with
    | error message =>
      rw [hcheck] at h
      cases h
    | ok done =>
      rw [hcheck] at h
      change (if (shares.map (·.index)).dedup.length ≠ shares.length then
          throw "Duplicate share indices detected"
        else do
          let secret ← (List.range first.data.length).mapM (reconstructByte shares)
          checkLength secret secretLength : Except String Bytes) = .ok secret at h
      split_ifs at h with hdup
      have hnodup : (shares.map (·.index)).Nodup := by
        refine List.dedup_eq_self.mp ((List.dedup_sublist _).eq_of_length ?_)
        rw [List.length_map]
        exact not_not.mp hdup
      have hwf : WellFormed first.data.length shares :=
        ⟨henough, forM_checkShare_inv hcheck, hnodup⟩
      rw [Run.mapM_ok _ fun i _ => reconstructByte_eq hwf.xsOf_nodup i] at h
      obtain ⟨rfl, hexpected⟩ := checkLength_inv h
      refine ⟨?_, hexpected, ?_⟩
      · simpa using hwf
      · simp [interpolated]

theorem WellFormed.reconstruct {dataLength : Nat} {shares : List ShamirShare}
    {secretLength : Option Nat} (h : WellFormed dataLength shares)
    (hexpected : ∀ expected ∈ secretLength, dataLength = expected) :
    reconstructSecret shares secretLength
      = .ok ((List.range dataLength).map (interpolated shares)) := by
  have hlen : ((List.range dataLength).map (interpolated shares)).length = dataLength := by simp
  rw [← hlen] at hexpected
  refine reconstructSecret_of h.enough ?_ h.distinct hexpected fun byteIdx hb => ?_
  · rw [hlen]
    exact h.share
  · rw [reconstructByte_eq h.xsOf_nodup]
    simp [interpolated]

/-- Shares on a polynomial of no more coefficients give its constant term. -/
theorem interpolated_of_coeffs {shares : List ShamirShare} {byteIdx : Nat}
    {coeffs : Bytes} (hx : (xsOf shares).Nodup)
    (hlen : coeffs.length ≤ shares.length)
    (hy : ∀ share ∈ shares,
      share.data.getD byteIdx 0 = evaluate coeffs (UInt8.ofNat share.index)) :
    interpolated shares byteIdx = coeffs.headD 0 := by
  have hys : toField (ysOf shares byteIdx)
      = (toField (xsOf shares)).map (horner (toField coeffs)) := by
    simp only [toField, ysOf, xsOf, List.map_map]
    refine List.map_congr_left fun share hmem => ?_
    rw [Function.comp_apply, hy share hmem, evaluate_eq]
    rfl
  rw [interpolated, hys, recoverAtZero_horner (toField_nodup hx) (by simpa [xsOf] using hlen)]
  cases coeffs with
  | nil => rfl
  | cons c coeffs => rfl

end UsbVault.App.Recovery
