import UsbVault.Lib.Run
import UsbVault.Lib.Sharing
import UsbVault.Crypto.Gf256
import UsbVault.Crypto.Primitives

/-!
# Shamir

`shamir.rs`: splitting a secret into threshold shares over GF(2⁸), and
recovering it. A share is its index followed by one evaluation for each
byte of the secret. The evaluation and the Lagrange loop of the source
are the `Sharing` library's over the field `GF256`, from which recovery
and secrecy follow.
-/

namespace UsbVault

open Wire Sharing

/-! ## The functions of the source -/

/-- `(threshold - 1) as usize`: the random coefficients for each byte. -/
def coeffCount (threshold : UInt8) : Nat := (threshold - 1).toNat

/-- The random coefficients of one byte; the index is always in range. -/
def coeffsAt (randomCoeffs : Bytes) (count byteIdx : Nat) : Bytes :=
  (List.range count).map fun c => randomCoeffs.getD (byteIdx * count + c) 0

/-- The polynomial of a secret byte and its position: the byte, then its
random coefficients. -/
def bytePoly (randomCoeffs : Bytes) (count : Nat) (indexed : UInt8 × Nat) :
    Bytes :=
  indexed.1 :: coeffsAt randomCoeffs count indexed.2

/-- Evaluate one byte's polynomial at every share's index. -/
def pushEvaluations (poly : Bytes) (shares : List Bytes) : List Bytes :=
  shares.mapIdx fun i share => share ++ [gf256Eval poly (UInt8.ofNat (i + 1))]

/-- `create_shares`, with the random coefficients it draws. -/
def createShares (secret : Bytes) (threshold : UInt8) (total : Nat)
    (randomCoeffs : ByteVec (secret.length * coeffCount threshold)) :
    Result (List Bytes) :=
  if secret = [] then .error .invalidArgument
  else if threshold < 2 then .error .invalidArgument
  else if total < threshold.toNat ∨ total > 255 then .error .invalidArgument
  else
    let indices := (List.range total).map fun i => [UInt8.ofNat (i + 1)]
    .ok (secret.zipIdx.foldl (fun shares indexed =>
      pushEvaluations
        (bytePoly randomCoeffs.toList (coeffCount threshold) indexed) shares)
      indices)

/-- One round of the basis loop: multiply by `x_j / (x_j - x_i)`. -/
def basisStep (xs : Bytes) (i : Nat) (basis : UInt8) (j : Nat) : Result UInt8 :=
  if i = j then .ok basis
  else
    let num := xs.getD j 0
    let den := xs.getD j 0 ^^^ xs.getD i 0
    if den = 0 then .error .sharingError
    else .ok (gf256Mul basis (gf256Mul num (gf256Inv den)))

/-- The Lagrange basis of `recover_secret` for the share `i`. -/
def lagrangeBasis (xs : Bytes) (i : Nat) : Result UInt8 :=
  (List.range xs.length).foldlM (basisStep xs i) 1

/-- One byte of the secret. -/
def recoverByte (xs : Bytes) (shares : List Bytes) (byteIdx : Nat) :
    Result UInt8 :=
  (List.range xs.length).foldlM (fun value i => do
    let yi := (shares.getD i []).getD (1 + byteIdx) 0
    let basis ← lagrangeBasis xs i
    return value ^^^ gf256Mul yi basis) 0

/-- `recover_secret`; `none` is a panic: the first share is indexed, and
its length is decremented, before anything about it is checked. -/
def recoverSecret (shares : List Bytes) (threshold : UInt8) :
    Option (Result Bytes) :=
  if shares.length < threshold.toNat then some (.error .invalidArgument)
  else
    let shares := shares.take threshold.toNat
    match shares.head? with
    | none => none
    | some [] => none
    | some (_ :: data) =>
      let dataLen := data.length
      if dataLen = 0 then some (.error .sharingError)
      else if ¬shares.all (fun share => share.length = dataLen + 1) then
        some (.error .sharingError)
      else
        let xs := shares.map (fun share => share.headD 0)
        if ¬xs.Nodup then some (.error .sharingError)
        else some ((List.range dataLen).mapM (recoverByte xs shares))

/-! ## The source's loops over the field -/

def toField (bs : Bytes) : List GF256 := bs.map GF256.mk

@[simp] theorem toField_length (bs : Bytes) : (toField bs).length = bs.length := by
  simp [toField]

theorem toField_node (bs : Bytes) (i : Nat) :
    node (toField bs) i = ⟨bs.getD i 0⟩ := by
  have hzero : (0 : GF256) = ⟨0⟩ := rfl
  rw [node, toField, hzero, List.getD_map]

theorem toField_nodup {bs : Bytes} (h : bs.Nodup) : (toField bs).Nodup := by
  refine List.Nodup.map ?_ h
  intro a b hab
  exact congrArg GF256.byte hab

theorem gf256Eval_eq (coefficients : Bytes) (x : UInt8) :
    gf256Eval coefficients x = (horner (toField coefficients) ⟨x⟩).byte := by
  rw [gf256Eval, List.foldl_reverse]
  induction coefficients with
  | nil => rfl
  | cons c cs ih => simp [ih, toField, horner]

theorem gf256Eval_mk (coefficients : Bytes) (x : UInt8) :
    (⟨gf256Eval coefficients x⟩ : GF256) = horner (toField coefficients) ⟨x⟩ := by
  rw [gf256Eval_eq]

theorem basisStep_ok {xs : Bytes} (hx : xs.Nodup) {i j : Nat}
    (hi : i < xs.length) (hj : j < xs.length) (basis : GF256) :
    basisStep xs i basis.byte j
      = .ok (if i = j then basis
          else basis * (node (toField xs) j
            * (node (toField xs) j - node (toField xs) i)⁻¹)).byte := by
  by_cases hij : i = j
  · simp [basisStep, hij]
  · have hden : xs.getD j 0 ^^^ xs.getD i 0 ≠ 0 := by
      intro hzero
      have heq := UInt8.xor_eq_zero_iff.mp hzero
      rw [List.getD_eq_getElem _ _ hj, List.getD_eq_getElem _ _ hi] at heq
      exact hij ((List.Nodup.getElem_inj_iff hx).mp heq).symm
    simp only [basisStep, if_neg hij, if_neg hden, toField_node, GF256.mul_byte,
      GF256.inv_byte, GF256.sub_byte]

theorem lagrangeBasis_eq {xs : Bytes} (hx : xs.Nodup) {i : Nat}
    (hi : i < xs.length) :
    lagrangeBasis xs i = .ok (basisAtZero (toField xs) i).byte := by
  rw [lagrangeBasis, basisAtZero, toField_length, ← foldl_range_mul_skip]
  have hstep : ∀ basis : GF256, ∀ j ∈ List.range xs.length,
      basisStep xs i basis.byte j = .ok (if i = j then basis
          else basis * (node (toField xs) j
            * (node (toField xs) j - node (toField xs) i)⁻¹)).byte :=
    fun basis j hj => basisStep_ok hx hi (List.mem_range.mp hj) basis
  exact Run.foldlM_hom_ok (g := GF256.byte) _ hstep 1

/-- With distinct indices, the value loop is the interpolation at zero. -/
theorem recoverByte_eq {xs : Bytes} (hx : xs.Nodup) {shares : List Bytes}
    {ys : Bytes} {byteIdx : Nat}
    (hys : ∀ i, (shares.getD i []).getD (1 + byteIdx) 0 = ys.getD i 0) :
    recoverByte xs shares byteIdx
      = .ok (recoverAtZero (toField xs) (toField ys)).byte := by
  rw [recoverByte, recoverAtZero, toField_length, ← foldl_range_add]
  have hstep : ∀ value : GF256, ∀ i ∈ List.range xs.length,
      (do
        let yi := (shares.getD i []).getD (1 + byteIdx) 0
        let basis ← lagrangeBasis xs i
        return value.byte ^^^ gf256Mul yi basis : Result UInt8)
      = .ok (value + node (toField ys) i * basisAtZero (toField xs) i).byte := by
    intro value i hi
    rw [lagrangeBasis_eq hx (List.mem_range.mp hi), toField_node, hys]
    rfl
  exact Run.foldlM_hom_ok (g := GF256.byte) _ hstep 0

/-! ## The shares -/

/-- The share of index `x`. -/
def shareAt (secret randomCoeffs : Bytes) (count : Nat) (x : UInt8) : Bytes :=
  x :: secret.zipIdx.map fun indexed =>
    gf256Eval (bytePoly randomCoeffs count indexed) x

/-- The index of a share. -/
def shareIndex (share : Bytes) : UInt8 := share.headD 0

theorem pushEvaluations_map (poly : Bytes) (total : Nat) (f : Nat → Bytes) :
    pushEvaluations poly ((List.range total).map f)
      = (List.range total).map fun i =>
          f i ++ [gf256Eval poly (UInt8.ofNat (i + 1))] := by
  refine List.ext_getElem (by simp [pushEvaluations]) ?_
  intro i hi hi'
  simp [pushEvaluations]

theorem foldl_pushEvaluations (polys : List Bytes) (total : Nat)
    (f : Nat → Bytes) :
    polys.foldl (fun shares poly => pushEvaluations poly shares)
        ((List.range total).map f)
      = (List.range total).map fun i =>
          f i ++ polys.map fun poly => gf256Eval poly (UInt8.ofNat (i + 1)) := by
  induction polys generalizing f with
  | nil => simp
  | cons poly polys ih =>
    rw [List.foldl_cons, pushEvaluations_map, ih]
    simp

/-- Created shares are the polynomials' values at `1, …, total`. -/
theorem createShares_ok {secret : Bytes} {threshold : UInt8} {total : Nat}
    (hsecret : secret ≠ []) (ht : 2 ≤ threshold) (htn : threshold.toNat ≤ total)
    (hn : total ≤ 255)
    (randomCoeffs : ByteVec (secret.length * coeffCount threshold)) :
    createShares secret threshold total randomCoeffs
      = .ok ((List.range total).map fun i =>
          shareAt secret randomCoeffs.toList (coeffCount threshold)
            (UInt8.ofNat (i + 1))) := by
  have hfold := foldl_pushEvaluations
    (secret.zipIdx.map (bytePoly randomCoeffs.toList (coeffCount threshold)))
    total (fun i => [UInt8.ofNat (i + 1)])
  rw [List.foldl_map] at hfold
  rw [createShares, if_neg hsecret, if_neg (UInt8.not_lt.mpr ht),
    if_neg (by omega)]
  refine (congrArg Except.ok hfold).trans ?_
  simp [shareAt, Function.comp_def]

theorem coeffCount_succ {threshold : UInt8} (ht : 2 ≤ threshold) :
    coeffCount threshold + 1 = threshold.toNat := by
  have h2 : 2 ≤ threshold.toNat := UInt8.le_iff_toNat_le.mp ht
  rw [coeffCount, UInt8.toNat_sub_of_le _ _ (UInt8.le_iff_toNat_le.mpr (by
    show 1 ≤ threshold.toNat
    omega))]
  show threshold.toNat - 1 + 1 = threshold.toNat
  omega

@[simp] theorem coeffsAt_length (randomCoeffs : Bytes) (count byteIdx : Nat) :
    (coeffsAt randomCoeffs count byteIdx).length = count := by
  simp [coeffsAt]

@[simp] theorem shareAt_length (secret randomCoeffs : Bytes) (count : Nat)
    (x : UInt8) :
    (shareAt secret randomCoeffs count x).length = secret.length + 1 := by
  simp [shareAt]

@[simp] theorem shareIndex_shareAt (secret randomCoeffs : Bytes) (count : Nat)
    (x : UInt8) : shareIndex (shareAt secret randomCoeffs count x) = x := rfl

theorem shareAt_getD {secret randomCoeffs : Bytes} {count byteIdx : Nat}
    (hidx : byteIdx < secret.length) (x : UInt8) :
    (shareAt secret randomCoeffs count x).getD (1 + byteIdx) 0
      = gf256Eval (bytePoly randomCoeffs count (secret[byteIdx], byteIdx)) x := by
  rw [Nat.add_comm]
  simp [shareAt, hidx]

/-! ## Recovery -/

/-- Enough shares with distinct indices interpolate to the secret byte. -/
theorem recoverByte_shareAt {secret randomCoeffs xs : Bytes} {count byteIdx : Nat}
    (hx : xs.Nodup) (hcount : count + 1 ≤ xs.length)
    (hidx : byteIdx < secret.length) :
    recoverByte xs (xs.map (shareAt secret randomCoeffs count)) byteIdx
      = .ok secret[byteIdx] := by
  let poly := bytePoly randomCoeffs count (secret[byteIdx], byteIdx)
  have hys : ∀ i, ((xs.map (shareAt secret randomCoeffs count)).getD i []).getD
      (1 + byteIdx) 0 = (xs.map (gf256Eval poly)).getD i 0 := by
    intro i
    by_cases hi : i < xs.length
    · have hshare : (shareAt secret randomCoeffs count xs[i]).getD
          (1 + byteIdx) 0 = gf256Eval poly xs[i] := shareAt_getD hidx _
      rw [List.getD_eq_getElem _ [] (by simpa using hi), List.getElem_map,
        hshare, List.getD_eq_getElem _ 0 (by simpa using hi), List.getElem_map]
    · simp [hi]
  have hfield : toField (xs.map (gf256Eval poly))
      = (toField xs).map (horner (toField poly)) := by
    simp [toField, gf256Eval_mk]
  have hlen : (toField poly).length ≤ (toField xs).length := by
    simpa [poly, bytePoly] using hcount
  rw [recoverByte_eq hx hys, hfield,
    recoverAtZero_horner (toField_nodup hx) hlen]
  rfl

/-- Well-formed shares with distinct indices reach the interpolation. -/
theorem recoverSecret_of {shares : List Bytes} {threshold : UInt8}
    {first : UInt8} {data : Bytes}
    (hlen : threshold.toNat ≤ shares.length)
    (hhead : (shares.take threshold.toNat).head? = some (first :: data))
    (hdata : data.length ≠ 0)
    (hall : ∀ share ∈ shares.take threshold.toNat,
      share.length = data.length + 1)
    (hnodup : ((shares.take threshold.toNat).map shareIndex).Nodup) :
    recoverSecret shares threshold
      = some ((List.range data.length).mapM
          (recoverByte ((shares.take threshold.toNat).map shareIndex)
            (shares.take threshold.toNat))) := by
  have hall' : (shares.take threshold.toNat).all
      (fun share => share.length = data.length + 1) = true := by
    simpa [List.all_eq_true] using hall
  simp only [recoverSecret, if_neg (Nat.not_lt.mpr hlen), hhead, if_neg hdata,
    hall', not_true_eq_false, if_false]
  exact if_neg (not_not.mpr hnodup)

/-- **Recovery**: every list of at least `threshold` created shares with
distinct indices gives back the secret. -/
theorem recoverSecret_createShares (secret : Bytes) (threshold : UInt8)
    (total : Nat)
    (randomCoeffs : ByteVec (secret.length * coeffCount threshold))
    (hsecret : secret ≠ []) (ht : 2 ≤ threshold)
    (htn : threshold.toNat ≤ total) (hn : total ≤ 255) :
    ∃ shares, createShares secret threshold total randomCoeffs = .ok shares
      ∧ ∀ picked : List Bytes, (∀ share ∈ picked, share ∈ shares) →
        threshold.toNat ≤ picked.length → (picked.map shareIndex).Nodup →
        recoverSecret picked threshold = some (.ok secret) := by
  refine ⟨_, createShares_ok hsecret ht htn hn randomCoeffs, ?_⟩
  intro picked hpicked hlen hnodup
  let count := coeffCount threshold
  let xs := (picked.take threshold.toNat).map shareIndex
  have hcount : count + 1 = threshold.toNat := coeffCount_succ ht
  have hxlen : xs.length = threshold.toNat := by simp [xs, hlen]
  have hx : xs.Nodup := hnodup.sublist ((List.take_sublist _ _).map _)
  -- each picked share is the evaluation at its own index
  have htake : picked.take threshold.toNat
      = xs.map (shareAt secret randomCoeffs.toList count) := by
    rw [List.map_map]
    refine (List.map_id _).symm.trans (List.map_congr_left ?_)
    intro share hshare
    have hmem := hpicked share (List.mem_of_mem_take hshare)
    obtain ⟨i, -, rfl⟩ := List.mem_map.mp hmem
    rfl
  have hhead : (picked.take threshold.toNat).head?
      = some (shareAt secret randomCoeffs.toList count (xs.headD 0)) := by
    rw [htake]
    cases hxs : xs with
    | nil => simp [hxs] at hxlen; omega
    | cons x xs => rfl
  have hall : ∀ share ∈ picked.take threshold.toNat,
      share.length = secret.length + 1 := by
    intro share hshare
    rw [htake] at hshare
    obtain ⟨x, -, rfl⟩ := List.mem_map.mp hshare
    simp
  have hdata := recoverSecret_of hlen hhead (by simpa using hsecret)
    (by simpa using hall) hx
  have hbytes : ∀ i ∈ List.range secret.length,
      recoverByte xs (xs.map (shareAt secret randomCoeffs.toList count)) i
        = .ok (secret.getD i 0) := by
    intro i hi
    have hidx : i < secret.length := List.mem_range.mp hi
    rw [recoverByte_shareAt hx (by omega) hidx, List.getD_eq_getElem _ _ hidx]
  have hsecretMap : (List.range secret.length).map (fun i => secret.getD i 0)
      = secret := by
    refine List.ext_getElem (by simp) ?_
    intro i hi hi'
    simp [hi']
  rw [← htake] at hbytes
  rw [hdata, List.length_map, List.length_zipIdx, Run.mapM_ok _ hbytes,
    hsecretMap]

/-- Two bytes split 2-of-3, recovered from the third and the first share. -/
theorem recoverSecret_createShares_sample :
    ∃ shares, createShares [42, 7] 2 3 ⟨[5, 200], rfl⟩ = .ok shares
      ∧ shares = [[1, 47, 207], [2, 32, 140], [3, 37, 68]]
      ∧ recoverSecret [[3, 37, 68], [1, 47, 207]] 2 = some (.ok [42, 7]) := by
  obtain ⟨shares, hc, hrecover⟩ :=
    recoverSecret_createShares [42, 7] 2 3 ⟨[5, 200], rfl⟩ (by decide)
      (by decide) (by decide) (by decide)
  have hshares : shares = [[1, 47, 207], [2, 32, 140], [3, 37, 68]] :=
    Except.ok.inj (hc.symm.trans rfl)
  subst hshares
  exact ⟨_, hc, rfl, hrecover _ (by decide) (by decide) (by decide)⟩

/-! ## Secrecy -/

/-- Below the threshold every secret byte has exactly one continuation. -/
theorem existsUnique_coeffs_byte {xs ys : Bytes} (hx : xs.Nodup) (h0 : 0 ∉ xs)
    (hlen : ys.length = xs.length) (secretByte : UInt8) :
    ∃! coeffs : Bytes, coeffs.length = xs.length
      ∧ xs.map (gf256Eval (secretByte :: coeffs)) = ys := by
  have h0' : (0 : GF256) ∉ toField xs := by
    intro hmem
    obtain ⟨x, hmem, hzero⟩ := List.mem_map.mp hmem
    obtain rfl : x = 0 := congrArg GF256.byte hzero
    exact h0 hmem
  have hbytes : ∀ cs : List GF256, toField (cs.map GF256.byte) = cs := by
    intro cs
    simp [toField, Function.comp_def]
  have hfield : ∀ coeffs : Bytes,
      xs.map (gf256Eval (secretByte :: coeffs)) = ys
        ↔ (toField xs).map (horner (⟨secretByte⟩ :: toField coeffs))
          = toField ys := by
    intro coeffs
    have hinj : Function.Injective GF256.mk := fun a b h => congrArg GF256.byte h
    have hmap : (toField xs).map (horner (⟨secretByte⟩ :: toField coeffs))
        = toField (xs.map (gf256Eval (secretByte :: coeffs))) := by
      simp [toField, gf256Eval_mk]
    rw [hmap]
    exact (List.map_injective_iff.mpr hinj).eq_iff.symm
  obtain ⟨cs, ⟨hcs, hval⟩, huniq⟩ :=
    existsUnique_tail (toField_nodup hx) h0'
      (by simpa using hlen : (toField ys).length = (toField xs).length)
      ⟨secretByte⟩
  refine ⟨cs.map GF256.byte, ⟨by simpa using hcs, ?_⟩, ?_⟩
  · rw [hfield, hbytes]
    exact hval
  · rintro ds ⟨hds, hval'⟩
    have heq := huniq (toField ds) ⟨by simpa using hds, (hfield ds).mp hval'⟩
    rw [← heq]
    simp [toField, Function.comp_def]

theorem coeffsAt_getElem {randomCoeffs : Bytes} {count b c : Nat}
    (hc : c < (coeffsAt randomCoeffs count b).length) :
    (coeffsAt randomCoeffs count b)[c] = randomCoeffs.getD (b * count + c) 0 := by
  simp [coeffsAt]

theorem coeff_index_lt {bytes count b c : Nat} (hb : b < bytes)
    (hc : c < count) : b * count + c < bytes * count := by
  calc b * count + c < b * count + count := by omega
    _ = (b + 1) * count := by ring
    _ ≤ bytes * count := Nat.mul_le_mul_right _ hb

theorem exists_coeffsAt {bytes count : Nat} (cs : Nat → Bytes)
    (hcs : ∀ b < bytes, (cs b).length = count) :
    ∃ v : ByteVec (bytes * count),
      ∀ b < bytes, coeffsAt v.toList count b = cs b := by
  refine ⟨.ofFn fun i => (cs (i / count)).getD (i % count) 0, ?_⟩
  intro b hb
  refine List.ext_getElem (by simp [hcs b hb]) ?_
  intro c hc hc'
  have hcount : c < count := by simpa using hc
  have hdiv : (b * count + c) / count = b := by
    rw [Nat.mul_comm, Nat.mul_add_div (by omega), Nat.div_eq_of_lt hcount,
      Nat.add_zero]
  have hmod : (b * count + c) % count = c := by
    rw [Nat.mul_comm, Nat.mul_add_mod, Nat.mod_eq_of_lt hcount]
  rw [coeffsAt_getElem, List.Vector.toList_ofFn,
    List.getD_eq_getElem _ _ (by simpa using coeff_index_lt hb hcount),
    List.getElem_ofFn, hdiv, hmod, List.getD_eq_getElem _ _ hc']

theorem coeffsAt_ext {bytes count : Nat} {v w : ByteVec (bytes * count)}
    (h : ∀ b < bytes, coeffsAt v.toList count b = coeffsAt w.toList count b) :
    v = w := by
  refine List.Vector.eq _ _ (List.ext_getElem (by simp) ?_)
  intro i hi hi'
  have hlt : i < bytes * count := by simpa using hi
  have hpos : 0 < count := by
    refine Nat.pos_of_ne_zero fun hzero => ?_
    simp [hzero] at hlt
  have hc : i % count < count := Nat.mod_lt i hpos
  have hidx : i / count * count + i % count = i := by
    rw [Nat.mul_comm]
    exact Nat.div_add_mod i count
  have hb := h (i / count) (Nat.div_lt_of_lt_mul (by rwa [Nat.mul_comm]))
  have hget : v.toList.getD i 0 = w.toList.getD i 0 := by
    have hcv : i % count < (coeffsAt v.toList count (i / count)).length := by
      rwa [coeffsAt_length]
    have hcw : i % count < (coeffsAt w.toList count (i / count)).length := by
      rwa [coeffsAt_length]
    rw [← hidx, ← coeffsAt_getElem hcv, ← coeffsAt_getElem hcw]
    simp only [hb]
  rwa [List.getD_eq_getElem _ _ hi, List.getD_eq_getElem _ _ hi'] at hget

theorem mem_created_iff {secret randomCoeffs : Bytes} {count total : Nat}
    {share : Bytes} (hlen : share.length = secret.length + 1)
    (hpos : 1 ≤ (shareIndex share).toNat)
    (hle : (shareIndex share).toNat ≤ total) :
    share ∈ (List.range total).map
        (fun i => shareAt secret randomCoeffs count (UInt8.ofNat (i + 1)))
      ↔ ∀ b (hb : b < secret.length),
        gf256Eval (bytePoly randomCoeffs count (secret[b], b)) (shareIndex share)
          = share.getD (1 + b) 0 := by
  constructor
  · intro hmem b hb
    obtain ⟨i, -, rfl⟩ := List.mem_map.mp hmem
    rw [shareAt_getD hb, shareIndex_shareAt]
  · intro hval
    refine List.mem_map.mpr
      ⟨(shareIndex share).toNat - 1, List.mem_range.mpr (by omega), ?_⟩
    rw [Nat.sub_add_cancel hpos, UInt8.ofNat_toNat]
    -- the index agrees by construction, the bytes one by one
    cases share with
    | nil => simp at hlen
    | cons x data =>
      refine congrArg (x :: ·) (List.ext_getElem ?_ ?_)
      · simpa using hlen.symm
      · intro b hb hb'
        have hb'' : b < secret.length := by simpa using hb
        have hbyte := hval b hb''
        rw [Nat.add_comm, List.getD_cons_succ, List.getD_eq_getElem _ _ hb']
          at hbyte
        simpa [shareIndex] using hbyte

/-- The coefficients produce the observed shares when they produce each of
their bytes. -/
theorem created_contains_iff {secret : Bytes} {threshold : UInt8}
    {total : Nat} {observed : List Bytes} (hsecret : secret ≠ [])
    (ht : 2 ≤ threshold) (htn : threshold.toNat ≤ total) (hn : total ≤ 255)
    (hobs : ∀ share ∈ observed, share.length = secret.length + 1
      ∧ 1 ≤ (shareIndex share).toNat ∧ (shareIndex share).toNat ≤ total)
    (v : ByteVec (secret.length * coeffCount threshold)) :
    (∃ shares, createShares secret threshold total v = .ok shares
        ∧ ∀ share ∈ observed, share ∈ shares)
      ↔ ∀ b < secret.length,
        (observed.map shareIndex).map (gf256Eval
            (secret.getD b 0 :: coeffsAt v.toList (coeffCount threshold) b))
          = observed.map fun share => share.getD (1 + b) 0 := by
  have hcreate := createShares_ok hsecret ht htn hn v
  constructor
  · rintro ⟨shares, hshares, hmem⟩ b hb
    rw [hcreate] at hshares
    obtain rfl := Except.ok.inj hshares
    rw [List.map_map]
    refine List.map_congr_left fun share hshare => ?_
    obtain ⟨hlen, hpos, hle⟩ := hobs share hshare
    have hval := (mem_created_iff hlen hpos hle).mp (hmem share hshare) b hb
    rw [List.getD_eq_getElem _ _ hb]
    exact hval
  · intro hval
    refine ⟨_, hcreate, fun share hshare => ?_⟩
    obtain ⟨hlen, hpos, hle⟩ := hobs share hshare
    refine (mem_created_iff hlen hpos hle).mpr fun b hb => ?_
    have hmap := hval b hb
    rw [List.map_map, List.getD_eq_getElem _ _ hb] at hmap
    exact List.map_inj_left.mp hmap share hshare

/-- **Secrecy**: at any `threshold - 1` distinct nonzero indices, whatever
the observed bytes, each secret byte has exactly one choice of random
coefficients that produces them; and whatever the observed shares, each
secret of their length has exactly one. -/
theorem shares_hide_secret (threshold : UInt8) (total : Nat)
    (ht : 2 ≤ threshold) (htn : threshold.toNat ≤ total) (hn : total ≤ 255) :
    (∀ (xs ys : Bytes) (secretByte : UInt8),
      xs.length = coeffCount threshold → ys.length = coeffCount threshold →
      xs.Nodup → 0 ∉ xs →
      ∃! coeffs : ByteVec (coeffCount threshold),
        xs.map (gf256Eval (secretByte :: coeffs.toList)) = ys)
    ∧ (∀ (secret : Bytes) (observed : List Bytes),
      secret ≠ [] → observed.length = coeffCount threshold →
      (observed.map shareIndex).Nodup →
      (∀ share ∈ observed, share.length = secret.length + 1
        ∧ 1 ≤ (shareIndex share).toNat ∧ (shareIndex share).toNat ≤ total) →
      ∃! randomCoeffs : ByteVec (secret.length * coeffCount threshold),
        ∃ shares, createShares secret threshold total randomCoeffs = .ok shares
          ∧ ∀ share ∈ observed, share ∈ shares) := by
  constructor
  · intro xs ys secretByte hxlen hylen hx h0
    obtain ⟨cs, ⟨hcs, hval⟩, huniq⟩ :=
      existsUnique_coeffs_byte hx h0 (hylen.trans hxlen.symm) secretByte
    refine ⟨⟨cs, hcs.trans hxlen⟩, hval, ?_⟩
    intro ds hds
    exact List.Vector.eq _ _
      (huniq ds.toList ⟨ds.toList_length.trans hxlen.symm, hds⟩)
  · intro secret observed hsecret holen hx hobs
    let count := coeffCount threshold
    let xs := observed.map shareIndex
    have hxlen : xs.length = count := by simpa [xs] using holen
    have h0 : 0 ∉ xs := by
      intro hmem
      obtain ⟨share, hshare, hzero⟩ := List.mem_map.mp hmem
      have hpos := (hobs share hshare).2.1
      simp [hzero] at hpos
    -- the unique coefficients of each byte through the observed shares
    have hbyte : ∀ b, ∃! cs : Bytes, cs.length = xs.length
        ∧ xs.map (gf256Eval (secret.getD b 0 :: cs))
          = observed.map fun share => share.getD (1 + b) 0 :=
      fun b => existsUnique_coeffs_byte hx h0 (by simp) _
    choose cs hcs huniq using hbyte
    have hproduces : ∀ v : ByteVec (secret.length * count),
        (∃ shares, createShares secret threshold total v = .ok shares
          ∧ ∀ share ∈ observed, share ∈ shares)
        ↔ ∀ b < secret.length, coeffsAt v.toList count b = cs b := by
      intro v
      refine (created_contains_iff hsecret ht htn hn hobs v).trans ?_
      constructor
      · intro hval b hb
        exact huniq b _ ⟨by simp [hxlen, count], hval b hb⟩
      · intro hcoeffs b hb
        rw [hcoeffs b hb]
        exact (hcs b).2
    obtain ⟨v, hv⟩ := exists_coeffsAt cs fun b _ => (hcs b).1.trans hxlen
    refine ⟨v, (hproduces v).mpr hv, ?_⟩
    intro w hw
    exact coeffsAt_ext fun b hb =>
      ((hproduces w).mp hw b hb).trans (hv b hb).symm

/-- Two observed shares of a 3-of-5 split of two bytes. -/
theorem shares_hide_secret_sample :
    (∃! coeffs : ByteVec (coeffCount 3),
        [2, 4].map (gf256Eval (42 :: coeffs.toList)) = [7, 9])
    ∧ ∃! randomCoeffs : ByteVec (2 * coeffCount 3),
        ∃ shares, createShares [42, 43] 3 5 randomCoeffs = .ok shares
          ∧ ∀ share ∈ [[2, 7, 1], [4, 9, 0]], share ∈ shares := by
  obtain ⟨hbyte, hshares⟩ :=
    shares_hide_secret 3 5 (by decide) (by decide) (by decide)
  exact ⟨hbyte [2, 4] [7, 9] 42 rfl rfl (by decide) (by decide),
    hshares [42, 43] [[2, 7, 1], [4, 9, 0]] (by decide) rfl (by decide)
      (by decide)⟩

end UsbVault
