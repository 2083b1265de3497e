import UsbVault.Lib.Faults
import UsbVault.Crypto.Shamir

/-!
# The faults of Shamir recovery

`recover_secret` of `shamir.rs` once more, with what each of its indexings,
its length subtraction and its field inverses need. The guards cover all of
them but two: a threshold of zero leaves no first share, and an empty first
share has no length to subtract from (`recoverSecret_returns_iff`).

Where nothing stops it, it is `recoverSecret` (`recoverSecretChecked_eq`).
-/

namespace UsbVault

open Wire Faults

/-! ## The function of the source -/

/-- `gf256_inv`, which has no inverse of zero to give. -/
def gf256InvChecked (a : UInt8) : Checked CryptoError UInt8 :=
  if a = 0 then fault .division else lift (.ok (gf256Inv a))

/-- Every share is as long as the first. -/
def checkLengths (shares : List Bytes) (dataLen : Nat) : Checked CryptoError Unit :=
  shares.forM fun share => reject (share.length ≠ dataLen + 1) .sharingError

/-- The loop over the pairs of indices. -/
def checkDistinct (xs : Bytes) : Checked CryptoError Unit :=
  (List.range xs.length).forM fun i =>
    ((List.range xs.length).drop (i + 1)).forM fun j => do
      let xi ← index xs i
      let xj ← index xs j
      reject (xi = xj) .sharingError

/-- One round of the basis loop. -/
def basisStepChecked (xs : Bytes) (i : Nat) (basis : UInt8) (j : Nat) :
    Checked CryptoError UInt8 :=
  if i = j then lift (.ok basis)
  else do
    let num ← index xs j
    let xi ← index xs i
    if num ^^^ xi = 0 then lift (.error .sharingError)
    else do
      let inv ← gf256InvChecked (num ^^^ xi)
      lift (.ok (gf256Mul basis (gf256Mul num inv)))

/-- One round of the value loop. -/
def valueStepChecked (xs : Bytes) (shares : List Bytes) (byteIdx : Nat) (value : UInt8)
    (i : Nat) : Checked CryptoError UInt8 := do
  let share ← index shares i
  let yi ← index share (1 + byteIdx)
  let basis ← (List.range xs.length).foldlM (basisStepChecked xs i) 1
  lift (.ok (value ^^^ gf256Mul yi basis))

/-- `recover_secret` -/
def recoverSecretChecked (shares : List Bytes) (threshold : UInt8) : Checked CryptoError Bytes :=
  if shares.length < threshold.toNat then lift (.error .invalidArgument)
  else do
    let shares ← slice shares threshold.toNat
    let first ← index shares 0
    let dataLen ← sub first.length 1
    if dataLen = 0 then lift (.error .sharingError)
    else do
      checkLengths shares dataLen
      let xs ← shares.mapM fun share => index share 0
      checkDistinct xs
      (List.range dataLen).mapM fun byteIdx =>
        (List.range xs.length).foldlM (valueStepChecked xs shares byteIdx) 0

/-! ## The guards -/

theorem checkLengths_eq (shares : List Bytes) (dataLen : Nat) :
    checkLengths shares dataLen
      = reject (shares.any fun share => share.length ≠ dataLen + 1) .sharingError :=
  forM_reject fun _ _ => rfl

/-- Two places have one index. -/
def repeats (xs : Bytes) : Bool :=
  (List.range xs.length).any fun i =>
    ((List.range xs.length).drop (i + 1)).any fun j => xs.getD i 0 = xs.getD j 0

theorem mem_drop_range {n i j : Nat} : j ∈ (List.range n).drop i ↔ i ≤ j ∧ j < n := by
  rw [List.mem_drop_iff_getElem]
  constructor
  · rintro ⟨k, hk, rfl⟩
    simp only [List.length_range] at hk
    simp only [List.getElem_range]
    omega
  · rintro ⟨hij, hj⟩
    refine ⟨j - i, by simp; omega, ?_⟩
    simp only [List.getElem_range]
    omega

theorem repeats_iff (xs : Bytes) : repeats xs = true ↔ ¬xs.Nodup := by
  simp only [repeats, List.any_eq_true, List.mem_range, mem_drop_range, decide_eq_true_eq]
  constructor
  · rintro ⟨i, hi, j, ⟨hij, hj⟩, heq⟩ hnodup
    rw [List.getD_eq_getElem _ _ hi, List.getD_eq_getElem _ _ hj] at heq
    have hsame : i = j := (List.Nodup.getElem_inj_iff hnodup).mp heq
    omega
  · intro hnodup
    by_contra hpairs
    refine hnodup (List.pairwise_iff_getElem.mpr ?_)
    intro i j hi hj hij heq
    refine hpairs ⟨i, hi, j, ⟨hij, hj⟩, ?_⟩
    rw [List.getD_eq_getElem _ _ hi, List.getD_eq_getElem _ _ hj, heq]

theorem checkDistinct_eq (xs : Bytes) : checkDistinct xs = reject (repeats xs) .sharingError := by
  refine forM_reject ?_
  intro i hi
  refine forM_reject ?_
  intro j hj
  rw [index_of_lt (List.mem_range.mp hi) 0, index_of_lt (mem_drop_range.mp hj).2 0]
  rfl

/-! ## The interpolation -/

theorem basisStepChecked_eq {xs : Bytes} {i j : Nat} (hi : i < xs.length) (hj : j < xs.length)
    (basis : UInt8) : basisStepChecked xs i basis j = lift (basisStep xs i basis j) := by
  by_cases hij : i = j
  · simp [basisStepChecked, basisStep, hij]
  · rw [basisStepChecked, if_neg hij, index_of_lt hj 0, index_of_lt hi 0, lift_ok_bind,
      lift_ok_bind]
    by_cases hden : xs.getD j 0 ^^^ xs.getD i 0 = 0
    · rw [if_pos hden, basisStep, if_neg hij, if_pos hden]
    · -- the denominator is the inverse's argument
      rw [if_neg hden, gf256InvChecked, if_neg hden, basisStep, if_neg hij, if_neg hden]
      rfl

theorem valueStepChecked_eq {xs : Bytes} {shares : List Bytes} {dataLen byteIdx i : Nat}
    (hshares : shares.length = xs.length) (hlen : ∀ share ∈ shares, share.length = dataLen + 1)
    (hbyte : byteIdx < dataLen) (hi : i < xs.length) (value : UInt8) :
    valueStepChecked xs shares byteIdx value i
      = lift (do
          let yi := (shares.getD i []).getD (1 + byteIdx) 0
          let basis ← lagrangeBasis xs i
          return value ^^^ gf256Mul yi basis) := by
  have his : i < shares.length := by omega
  have hshare : (shares.getD i []).length = dataLen + 1 := by
    rw [List.getD_eq_getElem _ _ his]
    exact hlen _ (List.getElem_mem his)
  rw [valueStepChecked, index_of_lt his [], lift_ok_bind, index_of_lt (by omega) 0, lift_ok_bind,
    foldlM_lift fun basis j hj => basisStepChecked_eq hi (List.mem_range.mp hj) basis,
    lagrangeBasis]
  cases (List.range xs.length).foldlM (basisStep xs i) 1 with
  | error e => rfl
  | ok basis => rfl

theorem recoverByteChecked_eq {xs : Bytes} {shares : List Bytes} {dataLen byteIdx : Nat}
    (hshares : shares.length = xs.length) (hlen : ∀ share ∈ shares, share.length = dataLen + 1)
    (hbyte : byteIdx < dataLen) :
    (List.range xs.length).foldlM (valueStepChecked xs shares byteIdx) 0
      = lift (recoverByte xs shares byteIdx) :=
  foldlM_lift (fun value _ hi =>
    valueStepChecked_eq hshares hlen hbyte (List.mem_range.mp hi) value) 0

/-! ## The function -/

theorem mapM_head_eq {shares : List Bytes} (h : ∀ share ∈ shares, 0 < share.length) :
    (shares.mapM fun share => index share 0)
      = (lift (.ok (shares.map fun share => share.headD 0)) : Checked CryptoError Bytes) := by
  rw [mapM_lift (g := fun share => .ok (share.headD 0))]
  · rw [Run.mapM_ok shares fun _ _ => rfl]
  · intro share hshare
    rw [index_of_lt (h share hshare) 0]
    cases share with
    | nil => rfl
    | cons x share => rfl

/-- The fault of `recover_secret`, where it has one. -/
def recoverFault (threshold : UInt8) : Fault := if threshold = 0 then .index else .subtraction

theorem recoverSecretChecked_take {shares : List Bytes} {threshold : UInt8}
    (hlen : threshold.toNat ≤ shares.length) {first : UInt8} {data : Bytes}
    (hhead : (shares.take threshold.toNat).head? = some (first :: data)) :
    ∃ r, recoverSecretChecked shares threshold = lift r ∧
      recoverSecret shares threshold = some r := by
  rw [recoverSecretChecked, if_neg (Nat.not_lt.mpr hlen), slice_of_le hlen, lift_ok_bind,
    recoverSecret, if_neg (Nat.not_lt.mpr hlen)]
  generalize shares.take threshold.toNat = taken at hhead
  rw [List.head?_eq_getElem?] at hhead
  rw [index_of_getElem? hhead, lift_ok_bind, sub_of_le (by simp), lift_ok_bind]
  simp only [List.length_cons, Nat.add_sub_cancel, List.head?_eq_getElem?, hhead]
  by_cases hdata : data.length = 0
  · rw [if_pos hdata, if_pos hdata]
    exact ⟨_, rfl, rfl⟩
  · rw [if_neg hdata, if_neg hdata, checkLengths_eq]
    by_cases hall : taken.all fun share => share.length = data.length + 1
    · have hshares : ∀ share ∈ taken, share.length = data.length + 1 := by
        simpa [List.all_eq_true] using hall
      have hany : (taken.any fun share => share.length ≠ data.length + 1) = false := by
        simpa [List.any_eq_false] using hshares
      have hpos : ∀ share ∈ taken, 0 < share.length := by
        intro share hshare
        rw [hshares share hshare]
        omega
      rw [hany, mapM_head_eq hpos, if_neg (not_not.mpr hall)]
      simp only [reject, Bool.false_eq_true, if_false, lift_ok_bind, checkDistinct_eq]
      by_cases hnodup : (taken.map fun share => share.headD 0).Nodup
      · have hrepeats : repeats (taken.map fun share => share.headD 0) = false := by
          rw [Bool.eq_false_iff, ne_eq, repeats_iff, not_not]
          exact hnodup
        rw [hrepeats, if_neg (not_not.mpr hnodup)]
        refine ⟨_, ?_, rfl⟩
        simp only [Bool.false_eq_true, if_false, lift_ok_bind]
        refine mapM_lift ?_
        intro byteIdx hbyte
        exact recoverByteChecked_eq (by simp) hshares (List.mem_range.mp hbyte)
      · have hrepeats : repeats (taken.map fun share => share.headD 0) = true :=
          (repeats_iff _).mpr hnodup
        rw [hrepeats, if_pos hnodup]
        exact ⟨_, rfl, rfl⟩
    · have hany : (taken.any fun share => share.length ≠ data.length + 1) = true := by
        simpa [List.all_eq_true] using hall
      rw [hany, if_pos hall]
      exact ⟨_, rfl, rfl⟩

/-- **What stops, and what does not**: where nothing does, the function is
`recoverSecret`, which is stopped in the same cases. -/
theorem recoverSecretChecked_eq (shares : List Bytes) (threshold : UInt8) :
    recoverSecretChecked shares threshold
      = match recoverSecret shares threshold with
        | some r => lift r
        | none => fault (recoverFault threshold) := by
  by_cases hlt : shares.length < threshold.toNat
  · rw [recoverSecretChecked, if_pos hlt, recoverSecret, if_pos hlt]
  · have hlen : threshold.toNat ≤ shares.length := Nat.not_lt.mp hlt
    cases hhead : (shares.take threshold.toNat).head? with
    | none =>
      have hnil : shares.take threshold.toNat = [] := List.head?_eq_none_iff.mp hhead
      have hzero : threshold = 0 := by
        rw [← UInt8.toNat_inj]
        have htake : (shares.take threshold.toNat).length = 0 := by rw [hnil]; rfl
        rw [List.length_take] at htake
        have hzero : threshold.toNat = 0 := by omega
        simpa using hzero
      rw [recoverSecretChecked, if_neg hlt, slice_of_le hlen, recoverSecret, if_neg hlt, hnil,
        recoverFault, if_pos hzero]
      rfl
    | some first =>
      cases first with
      | nil =>
        have hpos : threshold ≠ 0 := by
          rintro rfl
          simp at hhead
        rw [recoverSecretChecked, if_neg hlt, slice_of_le hlen, recoverSecret, if_neg hlt,
          lift_ok_bind, recoverFault, if_neg hpos]
        simp only [hhead]
        rw [List.head?_eq_getElem?] at hhead
        rw [index_of_getElem? hhead]
        rfl
      | cons x data =>
        obtain ⟨r, hchecked, hrecover⟩ := recoverSecretChecked_take hlen hhead
        rw [hchecked, hrecover]

theorem recoverSecret_isSome_iff (shares : List Bytes) (threshold : UInt8) :
    (recoverSecret shares threshold).isSome ↔
      shares.length < threshold.toNat ∨ threshold ≠ 0 ∧ shares.head? ≠ some [] := by
  by_cases hlt : shares.length < threshold.toNat
  · simp [recoverSecret, hlt]
  · by_cases hzero : threshold = 0
    · subst hzero
      simp [recoverSecret]
    · have hpos : threshold.toNat ≠ 0 := by
        intro h
        exact hzero (UInt8.toNat_inj.mp h)
      have hhead : (shares.take threshold.toNat).head? = shares.head? := by
        rw [List.head?_take, if_neg hpos]
      simp only [hlt, hzero, false_or, ne_eq, not_false_eq_true, true_and]
      cases hshares : shares.head? with
      | none =>
        rw [List.head?_eq_none_iff.mp hshares] at hlt
        simp at hlt
        omega
      | some first =>
        cases first with
        | nil => simp [recoverSecret, hlt, hhead, hshares]
        | cons x data =>
          obtain ⟨r, -, hrecover⟩ := recoverSecretChecked_take (Nat.not_lt.mp hlt)
            (hhead.trans hshares)
          simp [hrecover]

/-- **`recover_secret` meets no fault just when** there are too few shares,
or the threshold is not zero and the first share is not empty. -/
theorem recoverSecret_returns_iff (shares : List Bytes) (threshold : UInt8) :
    Returns (recoverSecretChecked shares threshold) ↔
      shares.length < threshold.toNat ∨ threshold ≠ 0 ∧ shares.head? ≠ some [] := by
  rw [← recoverSecret_isSome_iff, recoverSecretChecked_eq]
  cases recoverSecret shares threshold with
  | none => simp
  | some r => simp

/-- **Two inputs that stop it**: no shares at a threshold of zero, and three
empty shares. -/
theorem recoverSecret_faults :
    recoverSecretChecked [] 0 = fault .index ∧ ¬Returns (recoverSecretChecked [] 0)
      ∧ recoverSecretChecked [[], [], []] 3 = fault .subtraction
      ∧ ¬Returns (recoverSecretChecked [[], [], []] 3) :=
  ⟨rfl, not_returns_fault _, rfl, not_returns_fault _⟩

end UsbVault
