import UsbVault.App.RecoveryCodes

/-!
# What recovery returns for other codes

`recoverMEK` of `services/vault/recovery.ts` knows neither the threshold nor
anything of the key it is to return. It checks the form of the shares that the
codes decode to (`WellFormed`) and interpolates. So it gives the right key
exactly for codes that belong to *some* split of this key with as many shares
as there are codes (`recoverMEK_sound_iff`), and for all others a wrong one.
-/

namespace UsbVault.App.Recovery

open Wire Sharing

variable {shares : List ShamirShare}

/-- The key that shares interpolate to. -/
def interpolatedKey (shares : List ShamirShare) : Bytes :=
  (List.range 64).map (interpolated shares)

theorem reconstructSecret_64_iff {key : Bytes} :
    reconstructSecret shares (some 64) = .ok key
      ↔ WellFormed 64 shares ∧ key = interpolatedKey shares := by
  constructor
  · intro h
    obtain ⟨hwf, hlen, heq⟩ := reconstructSecret_inv h
    rw [hlen 64 rfl] at hwf heq
    exact ⟨hwf, heq⟩
  · rintro ⟨hwf, rfl⟩
    exact hwf.reconstruct fun expected hexpected => Option.some.inj hexpected

/-- The codes that give a key: those that decode to well-formed shares. -/
theorem recoverMEK_ok_iff (js : UpperCase) {codes : List (List Char)} {key : Bytes} :
    recoverMEK js codes = .ok key
      ↔ ∃ shares, codes.mapM (decodeRecoveryCode js) = .ok shares
        ∧ WellFormed 64 shares ∧ key = interpolatedKey shares := by
  rw [recoverMEK]
  cases hdecode : codes.mapM (decodeRecoveryCode js) with
  | error message => simp [bind, Except.bind]
  | ok shares =>
    have hkey := @reconstructSecret_64_iff shares key
    simp only [Except.ok.injEq, exists_eq_left', ← hkey, bind, Except.bind]
    cases reconstructSecret shares (some 64) with
    | error message => simp
    | ok mek => rfl

/-! ## Which key it is -/

/-- The shares are of one split of the secret at the threshold `k`. -/
def OfSplit (secret : Bytes) (k : Nat) (shares : List ShamirShare) : Prop :=
  ∃ coefficientBytes : Bytes, ∀ share ∈ shares,
    share = shareAt secret coefficientBytes k share.index

/-- Shares at distinct indices lie, byte by byte, on a polynomial of as many
coefficients. -/
theorem exists_coeffs (hx : (xsOf shares).Nodup) (byteIdx : Nat) :
    ∃ coeffs : Bytes, coeffs.length = shares.length
      ∧ ∀ share ∈ shares,
        share.data.getD byteIdx 0 = evaluate coeffs (UInt8.ofNat share.index) := by
  have hcount : (toField (ysOf shares byteIdx)).length = (toField (xsOf shares)).length := by
    simp [xsOf, ysOf]
  obtain ⟨cs, ⟨hlen, hval⟩, -⟩ := existsUnique_coeffs (toField_nodup hx) hcount
  refine ⟨cs.map GF256.byte, by simpa [xsOf] using hlen, fun share hmem => ?_⟩
  have hbytes : toField (cs.map GF256.byte) = cs := by
    simp [toField, Function.comp_def]
  simp only [toField, xsOf, ysOf, List.map_map] at hval
  rw [evaluate_eq, hbytes]
  exact congrArg GF256.byte (List.map_inj_left.mp hval share hmem).symm

theorem coefficients_length (secret coefficientBytes : Bytes) {k : Nat} (hk : 1 ≤ k)
    (byteIdx : Nat) :
    (coefficients secret coefficientBytes k byteIdx).length = k := by
  simp [coefficients, Nat.sub_add_cancel hk]

theorem shareAt_data_getD {secret coefficientBytes : Bytes} {k x byteIdx : Nat}
    (hidx : byteIdx < secret.length) :
    (shareAt secret coefficientBytes k x).data.getD byteIdx 0
      = evaluate (coefficients secret coefficientBytes k byteIdx) (UInt8.ofNat x) := by
  simp [shareAt, hidx]

/-- **The key that comes out is the right one for shares of one split with
their number as the threshold**, and for no others. -/
theorem interpolatedKey_eq_iff {mek : Bytes} (hmek : mek.length = 64)
    (h : WellFormed 64 shares) :
    interpolatedKey shares = mek ↔ OfSplit mek shares.length shares := by
  have hk : 1 ≤ shares.length := Nat.le_of_succ_le h.enough
  constructor
  · rintro rfl
    choose coeffs hlen hval using exists_coeffs h.xsOf_nodup
    -- the random coefficients are the polynomials without their constants
    obtain ⟨v, hv⟩ := @exists_coeffsAt 64 (shares.length - 1)
      (fun byteIdx => (coeffs byteIdx).tail)
      (fun byteIdx _ => by rw [List.length_tail, hlen])
    have hcoeffs : ∀ byteIdx < 64, coefficients (interpolatedKey shares) v.toList
        shares.length byteIdx = coeffs byteIdx := by
      intro byteIdx hb
      have hhead := interpolated_of_coeffs h.xsOf_nodup (hlen byteIdx).le (hval byteIdx)
      have hne : coeffs byteIdx ≠ [] :=
        List.ne_nil_of_length_pos (by rw [hlen]; exact hk)
      calc coefficients (interpolatedKey shares) v.toList shares.length byteIdx
          = interpolated shares byteIdx
              :: coeffsAt v.toList (shares.length - 1) byteIdx := by
            simp [coefficients, coeffsAt, interpolatedKey, hb]
        _ = (coeffs byteIdx).headD 0 :: (coeffs byteIdx).tail := by rw [hhead, hv _ hb]
        _ = coeffs byteIdx := by
            rw [List.headD_eq_head?_getD, List.head?_eq_some_head hne]
            exact List.cons_head_tail hne
    refine ⟨v.toList, fun share hmem => ?_⟩
    have hdata := (h.share share hmem).1
    obtain ⟨index, data⟩ := share
    refine congrArg (ShamirShare.mk index) (List.ext_getElem ?_ fun byteIdx hb hb' => ?_)
    · rw [hdata, List.length_map, List.length_range, hmek]
    · have hb64 : byteIdx < 64 := hdata ▸ hb
      have hbyte := hval byteIdx ⟨index, data⟩ hmem
      rw [← hcoeffs byteIdx hb64] at hbyte
      simpa [hb] using hbyte
  · rintro ⟨coefficientBytes, hshares⟩
    refine List.ext_getElem (by simp [interpolatedKey, hmek]) fun byteIdx hb hb' => ?_
    have hval : ∀ share ∈ shares, share.data.getD byteIdx 0
        = evaluate (coefficients mek coefficientBytes shares.length byteIdx)
          (UInt8.ofNat share.index) := by
      intro share hmem
      rw [hshares share hmem, shareAt_data_getD hb']
      rfl
    have hbyte := interpolated_of_coeffs h.xsOf_nodup
      (coefficients_length _ _ hk _).le hval
    simpa [interpolatedKey, coefficients, hb'] using hbyte

/-- **When recovery gives no other key**: exactly when the codes fail the
checks, or belong to some split of this key with their number as the
threshold. -/
theorem recoverMEK_sound_iff (js : UpperCase) (mek : ByteVec 64)
    (codes : List (List Char)) :
    (∀ key, recoverMEK js codes = .ok key → key = mek.toList)
      ↔ ∀ shares, codes.mapM (decodeRecoveryCode js) = .ok shares →
        WellFormed 64 shares → OfSplit mek.toList shares.length shares := by
  constructor
  · intro hsound shares hdecode hwf
    refine (interpolatedKey_eq_iff mek.toList_length hwf).mp (hsound _ ?_)
    exact (recoverMEK_ok_iff js).mpr ⟨shares, hdecode, hwf, rfl⟩
  · intro hsplit key hkey
    obtain ⟨shares, hdecode, hwf, rfl⟩ := (recoverMEK_ok_iff js).mp hkey
    exact (interpolatedKey_eq_iff mek.toList_length hwf).mpr (hsplit shares hdecode hwf)

/-- Two codes of a 3-of-3 split of a key of sevens, with all coefficients one:
they decode to sevens and ones, and these are on no line that ends in 7. -/
theorem recoverMEK_below_threshold :
    ¬ ∀ (js : UpperCase) (mek : ByteVec 64) (config : RecoveryConfig)
        (coefficientBytes : Bytes) (genuine codes : List (List Char)) (key : Bytes),
      generateRecoveryCodes mek.toList config coefficientBytes = .ok genuine →
      ¬ (config.threshold ≤ codes.length ∧ codes.Nodup ∧ ∀ code ∈ codes, code ∈ genuine) →
      recoverMEK js codes = .ok key → key = mek.toList := by
  intro h
  let mek : ByteVec 64 := List.Vector.replicate 64 7
  let ones : Bytes := List.replicate 128 1
  let chosen := [shareAt mek.toList ones 3 1, shareAt mek.toList ones 3 2]
  have hlen : mek.toList.length = 64 := mek.toList_length
  have hsplit := @splitSecret_ok mek.toList 3 3
    (List.ne_nil_of_length_pos (by omega)) (by decide) (by decide) (by decide) ones
  have hwf : WellFormed 64 chosen := by
    refine ⟨by simp [chosen], ?_, by simp [chosen, shareAt]⟩
    simp [chosen, shareAt, hlen]
  have hdecode : (chosen.map encodeRecoveryCode).mapM (decodeRecoveryCode asciiUpper)
      = .ok chosen := by
    refine mapM_decodeRecoveryCode _ (fun share hmem => ?_)
      (List.forall₂_same.mpr fun code _ => Retyped.refl code)
    obtain ⟨hdata, -, hle⟩ := hwf.share share hmem
    exact ⟨hle, List.ne_nil_of_length_pos (by omega)⟩
  have hkey := h asciiUpper mek ⟨3, 3⟩ ones _ (chosen.map encodeRecoveryCode) _
    (by rw [generateRecoveryCodes, hsplit]) (fun hthree => absurd hthree.1 (by simp [chosen]))
    ((recoverMEK_ok_iff _).mpr ⟨chosen, hdecode, hwf, rfl⟩)
  obtain ⟨cb, hcb⟩ := (interpolatedKey_eq_iff hlen hwf).mp hkey
  have hbyte : ∀ x, shareAt mek.toList ones 3 x ∈ chosen →
      evaluate [7, 1, 1] (UInt8.ofNat x) = evaluate [7, cb.getD 0 0] (UInt8.ofNat x) := by
    intro x hmem
    have hshare := congrArg (fun share => share.data.getD 0 0) (hcb _ hmem)
    simp only [shareAt_data_getD (show 0 < mek.toList.length by omega)] at hshare
    exact hshare
  have hone := hbyte 1 (by simp [chosen])
  have htwo := hbyte 2 (by simp [chosen])
  have hslope : cb.getD 0 0 = 0 := by
    have hleft : evaluate [7, 1, 1] (UInt8.ofNat 1) = 7 := by
      rw [evaluate_eq]
      decide +kernel
    have hright : evaluate [7, cb.getD 0 0] (UInt8.ofNat 1) = cb.getD 0 0 ^^^ 7 := by
      rw [evaluate_eq]
      simp [toField, horner, UsbVault.gf256Mul_one]
    rw [hleft, hright] at hone
    exact (UInt8.xor_left_inj 7).mp (hone.symm.trans (UInt8.zero_xor (a := 7)).symm)
  rw [hslope, evaluate_eq, evaluate_eq] at htwo
  exact absurd htwo (by decide +kernel)

/-! ## Altered codes -/

theorem interpolated_set_ne {i byteIdx : Nat} (hx : (xsOf shares).Nodup)
    (h0 : 0 ∉ xsOf shares) (hi : i < shares.length) {altered : ShamirShare}
    (hindex : altered.index = shares[i].index)
    (hne : altered.data.getD byteIdx 0 ≠ shares[i].data.getD byteIdx 0) :
    interpolated (shares.set i altered) byteIdx ≠ interpolated shares byteIdx := by
  have hxs : xsOf (shares.set i altered) = xsOf shares := by
    have hself := congrArg xsOf (List.set_getElem_self hi)
    rw [xsOf, List.map_set] at hself ⊢
    rwa [hindex]
  have hys : toField (ysOf (shares.set i altered) byteIdx)
      = (toField (ysOf shares byteIdx)).set i ⟨altered.data.getD byteIdx 0⟩ := by
    rw [toField, ysOf, List.map_set, List.map_set]
    rfl
  have hnode : node (toField (ysOf shares byteIdx)) i
      = ⟨shares[i].data.getD byteIdx 0⟩ := by
    rw [toField_node, ysOf]
    simp [hi]
  have hzero : (0 : GF256) ∉ toField (xsOf shares) := by
    intro hmem
    obtain ⟨x, hmem, hbyte⟩ := List.mem_map.mp hmem
    obtain rfl : x = 0 := congrArg GF256.byte hbyte
    exact h0 hmem
  have hix : i < (toField (xsOf shares)).length := by simpa [xsOf] using hi
  have hcount : (toField (ysOf shares byteIdx)).length = (toField (xsOf shares)).length := by
    simp [xsOf, ysOf]
  have hmoved := recoverAtZero_set hix hcount ⟨altered.data.getD byteIdx 0⟩
  intro heq
  rw [interpolated, hxs, hys, hmoved] at heq
  have hfactor := add_eq_left.mp (GF256.ext heq)
  rcases mul_eq_zero.mp hfactor with hsub | hbasis
  · rw [hnode, sub_eq_zero] at hsub
    exact hne (congrArg GF256.byte hsub)
  · exact basisAtZero_ne_zero (toField_nodup hx) hzero hix hbasis

theorem WellFormed.set {i : Nat} (h : WellFormed 64 shares) (hi : i < shares.length)
    {altered : ShamirShare} (hindex : altered.index = shares[i].index)
    (hdata : altered.data.length = 64) : WellFormed 64 (shares.set i altered) := by
  refine ⟨by simpa using h.enough, fun share hmem => ?_, ?_⟩
  · rcases List.mem_or_eq_of_mem_set hmem with hmem | rfl
    · exact h.share share hmem
    · rw [hindex]
      exact ⟨hdata, (h.share _ (List.getElem_mem hi)).2⟩
  · have hself := congrArg (List.map (·.index)) (List.set_getElem_self hi)
    rw [List.map_set] at hself
    rw [List.map_set, hindex, hself]
    exact h.distinct

theorem WellFormed.zero_not_mem (h : WellFormed 64 shares) : 0 ∉ xsOf shares := by
  intro hmem
  obtain ⟨share, hmem, hzero⟩ := List.mem_map.mp hmem
  have hindex := (h.share share hmem).2
  have hmod : share.index % 256 = 0 := by simpa using congrArg UInt8.toNat hzero
  omega

/-- **An altered code is never noticed**: among enough codes of a split, one
whose data is altered gives a key, and it is another one. -/
theorem recoverMEK_altered (js : UpperCase) {mek : ByteVec 64} {k i : Nat}
    (hsplit : OfSplit mek.toList k shares) (hwf : WellFormed 64 shares)
    (hk : 1 ≤ k) (hcount : k ≤ shares.length) (hi : i < shares.length)
    {altered : ShamirShare} (hindex : altered.index = shares[i].index)
    (hdata : altered.data.length = 64) (hne : altered ≠ shares[i])
    {typed : List (List Char)}
    (htyped : List.Forall₂ Retyped ((shares.set i altered).map encodeRecoveryCode) typed) :
    ∃ key, recoverMEK js typed = .ok key ∧ key ≠ mek.toList := by
  have hset := hwf.set hi hindex hdata
  have hdecode : typed.mapM (decodeRecoveryCode js) = .ok (shares.set i altered) := by
    refine mapM_decodeRecoveryCode js (fun share hmem => ?_) htyped
    obtain ⟨hlen, -, hle⟩ := hset.share share hmem
    exact ⟨hle, List.ne_nil_of_length_pos (by omega)⟩
  refine ⟨_, (recoverMEK_ok_iff js).mpr ⟨_, hdecode, hset, rfl⟩, fun hkey => hne ?_⟩
  obtain ⟨coefficientBytes, hshares⟩ := hsplit
  -- the unaltered shares give the key, so each byte of the altered one is the same
  have hbyte : ∀ byteIdx < 64,
      altered.data.getD byteIdx 0 = shares[i].data.getD byteIdx 0 := by
    intro byteIdx hb
    by_contra hdiff
    refine interpolated_set_ne hwf.xsOf_nodup hwf.zero_not_mem hi hindex hdiff ?_
    have hmek : byteIdx < mek.toList.length := by rwa [mek.toList_length]
    have hval : ∀ share ∈ shares, share.data.getD byteIdx 0
        = evaluate (coefficients mek.toList coefficientBytes k byteIdx)
          (UInt8.ofNat share.index) := by
      intro share hmem
      rw [hshares share hmem, shareAt_data_getD hmek]
      rfl
    have hright := interpolated_of_coeffs hwf.xsOf_nodup
      ((coefficients_length _ _ hk _).le.trans hcount) hval
    have hwrong : (interpolatedKey (shares.set i altered))[byteIdx]?
        = mek.toList[byteIdx]? := by rw [hkey]
    rw [hright]
    simpa [interpolatedKey, hb, coefficients, hmek] using hwrong
  have hlen := (hwf.share _ (List.getElem_mem hi)).1
  have hsame : altered.data = shares[i].data := by
    refine List.ext_getElem (hdata.trans hlen.symm) fun byteIdx hb hb' => ?_
    simpa [hb, hb'] using hbyte byteIdx (by omega)
  calc altered = ⟨altered.index, altered.data⟩ := rfl
    _ = shares[i] := by rw [hindex, hsame]

def sampleKey : ByteVec 64 := List.Vector.replicate 64 7

/-- Two shares of a key of sevens. -/
def sampleShares : List ShamirShare :=
  [shareAt sampleKey.toList (List.replicate 64 1) 2 1,
    shareAt sampleKey.toList (List.replicate 64 1) 2 2]

theorem recoverMEK_altered_sample :
    ∃ key, recoverMEK asciiUpper
        ((sampleShares.set 0 ⟨1, List.replicate 64 9⟩).map encodeRecoveryCode) = .ok key
      ∧ key ≠ sampleKey.toList := by
  have hsplit : OfSplit sampleKey.toList 2 sampleShares := by
    refine ⟨List.replicate 64 1, fun share hmem => ?_⟩
    rcases List.mem_cons.mp hmem with rfl | hmem
    · rfl
    · obtain rfl := List.mem_singleton.mp hmem
      rfl
  have hwf : WellFormed 64 sampleShares :=
    ⟨by simp [sampleShares], by simp [sampleShares, shareAt, sampleKey.toList_length],
      by simp [sampleShares, shareAt]⟩
  have hne : (⟨1, List.replicate 64 9⟩ : ShamirShare) ≠ sampleShares[0] := by
    intro heq
    have hbyte := congrArg (fun share => share.data.getD 0 0) heq
    have hfirst : sampleShares[0].data.getD 0 0 = evaluate [7, 1] (UInt8.ofNat 1) :=
      shareAt_data_getD (by rw [sampleKey.toList_length]; decide)
    rw [hfirst, evaluate_eq] at hbyte
    exact absurd hbyte (by decide +kernel)
  exact @recoverMEK_altered sampleShares asciiUpper sampleKey 2 0 hsplit hwf
    (by decide) (by decide) (by decide) ⟨1, List.replicate 64 9⟩ (by simp [sampleShares, shareAt])
    List.length_replicate hne _ (List.forall₂_same.mpr fun code _ => Retyped.refl code)

end UsbVault.App.Recovery
