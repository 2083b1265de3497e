import UsbVault.App.RecoveryCodes

/-!
# Two implementations of Shamir sharing

The app's `splitSecret` and `reconstructSecret` (`services/vault/recovery.ts`)
against `create_shares` and `recover_secret` (`shamir.rs`). A share of the app
stands for the bytes that the core writes, its index and then its data
(`payload`).

The splits are the same function. The core recovers from the first
`threshold` shares of a list, the app from all of them: on those the two agree
(`shamir_agree`), on a longer list only where the others fit.
-/

namespace UsbVault.App.Recovery

open Wire Sharing

variable {secret coefficientBytes : Bytes} {shares : List ShamirShare} {byteIdx : Nat}

/-! ## Splitting -/

theorem coefficients_eq {k : Nat} (hidx : byteIdx < secret.length) :
    coefficients secret coefficientBytes k byteIdx
      = bytePoly coefficientBytes (k - 1) (secret[byteIdx], byteIdx) := by
  rw [coefficients, bytePoly, coeffsAt, List.getD_eq_getElem _ _ hidx]

theorem evaluate_eq_gf256Eval (coeffs : Bytes) (x : UInt8) :
    evaluate coeffs x = gf256Eval coeffs x := by
  rw [evaluate_eq, gf256Eval_eq]

theorem payload_shareAt {k : Nat} (x : Nat) :
    payload (shareAt secret coefficientBytes k x)
      = UsbVault.shareAt secret coefficientBytes (k - 1) (UInt8.ofNat x) := by
  rw [payload, UsbVault.shareAt]
  refine congrArg (UInt8.ofNat x :: ·) (List.ext_getElem (by simp [shareAt]) ?_)
  intro b hb hb'
  have hidx : b < secret.length := by simpa [shareAt] using hb
  simp [shareAt, coefficients_eq hidx, evaluate_eq_gf256Eval]

/-- The two splits accept the same parameters and produce the same shares. -/
theorem splitSecret_eq_createShares (secret : Bytes) (threshold : UInt8) (total : Nat)
    (randomCoeffs : ByteVec (secret.length * coeffCount threshold)) :
    (createShares secret threshold total randomCoeffs).toOption
      = (splitSecret secret total threshold.toNat randomCoeffs.toList).toOption.map
        (List.map payload) := by
  by_cases hvalid : secret ≠ [] ∧ 2 ≤ threshold ∧ threshold.toNat ≤ total ∧ total ≤ 255
  · obtain ⟨hsecret, ht, htn, hn⟩ := hvalid
    have hk : 2 ≤ threshold.toNat := UInt8.le_iff_toNat_le.mp ht
    have hcount : coeffCount threshold = threshold.toNat - 1 := by
      rw [← coeffCount_succ ht, Nat.add_sub_cancel]
    rw [createShares_ok hsecret ht htn hn, splitSecret_ok hsecret hk htn hn]
    simp [Except.toOption, payload_shareAt, hcount]
  · -- outside of the common range both refuse
    have hcreate : (createShares secret threshold total randomCoeffs).toOption = none := by
      rw [createShares]
      split_ifs with hsecret ht htn
      · rfl
      · rfl
      · rfl
      · exact absurd ⟨hsecret, UInt8.not_lt.mp ht, by omega, by omega⟩ hvalid
    have hsplit : (splitSecret secret total threshold.toNat
        randomCoeffs.toList).toOption = none := by
      rw [splitSecret]
      split_ifs with hk hn hsecret
      · rfl
      · rfl
      · rfl
      · have ht : 2 ≤ threshold := UInt8.le_iff_toNat_le.mpr (by
          show 2 ≤ threshold.toNat
          omega)
        exact absurd ⟨List.ne_nil_of_length_pos (by omega), ht, by omega, by omega⟩ hvalid
    rw [hcreate, hsplit]
    rfl

/-! ## Recovery -/

theorem recoverByte_payload (hx : (xsOf shares).Nodup) (byteIdx : Nat) :
    recoverByte (xsOf shares) (shares.map payload) byteIdx
      = .ok (interpolated shares byteIdx) := by
  refine recoverByte_eq hx fun i => ?_
  rw [ysOf, Nat.add_comm]
  by_cases hi : i < shares.length
  · simp [hi, payload]
  · simp [hi]

theorem map_payload_headD (shares : List ShamirShare) :
    (shares.map payload).map (fun share => share.headD 0) = xsOf shares := by
  simp [xsOf, payload, Function.comp_def]

/-- What the core recovers, when it does: the interpolation through the
first `threshold` shares. -/
theorem recoverSecret_inv {threshold : UInt8} {core : Bytes}
    (h : recoverSecret (shares.map payload) threshold = some (.ok core)) :
    ∃ first, (shares.take threshold.toNat).head? = some first
      ∧ threshold.toNat ≤ shares.length
      ∧ core = (List.range first.data.length).map
        (interpolated (shares.take threshold.toNat)) := by
  rw [recoverSecret] at h
  split_ifs at h with hlen
  · simp at h
  simp only [← List.map_take, List.head?_map] at h
  rw [List.length_map, Nat.not_lt] at hlen
  generalize shares.take threshold.toNat = chosen at h ⊢
  cases hhead : chosen.head? with
  | none => simp [hhead] at h
  | some first =>
    simp only [hhead, Option.map_some, payload] at h
    split_ifs at h with hdata hall hnodup
    · simp at h
    · have hx : (xsOf chosen).Nodup := by
        rw [← map_payload_headD]
        exact hnodup
      have hbytes : (List.range first.data.length).mapM
          (recoverByte (xsOf chosen) (chosen.map payload)) = .ok core := by
        rw [← map_payload_headD]
        exact Option.some.inj h
      rw [Run.mapM_ok _ fun i _ => recoverByte_payload hx i] at hbytes
      exact ⟨first, rfl, hlen, (Except.ok.inj hbytes).symm⟩
    · simp at h
    · simp at h

/-! ## Agreement -/

/-- Byte by byte, the shares lie on a polynomial of `k` coefficients. -/
def OnePolynomial (k : Nat) (shares : List ShamirShare) : Prop :=
  ∀ byteIdx, ∃ coeffs : Bytes, coeffs.length ≤ k
    ∧ ∀ share ∈ shares,
      share.data.getD byteIdx 0 = evaluate coeffs (UInt8.ofNat share.index)

/-- **The two implementations agree.** They split alike. On the first
`threshold` shares of a list, which are the ones the core reads, both recover
the same bytes; on the whole list where its shares lie on one polynomial for
each byte. -/
theorem shamir_agree :
    (∀ (secret : Bytes) (threshold : UInt8) (total : Nat)
      (randomCoeffs : ByteVec (secret.length * coeffCount threshold)),
      (createShares secret threshold total randomCoeffs).toOption
        = (splitSecret secret total threshold.toNat randomCoeffs.toList).toOption.map
          (List.map payload))
    ∧ ∀ (shares : List ShamirShare) (threshold : UInt8) (secretLength : Option Nat)
        (app core : Bytes),
      recoverSecret (shares.map payload) threshold = some (.ok core) →
      (reconstructSecret (shares.take threshold.toNat) secretLength = .ok app →
        app = core)
      ∧ (OnePolynomial threshold.toNat shares →
        reconstructSecret shares secretLength = .ok app → app = core) := by
  refine ⟨splitSecret_eq_createShares, ?_⟩
  intro shares threshold secretLength app core hcore
  obtain ⟨first, hfirst, hlen, rfl⟩ := recoverSecret_inv hcore
  constructor
  · intro happ
    obtain ⟨hwf, -, heq⟩ := reconstructSecret_inv happ
    rw [(hwf.share first (List.mem_of_mem_head? hfirst)).1, ← heq]
  · intro hpoly happ
    obtain ⟨hwf, -, heq⟩ := reconstructSecret_inv happ
    have hmem : first ∈ shares := List.mem_of_mem_take (List.mem_of_mem_head? hfirst)
    rw [heq, (hwf.share first hmem).1]
    refine List.map_congr_left fun byteIdx _ => ?_
    -- both interpolations pass through the constant term
    obtain ⟨coeffs, hcoeffs, hy⟩ := hpoly byteIdx
    have hchosen : (xsOf (shares.take threshold.toNat)).Nodup :=
      hwf.xsOf_nodup.sublist ((List.take_sublist _ _).map _)
    rw [interpolated_of_coeffs hwf.xsOf_nodup (hcoeffs.trans hlen) hy,
      interpolated_of_coeffs hchosen (by simpa [hlen] using hcoeffs)
        fun share hmem => hy share (List.mem_of_mem_take hmem)]

/-- Three shares of a 2-of-3 split of two bytes. -/
theorem shamir_agree_sample :
    ∃ shares app core, shares = [⟨3, [37, 68]⟩, ⟨1, [47, 207]⟩, ⟨2, [32, 140]⟩]
      ∧ recoverSecret (shares.map payload) 2 = some (.ok core)
      ∧ reconstructSecret (shares.take 2) none = .ok app
      ∧ app = core := by
  have hcore : recoverSecret ([⟨3, [37, 68]⟩, ⟨1, [47, 207]⟩, ⟨2, [32, 140]⟩].map payload) 2
      = some (.ok [42, 7]) := by decide +kernel
  have hwf : WellFormed 2 [⟨3, [37, 68]⟩, ⟨1, [47, 207]⟩] := ⟨by simp, by simp, by simp⟩
  have hbytes : (List.range 2).map (interpolated [⟨3, [37, 68]⟩, ⟨1, [47, 207]⟩]) = [42, 7] := by
    decide +kernel
  have happ : reconstructSecret [⟨3, [37, 68]⟩, ⟨1, [47, 207]⟩] none = _ :=
    hwf.reconstruct (by simp)
  rw [hbytes] at happ
  exact ⟨_, _, _, rfl, hcore, happ, (shamir_agree.2 _ 2 none _ _ hcore).1 happ⟩

/-- Three shares of which the core reads two: on the first two lies the
constant 1, on all three a parabola that ends in 2. -/
theorem reconstructSecret_reads_all :
    ¬ ∀ (shares : List ShamirShare) (threshold : UInt8) (app core : Bytes),
      (∀ share ∈ shares, share.index ∈ Set.Icc 1 255) →
      (shares.map (·.index)).Nodup →
      (∀ share ∈ shares, ∀ other ∈ shares, share.data.length = other.data.length) →
      reconstructSecret shares none = .ok app →
      recoverSecret (shares.map payload) threshold = some (.ok core) → app = core := by
  intro h
  have hwf : WellFormed 1 [⟨1, [1]⟩, ⟨2, [1]⟩, ⟨3, [2]⟩] := ⟨by simp, by simp, by simp⟩
  have hbytes : (List.range 1).map (interpolated [⟨1, [1]⟩, ⟨2, [1]⟩, ⟨3, [2]⟩]) = [2] := by
    decide +kernel
  have happ : reconstructSecret [⟨1, [1]⟩, ⟨2, [1]⟩, ⟨3, [2]⟩] none = _ :=
    hwf.reconstruct (by simp)
  rw [hbytes] at happ
  have hcore : recoverSecret ([⟨1, [1]⟩, ⟨2, [1]⟩, ⟨3, [2]⟩].map payload) 2
      = some (.ok [1]) := by decide +kernel
  have heq := h _ 2 _ _ (by simp) (by decide) (by simp) happ hcore
  exact absurd heq (by decide)

end UsbVault.App.Recovery
