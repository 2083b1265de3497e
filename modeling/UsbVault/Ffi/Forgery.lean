import UsbVault.Ffi.Maintenance

/-!
# Forgery

What the header operations do with a header whose MAC does not verify.
The header MAC is checked by `unlock` alone. An increment checks the
MAC of the fail-counter block; a reset and a commit check nothing and
re-sign whatever reads as a header.
-/

namespace UsbVault

open Wire VaultHeader

variable {P : Primitives}

/-! ## When a call has output -/

/-- An enabled effect has output exactly when the header it writes fits
the fixed size and the fixed size fits the caller's buffer. -/
theorem Effect.emits_iff {op : HeaderOp} {data : Bytes} {h h' : VaultHeader}
    {code : Int} (he : Effect P h op code h') (hr : read data = .ok h)
    (hm : ModernForm h) :
    (∃ bytes, (op.call P data).out = some bytes)
      ↔ h'.Fits ∧ HEADER_SIZE_V6 ≤ op.outCapacity := by
  have hsize := (he.modernForm hm).headerSize_eq
  rw [he.call_eq hr]
  constructor
  · rintro ⟨bytes, hout⟩
    obtain ⟨hw, hle⟩ := emitHeader_out_iff.mp hout
    have hlen := write_length hw
    refine ⟨(write_isSome_iff h').mp (by rw [hw]; rfl), ?_⟩
    rw [← hsize, ← hlen]
    exact hle
  · rintro ⟨hfits, hcap⟩
    obtain ⟨bytes, hw⟩ : ∃ bytes, h'.write = some bytes :=
      ⟨_, write_of_fits hfits⟩
    have hlen := write_length hw
    rw [hsize] at hlen
    exact ⟨bytes, emitHeader_out_iff.mpr ⟨hw, hlen.trans_le hcap⟩⟩

theorem counterUpdate_fits_iff {h : VaultHeader} (hm : ModernForm h)
    (key : ByteVec 32) (count : UInt32) :
    (incrementedHeader P key count h).Fits ↔ restLen h + 36 ≤ 24576 := by
  rw [(hm.counterUpdate P key count).fits_iff, restLen_counterUpdate,
    blockSize_counterUpdate]

theorem withCounter_fits_iff {h : VaultHeader} (hm : ModernForm h) :
    VaultHeader.Fits { h with failCounterBlock := some (zeros 36) }
      ↔ restLen h + 36 ≤ 24576 := by
  have hm' : ModernForm { h with failCounterBlock := some (zeros 36) } :=
    { hm with failCounter := blockCarried_zeros (by decide) }
  exact hm'.fits_iff

theorem commitNewIndex_fits_iff {h : VaultHeader} (hm : ModernForm h)
    (key : ByteVec 32) (off len : UInt32) :
    (h.commitNewIndex P key off len).Fits ↔ h.Fits := by
  rw [(hm.commitNewIndex P key off len).fits_iff, hm.fits_iff,
    restLen_commitNewIndex, failCounterBlock_commitNewIndex]

theorem selfDestruct_fits {h : VaultHeader} (hm : ModernForm h)
    (key : ByteVec 32) (entropy : EraseEntropy) :
    (h.selfDestruct P key entropy).Fits :=
  (hm.selfDestruct P key entropy).fits_iff.mpr (erased_restLen entropy h).1

theorem blockSize_of_readFailCounter {h : VaultHeader} {key : ByteVec 32}
    {n : UInt32} (hread : h.readFailCounter P key = .ok n) :
    blockSize h.failCounterBlock = 36 := by
  unfold readFailCounter at hread
  cases hb : h.failCounterBlock with
  | none => rw [hb] at hread; cases hread
  | some block =>
    rw [hb] at hread
    simp only at hread
    split_ifs at hread with hlen
    exact not_not.mp hlen

theorem exceeds_iff (n : UInt32) :
    saturatingAdd32 n 1 ≥ MAX_FAIL_ATTEMPTS ↔ 9 ≤ n.toNat := by
  have hmax : MAX_FAIL_ATTEMPTS.toNat = 10 := rfl
  have hone : (1 : UInt32).toNat = 1 := rfl
  have hlt := n.toNat_lt
  rw [ge_iff_le, UInt32.le_iff_toNat_le, saturatingAdd32_toNat, hmax, hone]
  omega

/-- An increment has output exactly when the counter's own MAC verifies
and the header it writes, updated or erased, has room. -/
theorem increment_emits_iff {data : Bytes} {h : VaultHeader}
    (hr : read data = .ok h) (hm : ModernForm h) (key : ByteVec 32)
    (entropy : EraseEntropy) (cap : Nat) :
    (∃ bytes, (usbvaultVaultFailCounterIncrement P entropy data key.toList
        cap).out = some bytes)
      ↔ (∃ n, h.readFailCounter P key = .ok n ∧ (h.Fits ∨ 9 ≤ n.toNat))
        ∧ HEADER_SIZE_V6 ≤ cap := by
  cases hread : h.readFailCounter P key with
  | error e =>
    -- the counter does not verify, so the call fails
    have hnone : (usbvaultVaultFailCounterIncrement P entropy data key.toList
        cap).out = none := by
      simp only [usbvaultVaultFailCounterIncrement, withHmacKey_vec,
        withHeader_ok hr, hread, failWith_out]
    constructor
    · rintro ⟨bytes, hout⟩
      rw [hnone] at hout
      cases hout
    · rintro ⟨⟨n, hn, -⟩, -⟩
      cases hn
  | ok n =>
    have hblock := blockSize_of_readFailCounter hread
    by_cases hge : saturatingAdd32 n 1 ≥ MAX_FAIL_ATTEMPTS
    · -- the erased header always fits
      have he : Effect P h (.failCounterIncrement entropy key.toList cap)
          ERR_FAIL_COUNTER_EXCEEDED _ := .exceeded hread hge
      refine (he.emits_iff hr hm).trans (and_congr_left fun _ => ?_)
      exact ⟨fun _ => ⟨n, rfl, .inr ((exceeds_iff n).mp hge)⟩,
        fun _ => selfDestruct_fits hm key entropy⟩
    · -- the counter block keeps its 36 bytes, so the length is unchanged
      have he : Effect P h (.failCounterIncrement entropy key.toList cap)
          ERR_SUCCESS _ := .incremented hread (UInt32.not_le.mp hge)
      have hfits : (incrementedHeader P key (saturatingAdd32 n 1) h).Fits
          ↔ h.Fits := by
        rw [counterUpdate_fits_iff hm, hm.fits_iff, hblock]
      refine (he.emits_iff hr hm).trans (and_congr_left fun _ => ?_)
      rw [hfits]
      constructor
      · exact fun hf => ⟨n, rfl, .inl hf⟩
      · rintro ⟨n', hn, hf | hnine⟩
        · exact hf
        · cases hn
          exact absurd ((exceeds_iff n).mpr hnine) hge

/-! ## A forged header -/

/-- No re-signing operation, called with the key, gives a forged header
a MAC that verifies. -/
def RejectsForged (P : Primitives) (key : ByteVec 32) : Prop :=
  ∀ (data : Bytes) (h : VaultHeader) (op : HeaderOp) (bytes : Bytes)
    (h' : VaultHeader), read data = .ok h → h.version ≥ 4 →
    ¬MacVerifies P key h → op.IsMaintenance key →
    (op.call P data).out = some bytes → read bytes = .ok h' →
    ¬MacVerifies P key h'

/-- A vault with any MAC an attacker likes. -/
def forgedVault (mac : ByteVec 32) : VaultHeader :=
  { sampleVault with headerHmac := mac }

theorem forgedVault_modern (mac : ByteVec 32) : ModernForm (forgedVault mac) :=
  sampleVault_modern.setHeaderHmac mac

theorem forgedVault_roomy (mac : ByteVec 32) : Roomy (forgedVault mac) :=
  (forgedVault_modern mac).roomy_iff.mpr
    (sampleVault_modern.roomy_iff.mp sampleVault_roomy)

/-- Whatever the primitives and the key, one of two MACs is forged. -/
theorem exists_forged (P : Primitives) (key : ByteVec 32) :
    ∃ mac, ¬MacVerifies P key (forgedVault mac) := by
  by_cases hzero : MacVerifies P key (forgedVault (zeroVec 32))
  · refine ⟨List.Vector.replicate 32 1, ?_⟩
    intro hone
    have hmac : zeroVec 32 = List.Vector.replicate 32 1 := hzero.symm.trans hone
    exact absurd hmac (by decide)
  · exact ⟨zeroVec 32, hzero⟩

/-- **A commit launders a forged header**, whatever the primitives and
the key: the vault with a wrong MAC comes out of `usbvault_vault_commit_index`
with one that verifies. -/
theorem no_primitives_reject_forged :
    ¬∃ (P : Primitives) (key : ByteVec 32), RejectsForged P key := by
  rintro ⟨P, key, hrejects⟩
  obtain ⟨mac, hforged⟩ := exists_forged P key
  have hm := forgedVault_modern mac
  have hroom := forgedVault_roomy mac
  obtain ⟨data, hr⟩ := hroom.stored hm
  let commit := HeaderOp.commitIndex key.toList 24576 100 24576
  have he : Effect P (forgedVault mac) commit ERR_SUCCESS
      ((forgedVault mac).commitNewIndex P key 24576 100) := .committed
  have hop : commit.IsMaintenance key := rfl
  obtain ⟨bytes, hcall, hr'⟩ := he.call_roomy hr hm hroom le_rfl
  have hout := congrArg FfiReturn.out hcall
  exact hrejects data _ commit bytes _ hr hm.version_ge hforged hop hout hr'
    (he.signed hop)

/-- What the operations with a key make of a header whose MAC does not
verify under it: `unlock` never returns the key; an increment needs the
counter's own MAC; a reset and a commit go through when there is room;
and what goes through is signed. -/
theorem forged_header_operations {data : Bytes} {h : VaultHeader}
    {key : ByteVec 32} (hr : read data = .ok h) (hv : h.version ≥ 4)
    (hforged : ¬MacVerifies P key h) :
    (∀ password encKey, unlock P password h ≠ .ok (encKey, key))
    ∧ (∀ entropy cap,
      (∃ bytes, (usbvaultVaultFailCounterIncrement P entropy data key.toList
          cap).out = some bytes)
        ↔ (∃ n, h.readFailCounter P key = .ok n ∧ (h.Fits ∨ 9 ≤ n.toNat))
          ∧ HEADER_SIZE_V6 ≤ cap)
    ∧ (∀ cap,
      (∃ bytes, (usbvaultVaultFailCounterReset P data key.toList cap).out
          = some bytes)
        ↔ VaultHeader.Fits { h with failCounterBlock := some (zeros 36) }
          ∧ HEADER_SIZE_V6 ≤ cap)
    ∧ (∀ off len cap,
      (∃ bytes, (usbvaultVaultCommitIndex P data key.toList off len cap).out
          = some bytes)
        ↔ h.Fits ∧ HEADER_SIZE_V6 ≤ cap)
    ∧ (∀ (op : HeaderOp) (bytes : Bytes), op.IsMaintenance key →
      (op.call P data).out = some bytes →
      ∃ h', read bytes = .ok h' ∧ MacVerifies P key h') := by
  have hm : ModernForm h := .of_wellFormed (read_wellFormed hr) hv
  refine ⟨?_, increment_emits_iff hr hm key, ?_, ?_, ?_⟩
  · intro password encKey hu
    obtain ⟨-, -, hmac, -⟩ := unlock_ok_iff.mp hu
    exact hforged hmac
  · intro cap
    have he : Effect P h (.failCounterReset key.toList cap) ERR_SUCCESS
        (resetHeader P key h) := .reset
    refine (he.emits_iff hr hm).trans (and_congr_left fun _ => ?_)
    rw [resetHeader_eq, counterUpdate_fits_iff hm.upgrade, restLen_upgrade,
      withCounter_fits_iff hm]
  · intro off len cap
    have he : Effect P h (.commitIndex key.toList off len cap) ERR_SUCCESS
        (h.commitNewIndex P key off len) := .committed
    refine (he.emits_iff hr hm).trans (and_congr_left fun _ => ?_)
    exact commitNewIndex_fits_iff hm key off len
  · intro op bytes hop hout
    obtain ⟨h', he, -, hr'⟩ := HeaderOp.call_read hr hv hout
    exact ⟨h', hr', he.signed hop⟩

theorem forged_header_operations_sample :
    ∃ data, read data = .ok (forgedVault (List.Vector.replicate 32 1))
      ∧ (∀ password encKey, unlock transparentPrimitives password
          (forgedVault (List.Vector.replicate 32 1)) ≠ .ok (encKey, zeroVec 32))
      ∧ ∃ bytes, (usbvaultVaultFailCounterReset transparentPrimitives data
          (zeros 32) 24576).out = some bytes := by
  let mac : ByteVec 32 := List.Vector.replicate 32 1
  have hroom := forgedVault_roomy mac
  obtain ⟨data, hr⟩ := hroom.stored (forgedVault_modern mac)
  have hforged : ¬MacVerifies transparentPrimitives (zeroVec 32)
      (forgedVault mac) := by
    intro hmac
    have hzero : zeroVec 32 = mac := hmac
    exact absurd hzero (by decide)
  obtain ⟨hunlock, -, hreset, -, -⟩ :=
    forged_header_operations hr (by decide) hforged
  exact ⟨data, hr, hunlock, (hreset 24576).mpr ⟨hroom.fitsCounter, le_rfl⟩⟩

end UsbVault
