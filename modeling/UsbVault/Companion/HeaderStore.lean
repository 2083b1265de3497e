import UsbVault.Companion.Contract
import UsbVault.Ffi.HeaderOps

/-!
# The companion as a store of the core's headers

The crypto core writes headers, the companion keeps them: two programs,
each with its own idea of a header. The companion stores a byte string
exactly when it has the size and the magic of a V4 header
(`storesHeader_iff`). The core creates V6 headers only, and a reset or a
commit turns a V4 header into a V5 header, so what it emits is stored
exactly as long as it stays V4 (`coreHeaders_stored_iff`).
-/

namespace UsbVault.Companion

open Wire

variable {fs : Fs} {disk : Bytes} {mountPoint : String}

/-! ## What the core emits -/

theorem magicOf_eq_vaultMagic {v : UInt8} : VaultHeader.magicOf v = VAULT_MAGIC ↔ v = 4 := by
  constructor
  · unfold VaultHeader.magicOf
    split_ifs with h6 h5 h4 h3
    · exact fun h => absurd h (by decide)
    · exact fun h => absurd h (by decide)
    · exact fun _ => h4
    · exact fun h => absurd h (by decide)
    · exact fun h => absurd h (by decide)
  · rintro rfl
    rfl

theorem take_write {h : VaultHeader} {bytes : Bytes} (hw : h.write = some bytes) :
    bytes.take 8 = VaultHeader.magicOf h.version := by
  rw [VaultHeader.write_eq] at hw
  split_ifs at hw
  have hlen := VaultHeader.magicOf_length h.version
  rw [← Option.some.inj hw, VaultHeader.encode, VaultHeader.encodeBase]
  simp only [List.append_assoc]
  exact List.take_left' hlen

/-- **A written header is stored when it is a V4 header.** -/
theorem storesHeader_write_iff (hmount : validateMountPoint mountPoint = pure ())
    (hf : fs.vaultBin = some disk) {h : VaultHeader} {bytes : Bytes}
    (hw : h.write = some bytes) : StoresHeader mountPoint fs bytes ↔ h.version = 4 := by
  rw [storesHeader_iff hmount hf, take_write hw, magicOf_eq_vaultMagic,
    VaultHeader.write_length hw]
  exact and_iff_right_of_imp fun hv => by rw [hv]; rfl

theorem createNew_version {P : Primitives} {entropy : VaultHeader.CreateEntropy}
    {password : Bytes} {cipherId : CipherId} {h : VaultHeader} {encKey hmacKey : ByteVec 32}
    (hc : VaultHeader.createNew P entropy password cipherId = .ok (h, encKey, hmacKey)) :
    h.version = 6 := by
  unfold VaultHeader.createNew at hc
  simp only [bind, Except.bind] at hc
  split at hc
  · cases hc
  split at hc
  · cases hc
  split at hc
  · cases hc
  · obtain ⟨rfl, -⟩ := Prod.mk.inj (Except.ok.inj hc)
    rfl

/-- The operations that migrate a V4 header to V5. -/
def migrates : HeaderOp → Bool
  | .failCounterIncrement _ _ _ => false
  | .failCounterReset _ _ => true
  | .commitIndex _ _ _ _ => true
  | .selfDestruct _ _ => false

theorem upgrade_version_four {h : VaultHeader} :
    h.upgradeToV5IfEligible.version = 4 ↔ h.version = 4 ∧ h.wrappedMek = none := by
  rw [VaultHeader.upgradeToV5IfEligible]
  split
  · rename_i hv
    obtain ⟨-, hsome⟩ := hv
    rw [Option.isSome_iff_ne_none] at hsome
    exact iff_of_false (by decide : (5 : UInt8) ≠ 4) fun hnone => hsome hnone.2
  · rename_i hv
    refine (and_iff_left_of_imp fun h4 => ?_).symm
    rw [← Option.not_isSome_iff_eq_none]
    exact fun hsome => hv ⟨h4, hsome⟩

theorem commitNewIndex_version {P : Primitives} {key : ByteVec 32} {off len : UInt32}
    {h : VaultHeader} :
    (h.commitNewIndex P key off len).version = h.upgradeToV5IfEligible.version := by
  have hflip : (h.upgradeToV5IfEligible.flipIndexSlot off len).version
      = h.upgradeToV5IfEligible.version := by
    unfold VaultHeader.flipIndexSlot
    split <;> rfl
  rw [← hflip, VaultHeader.commitNewIndex]
  generalize h.upgradeToV5IfEligible.flipIndexSlot off len = g
  rfl

theorem resetHeader_version {P : Primitives} {key : ByteVec 32} {h : VaultHeader} :
    (resetHeader P key h).version = h.upgradeToV5IfEligible.version := by
  rw [resetHeader_eq]
  generalize h.upgradeToV5IfEligible = g
  rfl

/-- **The header of a call is V4** when the header it read was, unless the
operation migrates a header with its key blob. -/
theorem effect_version_four {P : Primitives} {h h' : VaultHeader} {op : HeaderOp} {code : Int}
    (he : Effect P h op code h') :
    h'.version = 4 ↔ h.version = 4 ∧ (migrates op = true → h.wrappedMek = none) := by
  cases he with
  | incremented => exact (and_iff_left (by simp [migrates])).symm
  | exceeded => exact (and_iff_left (by simp [migrates])).symm
  | wiped => exact (and_iff_left (by simp [migrates])).symm
  | reset =>
    rw [resetHeader_version, upgrade_version_four]
    simp [migrates]
  | committed =>
    rw [commitNewIndex_version, upgrade_version_four]
    simp [migrates]

/-- **Which headers of the core the companion stores**: none that
`create_new` makes; of a call on a stored header, the output when that
header is V4 and the call does not migrate it. -/
theorem coreHeaders_stored_iff (P : Primitives)
    (hmount : validateMountPoint mountPoint = pure ()) (hf : fs.vaultBin = some disk) :
    (∀ entropy password cipherId h encKey hmacKey bytes,
      VaultHeader.createNew P entropy password cipherId = .ok (h, encKey, hmacKey) →
      h.write = some bytes → ¬ StoresHeader mountPoint fs bytes) ∧
    ∀ (op : HeaderOp) data h bytes,
      VaultHeader.read data = .ok h → (op.call P data).out = some bytes →
      (StoresHeader mountPoint fs bytes
        ↔ h.version = 4 ∧ (migrates op = true → h.wrappedMek = none)) := by
  constructor
  · intro entropy password cipherId h encKey hmacKey bytes hcreate hw
    rw [storesHeader_write_iff hmount hf hw, createNew_version hcreate]
    decide
  · intro op data h bytes hr hout
    obtain ⟨h₀, h', hr₀, heff, hw⟩ := HeaderOp.call_out hout
    rw [hr] at hr₀
    cases hr₀
    rw [storesHeader_write_iff hmount hf hw, effect_version_four heff]

/-! ## A new vault -/

/-- The reset of a V4 header that carries its key blob. -/
theorem coreHeaders_stored_sample :
    ∃ data bytes, VaultHeader.read data = .ok sampleVault ∧
      ((HeaderOp.failCounterReset (zeros 32) 24576).call transparentPrimitives data).out
        = some bytes ∧
      (StoresHeader "/media/usb" sampleFs bytes ↔
        sampleVault.version = 4 ∧
          (migrates (.failCounterReset (zeros 32) 24576) = true →
            sampleVault.wrappedMek = none)) := by
  obtain ⟨data, hr⟩ := sampleVault_roomy.stored sampleVault_modern
  have heff : Effect transparentPrimitives sampleVault
      (.failCounterReset (zeroVec 32).toList 24576) ERR_SUCCESS
      (resetHeader transparentPrimitives (zeroVec 32) sampleVault) := .reset
  obtain ⟨bytes, hcall, -⟩ := heff.call_roomy hr sampleVault_modern sampleVault_roomy (by decide)
  have hout : ((HeaderOp.failCounterReset (zeros 32) 24576).call transparentPrimitives data).out
      = some bytes := congrArg FfiReturn.out hcall
  have hvault : sampleFs.vaultBin = some _ := rfl
  exact ⟨data, bytes, hr, hout,
    (coreHeaders_stored_iff transparentPrimitives sampleMount hvault).2 _ _ _ _ hr hout⟩

/-- What a creation draws. -/
def sampleCreation : VaultHeader.CreateEntropy :=
  { salt := zeroVec 32, mek := ⟨zeroVec 64⟩, wrapNonce := zeroVec 24, verifyIv := zeroVec 24 }

/-- The companion refuses the header of a vault that was just created. -/
theorem newHeader_refused :
    ∃ h encKey hmacKey bytes,
      VaultHeader.createNew transparentPrimitives sampleCreation [] .xchacha20Poly1305
        = .ok (h, encKey, hmacKey) ∧
      h.write = some bytes ∧ ¬ StoresHeader "/media/usb" sampleFs bytes := by
  have hcreate : ∃ h encKey hmacKey,
      VaultHeader.createNew transparentPrimitives sampleCreation [] .xchacha20Poly1305
        = .ok (h, encKey, hmacKey) ∧ h.Fits := by
    refine ⟨_, _, _, rfl, ?_⟩
    decide
  obtain ⟨h, encKey, hmacKey, hok, hfits⟩ := hcreate
  have hw := VaultHeader.write_of_fits hfits
  refine ⟨h, encKey, hmacKey, _, hok, hw, fun hstored => ?_⟩
  rw [storesHeader_write_iff sampleMount rfl hw, createNew_version hok] at hstored
  exact absurd hstored (by decide)

end UsbVault.Companion
