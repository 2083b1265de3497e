import UsbVault.Vault.Unlock
import UsbVault.Ffi.HeaderOps

/-!
# Maintenance

Runs of index commits, fail-counter increments below the limit and
fail-counter resets, each a successful call on the bytes the last one
wrote. Such a run keeps the seals of the header and leaves it signed,
so the vault still opens with its password.
-/

namespace UsbVault

open Wire VaultHeader

variable {P : Primitives}

/-- The operations of everyday use, called with the vault's HMAC key. -/
def HeaderOp.IsMaintenance (hmacKey : ByteVec 32) : HeaderOp → Prop
  | .failCounterIncrement _ key _ => key = hmacKey.toList
  | .failCounterReset key _ => key = hmacKey.toList
  | .commitIndex key _ _ _ => key = hmacKey.toList
  | .selfDestruct _ _ => False

/-! ## The seals are kept -/

theorem VaultHeader.SealAgree.counterUpdate (key : ByteVec 32) (count : UInt32)
    (h : VaultHeader) : SealAgree h (incrementedHeader P key count h) :=
  (SealAgree.writeFailCounter key count h).trans <|
    (SealAgree.incrementStateVersion _).trans <| .resign key _

theorem VaultHeader.SealAgree.resetHeader (key : ByteVec 32) (h : VaultHeader) :
    SealAgree h (resetHeader P key h) := by
  rw [resetHeader_eq]
  exact (SealAgree.upgrade h).trans (.counterUpdate key 0 _)

/-- A header re-signed with the bytes of a key verifies under the key. -/
theorem resign_signed {key hmacKey : ByteVec 32}
    (hkey : key.toList = hmacKey.toList) (h : VaultHeader) :
    MacVerifies P hmacKey (h.resign P key) := by
  obtain rfl : key = hmacKey := List.Vector.eq _ _ hkey
  exact resign_macVerifies key h

/-- Every operation with the key leaves the header signed under it. -/
theorem Effect.signed {hmacKey : ByteVec 32} {h h' : VaultHeader}
    {op : HeaderOp} {code : Int} (he : Effect P h op code h')
    (hop : op.IsMaintenance hmacKey) : MacVerifies P hmacKey h' := by
  cases he with
  | incremented => exact resign_signed hop _
  | exceeded => exact resign_signed hop _
  | reset => exact resign_signed hop _
  | committed => exact resign_signed hop _
  | wiped => exact hop.elim

/-- **One maintenance step** that reports success keeps the seals. -/
theorem Effect.sealAgree {hmacKey : ByteVec 32} {h h' : VaultHeader}
    {op : HeaderOp} {code : Int} (he : Effect P h op code h')
    (hop : op.IsMaintenance hmacKey) (hcode : code = ERR_SUCCESS) :
    SealAgree h h' := by
  cases he with
  | @incremented _ key => exact .counterUpdate key _ h
  -- at the limit the call does not report success
  | exceeded => exact absurd hcode (by decide)
  | @reset key => exact .resetHeader key h
  | @committed key off len => exact .commitNewIndex key off len h
  | wiped => exact hop.elim

/-! ## Runs -/

/-- The bytes read to a V4+ header that unlocks to the keys. -/
def Opens (P : Primitives) (password : Bytes) (keys : ByteVec 32 × ByteVec 32)
    (data : Bytes) : Prop :=
  ∃ h, read data = .ok h ∧ h.version ≥ 4 ∧ unlock P password h = .ok keys

/-- One successful maintenance call keeps the vault open to its keys. -/
theorem Opens.step {password data data' : Bytes} {encKey hmacKey : ByteVec 32}
    {op : HeaderOp} (hop : op.IsMaintenance hmacKey)
    (ho : Opens P password (encKey, hmacKey) data)
    (hstep : op.succeed P data = some data') :
    Opens P password (encKey, hmacKey) data' := by
  obtain ⟨h, hr, hv, hu⟩ := ho
  unfold HeaderOp.succeed at hstep
  split_ifs at hstep with hcode
  obtain ⟨h', he, hm, hr'⟩ := HeaderOp.call_read hr hv hstep
  have hseal : SealAgree h h' := he.sealAgree hop hcode
  exact ⟨h', hr', hm.version_ge, unlock_resign hseal (he.signed hop) hu⟩

/-- **Unlock survives every maintenance run**: from a V4, V5 or V6
header that unlocks with the password, the bytes after any sequence of
successful commits, increments below the limit and resets with the
vault's HMAC key read back to a header that unlocks to the same keys. -/
theorem unlock_after_maintenance {password data data' : Bytes}
    {h : VaultHeader} {encKey hmacKey : ByteVec 32} {ops : List HeaderOp}
    (hr : read data = .ok h) (hv : h.version ≥ 4)
    (hu : unlock P password h = .ok (encKey, hmacKey))
    (hops : ∀ op ∈ ops, op.IsMaintenance hmacKey)
    (hrun : Run.steps (HeaderOp.succeed P) ops data = some data') :
    ∃ h', read data' = .ok h'
      ∧ unlock P password h' = .ok (encKey, hmacKey) := by
  have hstart : Opens P password (encKey, hmacKey) data := ⟨h, hr, hv, hu⟩
  obtain ⟨h', hr', -, hu'⟩ :=
    Run.steps_preserves (fun _ _ _ hop ho hs => Opens.step hop ho hs)
      ops data data' hops hstart hrun
  exact ⟨h', hr', hu'⟩

/-- A V4 vault committed to, upgraded by it, then reset. -/
theorem unlock_after_maintenance_sample :
    ∃ (ops : List HeaderOp) (data data' : Bytes) (h' : VaultHeader),
      ops.length = 2 ∧ read data = .ok sampleVault
      ∧ Run.steps (HeaderOp.succeed transparentPrimitives) ops data = some data'
      ∧ read data' = .ok h'
      ∧ unlock transparentPrimitives [] h' = .ok (zeroVec 32, zeroVec 32) := by
  let key : ByteVec 32 := zeroVec 32
  let commit := HeaderOp.commitIndex key.toList 24576 100 24576
  let reset := HeaderOp.failCounterReset key.toList 24576
  let committed := sampleVault.commitNewIndex transparentPrimitives key 24576 100
  have hcommit : Effect transparentPrimitives sampleVault commit ERR_SUCCESS
      committed := .committed
  have hreset : Effect transparentPrimitives committed reset ERR_SUCCESS
      (resetHeader transparentPrimitives key committed) := .reset
  have hm := hcommit.modernForm sampleVault_modern
  have hroom := hcommit.roomy sampleVault_modern sampleVault_roomy
  obtain ⟨data, hr⟩ := sampleVault_roomy.stored sampleVault_modern
  obtain ⟨data₁, hs₁, hr₁⟩ :=
    hcommit.succeed_roomy hr sampleVault_modern sampleVault_roomy le_rfl
  obtain ⟨data₂, hs₂, -⟩ := hreset.succeed_roomy hr₁ hm hroom le_rfl
  have hrun : Run.steps (HeaderOp.succeed transparentPrimitives)
      [commit, reset] data = some data₂ := by
    simp only [Run.steps, Option.bind, hs₁, hs₂]
  have hu : unlock transparentPrimitives [] sampleVault
      = .ok (zeroVec 32, key) := rfl
  have hops : ∀ op ∈ [commit, reset], op.IsMaintenance key := by
    simp [commit, reset, HeaderOp.IsMaintenance]
  obtain ⟨h', hr', hu'⟩ :=
    unlock_after_maintenance hr (by decide) hu hops hrun
  exact ⟨_, data, data₂, h', rfl, hr, hrun, hr', hu'⟩

end UsbVault
