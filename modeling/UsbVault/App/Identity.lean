import UsbVault.App.HeaderLedger
import UsbVault.Companion.Identity

/-!
# The identity of a provisioned vault

The header of `createVaultHeader` takes the place of the provisional one.
It has the length of the wrapped MEK and the start of its nonce where the
identity's length stood, so the length reads as a multiple of 256; the
zeros behind the last field fall into every range that is not empty. What
the calls on a header change lies elsewhere (`Nameless.call`), and
`readVaultIdentity` returns `null` from then on (`identity_lost`).
-/

namespace UsbVault.App

open Wire Js Companion

variable {C : WebCrypto} {hmacKey : ByteVec 32} {header header' disk disk' : Bytes}

/-- A header call on the container: read the header, change it, write it
back. -/
def HeaderCall.onDisk (C : WebCrypto) (hmacKey : ByteVec 32) (disk : Bytes) (c : HeaderCall) :
    Option Bytes := do
  let header ← readHeaderOf disk
  let header ← c.apply C hmacKey header
  writeHeaderOf disk header

/-- A header without an identity: the low byte of its length is zero, and
so is a byte in the range behind it. -/
structure Nameless (header : Bytes) : Prop where
  web : WebHeader header
  counter : getFailCounterBlockOffset header = 181
  version : stateVersionOffset header = 317
  low : pread header 224 1 = [0]
  behind : pread header 326 1 = [0]

theorem HeaderParts.nameless (p : HeaderParts) : Nameless p.header where
  web := p.webHeader
  counter := p.counter_eq
  version := p.stateVersion_eq
  low := by
    have hread : pread p.header 221 4 = leBytes 4 92 :=
      pread_filled 23 rfl (by simp [blocks, magic_length]) (by simp)
    rw [← pread_pread (f := p.header) (a := 221) (b := 3) (n := 4) (by omega), hread]
    decide
  behind := by
    have hsize : HEADER_SIZE = 24576 := rfl
    have hskip : p.header = filled HEADER_SIZE (p.blocks ++ [zeros 1]) :=
      filled_skip 1 (by simp [blocks, magic_length, hsize])
    rw [hskip]
    exact pread_filled 27 rfl (by simp [blocks, magic_length]) rfl

/-- **No header call brings the identity back.** -/
theorem Nameless.call (h : Nameless header) {c : HeaderCall}
    (hcall : c.apply C hmacKey header = some header') : Nameless header' := by
  have hw := h.web
  have hcounter := h.counter
  have hversion := h.version
  obtain ⟨hmeta, htfa, hfc, hwrapped, hsv, hend⟩ := hw.offsets
  have hwrite : ∀ {count : Nat}, writeFailCounter C header hmacKey count = some header' →
      Nameless header' := by
    intro count hwrite
    have hlow := writeFailCounter_frame hw hwrite (o := 224) (n := 1) (by omega)
    have hbehind := writeFailCounter_frame hw hwrite (o := 326) (n := 1) (by omega)
    obtain ⟨_, hwrite', hsame, -⟩ := writeFailCounter_spec (C := C) hw hmacKey count
    rw [hwrite] at hwrite'
    cases hwrite'
    exact ⟨hsame.webHeader hw, hsame.counter_eq.trans hcounter,
      (hsame.stateVersion_eq hw).trans hversion, hlow.trans h.low, hbehind.trans h.behind⟩
  cases c with
  | commitVaultIndex indexOffset indexLength =>
    obtain ⟨g, g₂, g₃, _, hcommit, hs⟩ :=
      commitVaultIndex_steps (C := C) hw hmacKey indexOffset indexLength
    rw [HeaderCall.apply, hcommit] at hcall
    cases hcall
    have hlow := hs.frame hw (o := 224) (n := 1) (by omega) (by omega) (by omega)
    have hbehind := hs.frame hw (o := 326) (n := 1) (by omega) (by omega) (by omega)
    exact ⟨hs.same'.webHeader hw, hs.same'.counter_eq.trans hcounter,
      (hs.same'.stateVersion_eq hw).trans hversion, hlow.trans h.low, hbehind.trans h.behind⟩
  | incrementFailCounter => exact hwrite hcall
  | resetFailCounter => exact hwrite hcall

/-- **A header without an identity reads as none.** -/
theorem Nameless.parseIdentity_eq (h : Nameless header) (rest : Bytes) :
    parseIdentity (pread (header ++ rest) 0 768) = none := by
  have hsize : HEADER_SIZE = 24576 := rfl
  have hheader := h.web.length
  have hread : ∀ {o n : Nat}, o + n ≤ 768 →
      pread (pread (header ++ rest) 0 768) o n = pread header o n := by
    intro o n ho
    rw [pread_pread (by omega), Nat.zero_add, pread_append_left _ (by omega)]
  have hlong : (pread (header ++ rest) 0 768).length = 768 := by
    rw [pread_length, List.length_append]
    omega
  -- the length reads as a multiple of 256
  have hlow : readLE 2 (pread (header ++ rest) 0 768) 224
      = 256 * readLE 1 (pread (header ++ rest) 0 768) 225 := by
    have htwo : (pread header 224 2).length = 2 := pread_length_of_le (by omega)
    obtain ⟨a, b, hab⟩ := List.length_eq_two.mp htwo
    have ha := pread_pread (f := header) (a := 224) (n := 2) (b := 0) (m := 1) (by omega)
    have hb := pread_pread (f := header) (a := 224) (n := 2) (b := 1) (m := 1) (by omega)
    rw [h.low, hab] at ha
    rw [hab] at hb
    have hzero : a = 0 := List.head_eq_of_cons_eq ha
    rw [readLE, readLE, hread (by omega), hread (by omega), ← hb, hab, hzero]
    simp [leNat, pread]
  rcases Nat.eq_zero_or_pos (readLE 1 (pread (header ++ rest) 0 768) 225) with hzero | hpos
  · exact parseIdentity_of_length_zero hlong (by rw [hlow, hzero])
  · refine parseIdentity_of_zero hlong (k := 326) (by omega) (by omega) (by omega) ?_
    rw [getElem?_eq_pread, hread (by omega), h.behind]
    rfl

/-! ## Every run of calls -/

theorem WebHeader.readHeaderOf (hw : WebHeader header) (rest : Bytes) :
    Companion.readHeaderOf (header ++ rest) = some header := by
  have htake : (header ++ rest).take HEADER_SIZE = header := by
    rw [← hw.length, List.take_left]
  have hmagic : (header ++ rest).take 8 = VAULT_MAGIC := by
    have hheader : (8 : Nat) ≤ HEADER_SIZE := by decide
    rw [← hw.magic, slice, pread, List.drop_zero, ← htake, List.take_take,
      Nat.min_eq_left hheader, htake]
  rw [Companion.readHeaderOf, List.length_append, hw.length, if_neg (by omega),
    if_neg (not_not_intro hmagic), htake]

theorem WebHeader.writeHeaderOf (hw : WebHeader header) (disk : Bytes) :
    Companion.writeHeaderOf disk header = some (header ++ disk.drop HEADER_SIZE) :=
  if_pos ⟨hw.length, hw.magic⟩

theorem WebHeader.apply (hw : WebHeader header) (C : WebCrypto) (hmacKey : ByteVec 32)
    (c : HeaderCall) :
    ∃ header', c.apply C hmacKey header = some header' ∧ WebHeader header' := by
  have hwrite : ∀ count, ∃ header', writeFailCounter C header hmacKey count = some header'
      ∧ WebHeader header' := by
    intro count
    obtain ⟨header', hwrite, hsame, -⟩ := writeFailCounter_spec (C := C) hw hmacKey count
    exact ⟨header', hwrite, hsame.webHeader hw⟩
  cases c with
  | commitVaultIndex indexOffset indexLength =>
    obtain ⟨g, g₂, g₃, header', hcommit, hs⟩ :=
      commitVaultIndex_steps (C := C) hw hmacKey indexOffset indexLength
    exact ⟨header', hcommit, hs.same'.webHeader hw⟩
  | incrementFailCounter => exact hwrite _
  | resetFailCounter => exact hwrite _

/-- A container under a header without an identity. -/
def NamelessDisk (disk : Bytes) : Prop :=
  ∃ header rest, disk = header ++ rest ∧ Nameless header

theorem NamelessDisk.write (h : Nameless header) (hwrite : writeHeaderOf disk header = some disk') :
    NamelessDisk disk' := by
  rw [h.web.writeHeaderOf] at hwrite
  exact ⟨header, disk.drop HEADER_SIZE, (Option.some.inj hwrite).symm, h⟩

/-- A header call on the container succeeds, and brings no identity back. -/
theorem NamelessDisk.call (h : NamelessDisk disk) (C : WebCrypto) (hmacKey : ByteVec 32)
    (c : HeaderCall) :
    ∃ disk', c.onDisk C hmacKey disk = some disk' ∧ NamelessDisk disk' := by
  obtain ⟨header, rest, rfl, hheader⟩ := h
  obtain ⟨header', happly, hw'⟩ := hheader.web.apply C hmacKey c
  have hwrite := hw'.writeHeaderOf (header ++ rest)
  refine ⟨_, ?_, NamelessDisk.write (hheader.call happly) hwrite⟩
  rw [HeaderCall.onDisk, hheader.web.readHeaderOf, Option.bind_eq_bind, Option.bind_some, happly]
  exact hwrite

/-- **No run of `readVaultIdentity` on such a container returns an
identity.** -/
theorem NamelessDisk.not_identifies (h : NamelessDisk disk) {mountPoint : String} {fs : Fs}
    (hf : fs.vaultBin = some disk) (vaultId vaultName : String) :
    ¬ Identifies mountPoint fs vaultId vaultName := by
  rintro ⟨v, fs', hrun, -, -⟩
  obtain ⟨header, rest, rfl, hheader⟩ := h
  have hread := readVaultIdentity_contract hf hrun
  rw [hheader.parseIdentity_eq] at hread
  simp at hread

/-- **The identity is lost**: once the header of `createVaultHeader` is
written over the provisional one, no run of `readVaultIdentity` returns
the id and the name, after any header calls. -/
theorem identity_lost (hC : C.aesGcm.Correct) {vaultId vaultName created : String}
    {salt : ByteVec 32} {password : Bytes} {cipherId : Nat} {random : ProvisionRandom}
    {keys : VaultSession} {disk₁ disk₂ : Bytes} {calls : List HeaderCall}
    (hcreate : createVaultHeader C password cipherId random = some (header, keys))
    (hwrite : writeHeaderOf (buildInitialHeader salt vaultId vaultName created) header
      = some disk₁)
    (hcalls : Run.steps (HeaderCall.onDisk C keys.hmacKey) calls disk₁ = some disk₂)
    {mountPoint : String} {fs : Fs} (hf : fs.vaultBin = some disk₂) :
    ¬ Identifies mountPoint fs vaultId vaultName := by
  obtain ⟨p, rfl⟩ := createVaultHeader_parts hC hcreate
  have hstep : ∀ disk c disk', True → NamelessDisk disk →
      HeaderCall.onDisk C keys.hmacKey disk c = some disk' → NamelessDisk disk' := by
    intro disk c disk' _ h hcall
    obtain ⟨_, hcall', hnext⟩ := h.call C keys.hmacKey c
    rw [hcall] at hcall'
    cases hcall'
    exact hnext
  have hfirst : NamelessDisk disk₁ := NamelessDisk.write p.nameless hwrite
  exact (Run.steps_preserves hstep calls disk₁ disk₂ (fun _ _ => trivial) hfirst
    hcalls).not_identifies hf vaultId vaultName

/-! ## A sample vault -/

def sampleCreated : String := "2026-01-01T00:00:00.000Z"

/-- A partition with this container. -/
def samplePartition (disk : Bytes) : Fs := { sampleFs with vaultBin := some disk }

/-- The container right after provisioning. -/
def sampleProvisional : Bytes := buildInitialHeader (zeroVec 32) "v" "Vault" sampleCreated

theorem sampleProvisioning :
    ∃ created disk₁ disk₂, createVaultHeader transparentCrypto samplePassword 3 sampleRandom
        = some (created, sampleKeys)
      ∧ writeHeaderOf sampleProvisional created = some disk₁
      ∧ Run.steps (HeaderCall.onDisk transparentCrypto sampleKeys.hmacKey)
          [.commitVaultIndex 24576 40] disk₁ = some disk₂
      ∧ NamelessDisk disk₂ := by
  obtain ⟨created, hcreate⟩ := sampleHeader_created
  obtain ⟨p, rfl⟩ := createVaultHeader_parts (transparentAead_correct 12) hcreate
  have hwrite := p.webHeader.writeHeaderOf sampleProvisional
  obtain ⟨disk₂, hcall, hnameless⟩ := (NamelessDisk.write p.nameless hwrite).call
    transparentCrypto sampleKeys.hmacKey (.commitVaultIndex 24576 40)
  exact ⟨_, _, disk₂, hcreate, hwrite, by rw [Run.steps, hcall]; rfl, hnameless⟩

theorem identity_lost_sample :
    ∃ created disk₁ disk₂, createVaultHeader transparentCrypto samplePassword 3 sampleRandom
        = some (created, sampleKeys)
      ∧ writeHeaderOf sampleProvisional created = some disk₁
      ∧ Run.steps (HeaderCall.onDisk transparentCrypto sampleKeys.hmacKey)
          [.commitVaultIndex 24576 40] disk₁ = some disk₂
      ∧ ¬ Identifies "/media/usb" (samplePartition disk₂) "v" "Vault" := by
  obtain ⟨created, disk₁, disk₂, hcreate, hwrite, hcalls, -⟩ := sampleProvisioning
  exact ⟨created, disk₁, disk₂, hcreate, hwrite, hcalls,
    identity_lost (transparentAead_correct 12) hcreate hwrite hcalls rfl⟩

/-- The vault is found before the app writes its header, and not after a
commit. -/
theorem sampleVault_unidentified :
    Identifies "/media/usb" (samplePartition sampleProvisional) "v" "Vault"
      ∧ ∃ created disk₁ disk₂,
        createVaultHeader transparentCrypto samplePassword 3 sampleRandom
          = some (created, sampleKeys)
        ∧ writeHeaderOf sampleProvisional created = some disk₁
        ∧ Run.steps (HeaderCall.onDisk transparentCrypto sampleKeys.hmacKey)
            [.commitVaultIndex 24576 40] disk₁ = some disk₂
        ∧ ¬ Identifies "/media/usb" (samplePartition disk₂) "v" "Vault" := by
  obtain ⟨created, disk₁, disk₂, hcreate, hwrite, hcalls, hnameless⟩ := sampleProvisioning
  exact ⟨initialHeader_identifies sampleMount (by decide) rfl, created, disk₁, disk₂, hcreate,
    hwrite, hcalls, hnameless.not_identifies rfl "v" "Vault"⟩

end UsbVault.App
