import UsbVault.Ffi.HeaderOps
import UsbVault.Vault.Unlock
import UsbVault.Lib.Run
import Mathlib.Data.List.Induction

/-!
# IndexCommit

Runs of `commit_new_index`. A commit fills the inactive slot and makes
it the active one, so the slot it leaves behind holds the index of the
commit before: what is on disk before a header write and what is on disk
after it name one index in common. The counters count the commits until
they saturate, the header is re-signed last, and the committed header
reads back exactly when the header is one of the format.
-/

namespace UsbVault

open Wire VaultHeader

/-- One call of `commit_new_index`. -/
structure IndexCommit where
  hmacKey : ByteVec 32
  offset : UInt32
  length : UInt32

def IndexCommit.apply (P : Primitives) (h : VaultHeader) (c : IndexCommit) :
    VaultHeader :=
  h.commitNewIndex P c.hmacKey c.offset c.length

/-- The header after a run of calls. -/
def commitAll (P : Primitives) (h : VaultHeader) (cs : List IndexCommit) :
    VaultHeader :=
  cs.foldl (IndexCommit.apply P) h

/-- Offset and length in the active slot. -/
def activePointers (h : VaultHeader) : UInt32 × UInt32 :=
  if h.activeIndexSlot = 0 then (h.index1Offset, h.index1Length)
  else (h.index2Offset, h.index2Length)

/-- Offset and length in the other slot. -/
def inactivePointers (h : VaultHeader) : UInt32 × UInt32 :=
  if h.activeIndexSlot = 0 then (h.index2Offset, h.index2Length)
  else (h.index1Offset, h.index1Length)

variable {P : Primitives}

@[simp] theorem commitAll_nil (h : VaultHeader) : commitAll P h [] = h := rfl

theorem commitAll_append (h : VaultHeader) (cs : List IndexCommit)
    (c : IndexCommit) :
    commitAll P h (cs ++ [c]) = c.apply P (commitAll P h cs) := by
  rw [commitAll, List.foldl_append]
  rfl

/-- What a commit does after the flip. -/
def countAndSign (P : Primitives) (key : ByteVec 32) (h : VaultHeader) :
    VaultHeader :=
  ({ h with commitCounter := saturatingAdd64 h.commitCounter 1
    }).incrementStateVersion.resign P key

theorem commitNewIndex_eq (key : ByteVec 32) (off len : UInt32)
    (h : VaultHeader) :
    h.commitNewIndex P key off len
      = countAndSign P key (h.upgradeToV5IfEligible.flipIndexSlot off len) :=
  rfl

/-! ## The slots -/

theorem countAndSign_slots (key : ByteVec 32) (h : VaultHeader) :
    activePointers (countAndSign P key h) = activePointers h
      ∧ inactivePointers (countAndSign P key h) = inactivePointers h
      ∧ (countAndSign P key h).activeIndexSlot = h.activeIndexSlot :=
  ⟨rfl, rfl, rfl⟩

theorem flipIndexSlot_pointers (off len : UInt32) (h : VaultHeader) :
    activePointers (h.flipIndexSlot off len) = (off, len)
      ∧ inactivePointers (h.flipIndexSlot off len) = activePointers h
      ∧ ((h.flipIndexSlot off len).activeIndexSlot = 0
        ∨ (h.flipIndexSlot off len).activeIndexSlot = 1) := by
  unfold flipIndexSlot
  by_cases hslot : h.activeIndexSlot = 0
  · rw [if_pos hslot]
    refine ⟨rfl, ?_, .inr rfl⟩
    rw [activePointers, if_pos hslot]
    rfl
  · rw [if_neg hslot]
    refine ⟨rfl, ?_, .inl rfl⟩
    rw [activePointers, if_neg hslot]
    rfl

theorem activePointers_upgrade (h : VaultHeader) :
    activePointers h.upgradeToV5IfEligible = activePointers h := by
  unfold upgradeToV5IfEligible
  split_ifs <;> rfl

theorem commitNewIndex_pointers (key : ByteVec 32) (off len : UInt32)
    (h : VaultHeader) :
    activePointers (h.commitNewIndex P key off len) = (off, len)
      ∧ inactivePointers (h.commitNewIndex P key off len) = activePointers h
      ∧ ((h.commitNewIndex P key off len).activeIndexSlot = 0
        ∨ (h.commitNewIndex P key off len).activeIndexSlot = 1) := by
  have hflip := flipIndexSlot_pointers off len h.upgradeToV5IfEligible
  rw [activePointers_upgrade] at hflip
  rw [commitNewIndex_eq]
  generalize h.upgradeToV5IfEligible.flipIndexSlot off len = g at hflip ⊢
  obtain ⟨hactive, hinactive, hslot⟩ := countAndSign_slots (P := P) key g
  rw [hactive, hinactive, hslot]
  exact hflip

/-! ## The counters -/

theorem flipIndexSlot_counters (off len : UInt32) (h : VaultHeader) :
    (h.flipIndexSlot off len).commitCounter = h.commitCounter
      ∧ (h.flipIndexSlot off len).stateVersion = h.stateVersion := by
  unfold flipIndexSlot
  split_ifs <;> exact ⟨rfl, rfl⟩

theorem upgrade_counters (h : VaultHeader) :
    h.upgradeToV5IfEligible.commitCounter = h.commitCounter
      ∧ h.upgradeToV5IfEligible.stateVersion = h.stateVersion := by
  unfold upgradeToV5IfEligible
  split_ifs <;> exact ⟨rfl, rfl⟩

theorem commitNewIndex_counters (key : ByteVec 32) (off len : UInt32)
    (h : VaultHeader) :
    (h.commitNewIndex P key off len).commitCounter
        = saturatingAdd64 h.commitCounter 1
      ∧ (h.commitNewIndex P key off len).stateVersion
        = saturatingAdd64 h.stateVersion 1 := by
  obtain ⟨hflipC, hflipS⟩ := flipIndexSlot_counters off len h.upgradeToV5IfEligible
  obtain ⟨hupC, hupS⟩ := upgrade_counters h
  rw [commitNewIndex_eq]
  generalize h.upgradeToV5IfEligible.flipIndexSlot off len = g at hflipC hflipS ⊢
  have hcount : (countAndSign P key g).commitCounter
      = saturatingAdd64 g.commitCounter 1 := rfl
  have hstate : (countAndSign P key g).stateVersion
      = saturatingAdd64 g.stateVersion 1 := rfl
  rw [hcount, hstate, hflipC, hflipS, hupC, hupS]
  exact ⟨rfl, rfl⟩

/-- **The counters count the commits** of a run, up to their maximum. -/
theorem commitAll_counters (h : VaultHeader) (cs : List IndexCommit) :
    (commitAll P h cs).commitCounter.toNat
        = min (h.commitCounter.toNat + cs.length) (2 ^ 64 - 1)
      ∧ (commitAll P h cs).stateVersion.toNat
        = min (h.stateVersion.toNat + cs.length) (2 ^ 64 - 1) := by
  have hone : (1 : UInt64).toNat = 1 := rfl
  induction cs using List.reverseRecOn with
  | nil =>
    have hc := h.commitCounter.toNat_lt
    have hs := h.stateVersion.toNat_lt
    simp only [commitAll_nil, List.length_nil]
    omega
  | append_singleton cs c ih =>
    obtain ⟨hc, hs⟩ := commitNewIndex_counters (P := P) c.hmacKey c.offset
      c.length (commitAll P h cs)
    rw [commitAll_append, IndexCommit.apply, hc, hs, saturatingAdd64_toNat,
      saturatingAdd64_toNat, hone, ih.1, ih.2, List.length_append,
      List.length_singleton]
    omega

/-! ## The format -/

/-- The versions the dual-slot commit is about. -/
def HasVersion456 (h : VaultHeader) : Prop :=
  h.version = 4 ∨ h.version = 5 ∨ h.version = 6

theorem HasVersion456.commitNewIndex {h : VaultHeader} (hv : HasVersion456 h)
    (key : ByteVec 32) (off len : UInt32) :
    HasVersion456 (h.commitNewIndex P key off len) := by
  have hup : HasVersion456 h.upgradeToV5IfEligible := by
    unfold upgradeToV5IfEligible
    split_ifs
    · exact .inr (.inl rfl)
    · exact hv
  have hflip : HasVersion456 (h.upgradeToV5IfEligible.flipIndexSlot off len) := by
    unfold flipIndexSlot
    split_ifs <;> exact hup
  rw [commitNewIndex_eq]
  generalize h.upgradeToV5IfEligible.flipIndexSlot off len = g at hflip ⊢
  exact hflip

/-- A header of the versions is one of the format when its other fields
are. -/
theorem wellFormed_iff_modernForm {h : VaultHeader} (hv : HasVersion456 h) :
    h.WellFormed ↔ ModernForm h := by
  constructor
  · intro hwf
    refine .of_wellFormed hwf ?_
    rcases hv with h4 | h5 | h6 <;> simp [*]
  · exact ModernForm.wellFormed

theorem modernForm_of_upgrade {h : VaultHeader} (hv : HasVersion456 h)
    (hm : ModernForm h.upgradeToV5IfEligible) : ModernForm h := by
  unfold upgradeToV5IfEligible at hm
  split_ifs at hm
  · exact { hm with version := hv }
  · exact hm

theorem modernForm_of_flip {off len : UInt32} {h : VaultHeader}
    (hm : ModernForm (h.flipIndexSlot off len)) : ModernForm h := by
  unfold flipIndexSlot at hm
  split_ifs at hm
  · exact { hm with }
  · exact { hm with }

theorem modernForm_of_sign {key : ByteVec 32} {h : VaultHeader}
    (hm : ModernForm (countAndSign P key h)) : ModernForm h :=
  { hm with }

/-- A commit neither repairs nor breaks the fields it does not touch. -/
theorem modernForm_commitNewIndex_iff {h : VaultHeader} (hv : HasVersion456 h)
    (key : ByteVec 32) (off len : UInt32) :
    ModernForm (h.commitNewIndex P key off len) ↔ ModernForm h := by
  constructor
  · intro hm
    rw [commitNewIndex_eq] at hm
    exact modernForm_of_upgrade hv (modernForm_of_flip (modernForm_of_sign hm))
  · intro hm
    exact hm.commitNewIndex P key off len

/-- What a run of commits keeps of the header it started from. -/
structure Carried (h g : VaultHeader) : Prop where
  version : HasVersion456 g
  slot : g.activeIndexSlot = 0 ∨ g.activeIndexSlot = 1
  fits : g.Fits
  format : ModernForm g ↔ ModernForm h

theorem Carried.apply {h g : VaultHeader} (hc : Carried h g) (c : IndexCommit) :
    Carried h (c.apply P g) where
  version := hc.version.commitNewIndex c.hmacKey c.offset c.length
  slot := (commitNewIndex_pointers c.hmacKey c.offset c.length g).2.2
  fits := by
    have hv' : HasVersion456 (c.apply P g) :=
      hc.version.commitNewIndex c.hmacKey c.offset c.length
    have hf := (fits_iff_restLen hc.version).mp hc.fits
    rw [fits_iff_restLen hv', IndexCommit.apply, restLen_commitNewIndex,
      failCounterBlock_commitNewIndex]
    exact hf
  format :=
    (modernForm_commitNewIndex_iff hc.version c.hmacKey c.offset c.length).trans
      hc.format

theorem Carried.commitAll {h g : VaultHeader} (hc : Carried h g)
    (cs : List IndexCommit) : Carried h (commitAll P g cs) :=
  Run.foldl_preserves (A := fun _ => True) (fun _ c _ hg => hg.apply c) cs g
    (fun _ _ => trivial) hc

/-- A committed header is written, and reads back to itself exactly when
the header it started from is one of the format. -/
theorem commitAll_write_read {h : VaultHeader} (hversion : HasVersion456 h)
    (hslot : h.activeIndexSlot = 0 ∨ h.activeIndexSlot = 1) (hfit : h.Fits)
    (cs : List IndexCommit) :
    ∃ bytes, (commitAll P h cs).write = some bytes
      ∧ (VaultHeader.read bytes = .ok (commitAll P h cs) ↔ h.WellFormed) := by
  have hrun : Carried h (commitAll P h cs) :=
    Carried.commitAll ⟨hversion, hslot, hfit, Iff.rfl⟩ cs
  have hwrite := write_of_fits hrun.fits
  have hformat : (commitAll P h cs).WellFormed ↔ h.WellFormed := by
    rw [wellFormed_iff_modernForm hrun.version, hrun.format,
      wellFormed_iff_modernForm hversion]
  refine ⟨_, hwrite, ?_⟩
  rw [← hformat]
  exact ⟨read_wellFormed, fun hwf => read_of_write hwf hwrite⟩

/-! ## The two slots over a run -/

/-- **Dual-slot commits are crash safe**: after each call of a run the
active slot holds what was just committed and the other one what was
active before, the slot byte stays 0 or 1, the counters count the calls,
the stored HMAC verifies, and the written header reads back to the
committed one exactly when the header is one of the format. -/
theorem commitNewIndex_crashSafe (P : Primitives) (h : VaultHeader)
    (hversion : h.version = 4 ∨ h.version = 5 ∨ h.version = 6)
    (hslot : h.activeIndexSlot = 0 ∨ h.activeIndexSlot = 1) (hfit : h.Fits)
    (before : List IndexCommit) (c : IndexCommit) :
    activePointers (commitAll P h (before ++ [c])) = (c.offset, c.length)
    ∧ inactivePointers (commitAll P h (before ++ [c]))
      = activePointers (commitAll P h before)
    ∧ ((commitAll P h (before ++ [c])).activeIndexSlot = 0
      ∨ (commitAll P h (before ++ [c])).activeIndexSlot = 1)
    ∧ (commitAll P h (before ++ [c])).commitCounter.toNat
      = min (h.commitCounter.toNat + (before.length + 1)) (2 ^ 64 - 1)
    ∧ (commitAll P h (before ++ [c])).stateVersion.toNat
      = min (h.stateVersion.toNat + (before.length + 1)) (2 ^ 64 - 1)
    ∧ MacVerifies P c.hmacKey (commitAll P h (before ++ [c]))
    ∧ ∃ bytes, (commitAll P h (before ++ [c])).write = some bytes
      ∧ (VaultHeader.read bytes = .ok (commitAll P h (before ++ [c]))
        ↔ h.WellFormed) := by
  have hrun : Carried h (commitAll P h (before ++ [c])) :=
    Carried.commitAll ⟨hversion, hslot, hfit, Iff.rfl⟩ _
  obtain ⟨hcommits, hstates⟩ := commitAll_counters (P := P) h (before ++ [c])
  rw [List.length_append, List.length_singleton] at hcommits hstates
  obtain ⟨hactive, hinactive, -⟩ := commitNewIndex_pointers (P := P) c.hmacKey
    c.offset c.length (commitAll P h before)
  refine ⟨?_, ?_, hrun.slot, hcommits, hstates, ?_,
    commitAll_write_read hversion hslot hfit _⟩
  · rw [commitAll_append]
    exact hactive
  · rw [commitAll_append]
    exact hinactive
  · rw [commitAll_append]
    exact resign_macVerifies c.hmacKey _

theorem commitNewIndex_crashSafe_sample :
    activePointers (commitAll transparentPrimitives sampleHeader
      ([⟨zeroVec 32, 24576, 40⟩] ++ [⟨zeroVec 32, 24700, 52⟩])) = (24700, 52)
    ∧ inactivePointers (commitAll transparentPrimitives sampleHeader
      ([⟨zeroVec 32, 24576, 40⟩] ++ [⟨zeroVec 32, 24700, 52⟩])) = (24576, 40) :=
  have hsafe := commitNewIndex_crashSafe transparentPrimitives sampleHeader
    (by decide) (by decide) (by decide) [⟨zeroVec 32, 24576, 40⟩]
    ⟨zeroVec 32, 24700, 52⟩
  ⟨hsafe.1, hsafe.2.1.trans rfl⟩

theorem encode_layout (h : VaultHeader) (pad : Bytes) :
    ∃ tail, encode h ++ pad
      = magicOf h.version ++ (h.kdfHashId :: h.cipherId :: tail) := by
  simp only [encode, encodeBase, List.append_assoc, List.cons_append,
    List.nil_append]
  exact ⟨_, rfl⟩

theorem read_unknownCipher {h : VaultHeader} {e : CryptoError}
    (hversion : versionOfMagic (magicOf h.version) = .ok h.version)
    (hcipher : CipherId.fromByte h.cipherId = .error e) (pad : Bytes)
    (g : VaultHeader) : VaultHeader.read (encode h ++ pad) ≠ .ok g := by
  intro hread
  unfold VaultHeader.read at hread
  split_ifs at hread
  cases hrun : readFields (Cursor.start (encode h ++ pad)) with
  | error e' => rw [hrun] at hread; cases hread
  | ok r =>
    obtain ⟨g', c'⟩ := r
    obtain ⟨tail, hlayout⟩ := encode_layout h pad
    have hstart : (Cursor.start (encode h ++ pad)).rest
        = magicOf h.version ++ (h.kdfHashId :: h.cipherId :: tail) :=
      (Cursor.start_rest _).trans hlayout
    unfold readFields at hrun
    obtain ⟨c₁, h₁, hrun⟩ :=
      (yields_take _ (magicOf_length _) _).of_bind_ok hstart hrun
    obtain ⟨c₂, h₂, hrun⟩ := (yields_lift hversion _).of_bind_ok h₁ hrun
    obtain ⟨c₃, h₃, hrun⟩ := (yields_readU8 _ _ _).of_bind_ok h₂ hrun
    obtain ⟨c₄, h₄, hrun⟩ := (yields_readU8 _ _ _).of_bind_ok h₃ hrun
    obtain ⟨c, hc, -⟩ := lift_bind_ok hrun
    rw [hcipher] at hc
    cases hc

theorem commitAll_cipherId (h : VaultHeader) (cs : List IndexCommit) :
    (commitAll P h cs).cipherId = h.cipherId := by
  have hstep : ∀ (g : VaultHeader) (c : IndexCommit), True → g.cipherId = h.cipherId →
      (IndexCommit.apply P g c).cipherId = h.cipherId := fun g c _ hg =>
    (SealAgree.commitNewIndex c.hmacKey c.offset c.length g).cipherId.trans hg
  exact Run.foldl_preserves hstep cs h (fun _ _ => trivial) rfl

/-- Such a header is committed and written, and what is written does not
read. -/
theorem unknownCipher_not_read_back {h : VaultHeader} {e : CryptoError}
    (hversion : HasVersion456 h)
    (hslot : h.activeIndexSlot = 0 ∨ h.activeIndexSlot = 1) (hfit : h.Fits)
    (hcipher : CipherId.fromByte h.cipherId = .error e)
    (cs : List IndexCommit) :
    ∃ bytes, (commitAll P h cs).write = some bytes
      ∧ ∀ g, VaultHeader.read bytes ≠ .ok g := by
  have hrun : Carried h (commitAll P h cs) :=
    Carried.commitAll ⟨hversion, hslot, hfit, Iff.rfl⟩ cs
  have hmagic : versionOfMagic (magicOf (commitAll P h cs).version)
      = .ok (commitAll P h cs).version := by
    rcases hrun.version with hv | hv | hv <;> rw [hv] <;> decide
  rw [← commitAll_cipherId (P := P) h cs] at hcipher
  exact ⟨_, write_of_fits hrun.fits, read_unknownCipher hmagic hcipher _⟩

/-- A V4 header that fits, with a cipher byte the reader does not know. -/
def foreignCipherHeader : VaultHeader :=
  { sampleHeader with version := 4, cipherId := 9 }

theorem foreignCipher_not_read_back :
    foreignCipherHeader.version = 4 ∧ foreignCipherHeader.activeIndexSlot = 0
    ∧ foreignCipherHeader.Fits
    ∧ ∃ bytes, (commitAll transparentPrimitives foreignCipherHeader
        [⟨zeroVec 32, 24576, 40⟩]).write = some bytes
      ∧ ∀ g, VaultHeader.read bytes ≠ .ok g := by
  have hfits : foreignCipherHeader.Fits := by decide
  have hcipher : CipherId.fromByte foreignCipherHeader.cipherId
      = .error .invalidCipher := by decide
  exact ⟨rfl, rfl, hfits,
    unknownCipher_not_read_back (.inl rfl) (.inl rfl) hfits hcipher _⟩

end UsbVault
