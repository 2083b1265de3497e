import UsbVault.App.HeaderLedger

/-!
# Tampered headers

What the web module notices of a changed header. Its header code covers
the salt and the verify fields, and no function ever compares a code with
the header: an unlock reads none, and a commit writes a fresh one over
whatever it finds. A changed header is therefore noticed exactly when it
ends before its code does (`tamperDetected_iff`), and a change of the slot,
the pointers, the counters or the fail counter does not even reach what an
unlock reads (`unlock_of_uncovered`).
-/

namespace UsbVault.App

open Wire Js Companion

variable {C : WebCrypto} {hmacKey : ByteVec 32} {header header' : Bytes}

/-! ## Detection -/

/-- The header carries the code `computeHeaderHMAC` gives for it. -/
def MacValid (C : WebCrypto) (hmacKey : ByteVec 32) (header : Bytes) : Prop :=
  slice header (68 + verifyCTLen header) (100 + verifyCTLen header)
    = (computeHeaderHMAC C header hmacKey).toList

/-- `unlockVault`, then `readFailCounter`. -/
def unlockAndCount (C : WebCrypto) (header password : Bytes) : Except WebError Nat := do
  let _ ← unlockVault C header password
  return readFailCounter header

/-- The header opens under no password, and no call with the vault's key
turns it into one with a valid code. -/
structure TamperDetected (C : WebCrypto) (hmacKey : ByteVec 32) (header : Bytes) : Prop where
  unlock : ∀ password, ∃ e, unlockAndCount C header password = .error e
  calls : ∀ (c : HeaderCall) header', c.apply C hmacKey header = some header' →
    ¬ MacValid C hmacKey header'

/-! ## Untruncated headers -/

/-- Two headers of one length that agree up to the code. -/
structure SameFront (header header' : Bytes) : Prop where
  length : header'.length = header.length
  front : header'.take (68 + verifyCTLen header) = header.take (68 + verifyCTLen header)

theorem SameFront.refl (header : Bytes) : SameFront header header := ⟨rfl, rfl⟩

theorem SameFront.read (h : SameFront header header') {o n : Nat}
    (hn : o + n ≤ 68 + verifyCTLen header) : pread header' o n = pread header o n :=
  pread_congr_take h.front hn

theorem SameFront.verifyCTLen_eq (h : SameFront header header') :
    verifyCTLen header' = verifyCTLen header := by
  rw [verifyCTLen, verifyCTLen, readLE, readLE, h.read (by omega)]

theorem SameFront.store (h : SameFront header header') {off : Nat} (bs : Bytes)
    (hoff : 68 + verifyCTLen header ≤ off) : SameFront header (store header' off bs) where
  length := by rw [length_store, h.length]
  front := by
    rw [← h.front]
    have htake : ∀ l : Bytes, l.take (68 + verifyCTLen header)
        = (l.take off).take (68 + verifyCTLen header) := by
      intro l
      rw [List.take_take, Nat.min_eq_left hoff]
    rw [htake, take_store, ← htake]

theorem SameFront.bumpU64 (h : SameFront header header') {off : Nat}
    (hoff : 68 + verifyCTLen header ≤ off) : SameFront header (bumpU64 header' off) :=
  h.store _ hoff

theorem SameFront.stateVersion_ge (h : SameFront header header') :
    68 + verifyCTLen header ≤ stateVersionOffset header' := by
  have hmeta := getIndexMetadataOffset_eq header'
  have htfa := tfaBlockOffset_ge header'
  have hfc := getFailCounterBlockOffset_ge header'
  have hsv := stateVersionOffset_ge header'
  have hwrapped : getFailCounterBlockOffset header' + 4 ≤ wrappedMekOffset header' := by
    rw [wrappedMekOffset]
    omega
  rw [h.verifyCTLen_eq] at hmeta
  omega

theorem SameFront.computeHeaderHMAC_eq (h : SameFront header header') :
    computeHeaderHMAC C header' hmacKey = computeHeaderHMAC C header hmacKey := by
  simp only [computeHeaderHMAC, slice, h.verifyCTLen_eq]
  rw [h.read (o := 10) (by omega), h.read (o := 42) (by omega), h.read (o := 66) (by omega),
    h.read (o := 68) (by omega)]

theorem SameFront.writeSlot (h : SameFront header header') {off : Nat}
    (hoff : 68 + verifyCTLen header ≤ off) (k : Nat) (slot : UInt8)
    (indexOffset indexLength : Nat) :
    SameFront header (writeSlot header' off k slot indexOffset indexLength) := by
  have hslot := h.store [slot] hoff
  have hoffset := hslot.store (leBytes 4 indexOffset) (hoff.trans (Nat.le_add_right _ k))
  exact hoffset.store _ (hoff.trans (Nat.le_add_right _ (k + 4)))

theorem commitVaultIndex_eq (C : WebCrypto) (header : Bytes) (hmacKey : ByteVec 32)
    (indexOffset indexLength : Nat) :
    ∃ g, SameFront header g ∧ commitVaultIndex C header hmacKey indexOffset indexLength
      = Js.set g (68 + verifyCTLen header) (computeHeaderHMAC C header hmacKey).toList := by
  have hmeta : 68 + verifyCTLen header ≤ getIndexMetadataOffset header := by
    rw [getIndexMetadataOffset_eq]
    omega
  have hflip : SameFront header (flipIndexSlot header indexOffset indexLength) := by
    rw [flipIndexSlot_eq]
    split
    · exact (SameFront.refl header).writeSlot hmeta 9 1 indexOffset indexLength
    · exact (SameFront.refl header).writeSlot hmeta 1 0 indexOffset indexLength
  have hcounter := hflip.bumpU64 (hmeta.trans (Nat.le_add_right _ 17))
  have hversion := hcounter.bumpU64 hcounter.stateVersion_ge
  refine ⟨_, hversion, ?_⟩
  rw [← hversion.computeHeaderHMAC_eq, ← hversion.verifyCTLen_eq]
  rfl

/-- **A commit gives every untruncated header a valid code.** -/
theorem commitVaultIndex_macValid (C : WebCrypto) (hmacKey : ByteVec 32)
    (hlong : 100 + verifyCTLen header ≤ header.length) (indexOffset indexLength : Nat) :
    ∃ header', commitVaultIndex C header hmacKey indexOffset indexLength = some header'
      ∧ MacValid C hmacKey header' := by
  obtain ⟨g, hg, hcommit⟩ := commitVaultIndex_eq C header hmacKey indexOffset indexLength
  have hlen : (computeHeaderHMAC C header hmacKey).toList.length = 32 := List.Vector.toList_length _
  have hin : 68 + verifyCTLen header + (computeHeaderHMAC C header hmacKey).toList.length
      ≤ g.length := by
    rw [hlen, hg.length]
    omega
  refine ⟨_, hcommit.trans (set_of_le hin), ?_⟩
  have hset := hg.store (computeHeaderHMAC C header hmacKey).toList (Nat.le_refl _)
  have hself := pread_store_self hin
  rw [hlen] at hself
  have hwidth : 100 + verifyCTLen header - (68 + verifyCTLen header) = 32 := by omega
  rw [MacValid, hset.computeHeaderHMAC_eq, hset.verifyCTLen_eq, slice, hwidth, hself]

/-! ## Truncated headers -/

theorem apply_truncated (C : WebCrypto) (hmacKey : ByteVec 32)
    (hshort : header.length < 100 + verifyCTLen header) (c : HeaderCall) :
    c.apply C hmacKey header = none := by
  -- the fail counter block lies behind the code
  have hcount : ∀ count, writeFailCounter C header hmacKey count = none := by
    intro count
    have hmeta := getIndexMetadataOffset_eq header
    have htfa := tfaBlockOffset_ge header
    have hfc := getFailCounterBlockOffset_ge header
    rw [writeFailCounter, Js.set, if_neg]
    rw [length_store]
    omega
  cases c with
  | commitVaultIndex indexOffset indexLength =>
    obtain ⟨g, hg, hcommit⟩ := commitVaultIndex_eq C header hmacKey indexOffset indexLength
    rw [HeaderCall.apply, hcommit, Js.set, if_neg]
    rw [List.Vector.toList_length, hg.length]
    omega
  | incrementFailCounter => exact hcount _
  | resetFailCounter => exact hcount 0

/-- Nothing is read behind the end: the Argon2 memory is zero, which no
unlock accepts. -/
theorem unlockVault_truncated (C : WebCrypto) (password : Bytes)
    (hshort : header.length < 100 + verifyCTLen header) :
    ∃ e, unlockVault C header password = .error e := by
  have hmeta := getIndexMetadataOffset_eq header
  have hmemory : (unlockFields header).memory = 0 := by
    have hnil : header.drop (getIndexMetadataOffset header + 25) = [] :=
      List.drop_eq_nil_of_le (by omega)
    show readLE 4 header (getIndexMetadataOffset header + 25) = 0
    rw [readLE, pread, hnil]
    rfl
  rw [unlockVault, UnlockFields.unlock]
  split
  · exact ⟨_, rfl⟩
  split
  · exact ⟨_, rfl⟩
  · rw [hmemory, validateWebArgon2Params, if_pos (.inl (by decide))]
    exact ⟨_, rfl⟩

/-- **Tampering is detected exactly in a header that ends before its code
does.** -/
theorem tamperDetected_iff (C : WebCrypto) (hmacKey : ByteVec 32) (header : Bytes) :
    TamperDetected C hmacKey header ↔ header.length < 100 + verifyCTLen header := by
  constructor
  · intro h
    by_contra hlong
    obtain ⟨header', hcommit, hvalid⟩ :=
      commitVaultIndex_macValid C hmacKey (Nat.le_of_not_lt hlong) 0 0
    exact h.calls (.commitVaultIndex 0 0) header' hcommit hvalid
  · intro hshort
    refine ⟨fun password => ?_, fun c header' hcall => ?_⟩
    · obtain ⟨e, he⟩ := unlockVault_truncated C password hshort
      exact ⟨e, by rw [unlockAndCount, he]; rfl⟩
    · rw [apply_truncated C hmacKey hshort c] at hcall
      cases hcall

/-! ## What an unlock does not see -/

/-- A range of the index slots, the counters or the fail counter. -/
def Uncovered (header : Bytes) (off n : Nat) : Prop :=
  getIndexMetadataOffset header ≤ off ∧ off + n ≤ getIndexMetadataOffset header + 25
    ∨ getFailCounterBlockOffset header + 4 ≤ off
      ∧ off + n ≤ getFailCounterBlockOffset header + 40
    ∨ stateVersionOffset header ≤ off ∧ off + n ≤ stateVersionOffset header + 8

/-- **A change of the slot, the pointers, the counters or the fail counter
opens to the same keys under the same code.** -/
theorem unlock_of_uncovered (hw : WebHeader header) {off : Nat} {bs : Bytes}
    (h : Uncovered header off bs.length) (password : Bytes) :
    unlockVault C (store header off bs) password = unlockVault C header password
      ∧ (MacValid C hmacKey (store header off bs) ↔ MacValid C hmacKey header) := by
  obtain ⟨hmeta, htfa, hfc, hwrapped, hsv, hend⟩ := hw.offsets
  rw [Uncovered] at h
  have hsame : SameFields header (store header off bs) :=
    sameFields_store hw (by rw [Free]; omega)
  have hfront : SameFront header (store header off bs) := (SameFront.refl header).store bs (by omega)
  refine ⟨hsame.unlock_eq hw C password, ?_⟩
  have hcode : pread (store header off bs) (68 + verifyCTLen header)
      (100 + verifyCTLen header - (68 + verifyCTLen header))
      = pread header (68 + verifyCTLen header)
        (100 + verifyCTLen header - (68 + verifyCTLen header)) :=
    pread_store_before (by omega)
  rw [MacValid, MacValid, hfront.verifyCTLen_eq, hfront.computeHeaderHMAC_eq, slice, slice, hcode]

/-- The other slot named active in a new header: it opens all the same. -/
theorem flippedSlot_undetected :
    ∃ created, createVaultHeader transparentCrypto samplePassword 3 sampleRandom
        = some (created, sampleKeys)
      ∧ created[getIndexMetadataOffset created]? = some 0
      ∧ (store created (getIndexMetadataOffset created) [1])[getIndexMetadataOffset created]?
        = some 1
      ∧ unlockVault transparentCrypto (store created (getIndexMetadataOffset created) [1])
          samplePassword = .ok sampleKeys
      ∧ ¬ TamperDetected transparentCrypto sampleKeys.hmacKey
          (store created (getIndexMetadataOffset created) [1]) := by
  have hC := transparentAead_correct 12
  obtain ⟨created, hcreate⟩ := sampleHeader_created
  obtain ⟨hgood, -⟩ := createVaultHeader_good hC hcreate
  obtain ⟨hmeta, htfa, hfc, hwrapped, hsv, hend⟩ := hgood.web.offsets
  have hfits : getIndexMetadataOffset created + ([1] : Bytes).length ≤ created.length := by
    rw [List.length_singleton]
    omega
  have hopens : unlockVault transparentCrypto (store created (getIndexMetadataOffset created) [1])
      samplePassword = .ok sampleKeys := by
    rw [← hgood.opens]
    refine (sameFields_store hgood.web (.inl ?_)).unlock_eq hgood.web _ _
    rw [List.length_singleton]
    omega
  refine ⟨created, hcreate, ?_, ?_, hopens, fun h => ?_⟩
  · obtain ⟨p, rfl⟩ := createVaultHeader_parts hC hcreate
    have hread : pread p.header 139 1 = [0] :=
      pread_filled 9 rfl (by simp [HeaderParts.blocks, HeaderParts.magic_length]) rfl
    rw [p.metadata_eq, getElem?_eq_pread, hread]
    rfl
  · rw [getElem?_eq_pread, ← List.length_singleton (a := (1 : UInt8)), pread_store_self hfits]
    rfl
  · obtain ⟨e, he⟩ := h.unlock samplePassword
    rw [unlockAndCount, hopens] at he
    cases he

end UsbVault.App
