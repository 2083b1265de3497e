import UsbVault.App.WebHeader

/-!
# What header writes leave alone

A well-formed header keeps every block inside its 24576 bytes, with a
fail counter block of the size the module writes. On such a header a
commit and a fail counter change leave every byte an unlock reads as it
was (`SameFields`), and a commit makes its index the active one
(`commitVaultIndex_spec`).
-/

namespace UsbVault.App

open Wire Js Companion

/-- A header as the web module lays it out. -/
structure WebHeader (header : Bytes) : Prop where
  length : header.length = HEADER_SIZE
  magic : slice header 0 8 = VAULT_MAGIC
  counterBlock : readLE 4 header (getFailCounterBlockOffset header) = 36
  fits : stateVersionOffset header + 8 ≤ HEADER_SIZE

/-- The two headers agree on the verify fields, on the blocks from the
Argon2 parameters to the fail counter, and on the wrapped MEK. -/
structure SameFields (header header' : Bytes) : Prop where
  length : header'.length = header.length
  front : pread header' 0 (68 + verifyCTLen header) = pread header 0 (68 + verifyCTLen header)
  middle : pread header' (getIndexMetadataOffset header + 25)
      (getFailCounterBlockOffset header + 4 - (getIndexMetadataOffset header + 25))
    = pread header (getIndexMetadataOffset header + 25)
      (getFailCounterBlockOffset header + 4 - (getIndexMetadataOffset header + 25))
  back : pread header' (getFailCounterBlockOffset header + 40)
      (stateVersionOffset header - (getFailCounterBlockOffset header + 40))
    = pread header (getFailCounterBlockOffset header + 40)
      (stateVersionOffset header - (getFailCounterBlockOffset header + 40))

variable {C : WebCrypto} {header header' header'' : Bytes}

/-! ## The order of the blocks -/

theorem getIndexMetadataOffset_eq (header : Bytes) :
    getIndexMetadataOffset header = 100 + verifyCTLen header := by
  rw [getIndexMetadataOffset]
  omega

theorem tfaBlockOffset_ge (header : Bytes) :
    getIndexMetadataOffset header + 38 ≤ tfaBlockOffset header := by
  rw [tfaBlockOffset]
  omega

theorem getFailCounterBlockOffset_ge (header : Bytes) :
    tfaBlockOffset header + 4 ≤ getFailCounterBlockOffset header := by
  rw [getFailCounterBlockOffset]
  omega

theorem WebHeader.wrappedMekOffset_eq (h : WebHeader header) :
    wrappedMekOffset header = getFailCounterBlockOffset header + 40 := by
  rw [wrappedMekOffset, h.counterBlock]

theorem stateVersionOffset_ge (header : Bytes) :
    wrappedMekOffset header + 4 ≤ stateVersionOffset header := by
  rw [stateVersionOffset]
  omega

theorem WebHeader.offsets (h : WebHeader header) :
    getIndexMetadataOffset header = 100 + verifyCTLen header
      ∧ getIndexMetadataOffset header + 38 ≤ tfaBlockOffset header
      ∧ tfaBlockOffset header + 4 ≤ getFailCounterBlockOffset header
      ∧ wrappedMekOffset header = getFailCounterBlockOffset header + 40
      ∧ wrappedMekOffset header + 4 ≤ stateVersionOffset header
      ∧ stateVersionOffset header + 8 ≤ header.length :=
  ⟨getIndexMetadataOffset_eq header, tfaBlockOffset_ge header,
    getFailCounterBlockOffset_ge header, h.wrappedMekOffset_eq,
    stateVersionOffset_ge header, by rw [h.length]; exact h.fits⟩

/-! ## Reading the same fields -/

section SameFields

variable (h : SameFields header header')

include h

theorem SameFields.read_front {o n : Nat} (hn : o + n ≤ 68 + verifyCTLen header) :
    pread header' o n = pread header o n :=
  pread_congr_range h.front (Nat.zero_le _) (by omega)

theorem SameFields.verifyCTLen_eq : verifyCTLen header' = verifyCTLen header := by
  rw [verifyCTLen, verifyCTLen, readLE, readLE, h.read_front (by omega)]

theorem SameFields.metadata_eq :
    getIndexMetadataOffset header' = getIndexMetadataOffset header := by
  rw [getIndexMetadataOffset, getIndexMetadataOffset, h.verifyCTLen_eq]

theorem SameFields.read_middle {o n : Nat} (ho : getIndexMetadataOffset header + 25 ≤ o)
    (hn : o + n ≤ getFailCounterBlockOffset header + 4) :
    pread header' o n = pread header o n :=
  pread_congr_range h.middle ho (by omega)

theorem SameFields.tfa_eq : tfaBlockOffset header' = tfaBlockOffset header := by
  have htfa := tfaBlockOffset_ge header
  have hfc := getFailCounterBlockOffset_ge header
  rw [tfaBlockOffset, tfaBlockOffset, h.metadata_eq, readLE, readLE,
    h.read_middle (by omega) (by omega)]

theorem SameFields.counter_eq :
    getFailCounterBlockOffset header' = getFailCounterBlockOffset header := by
  have htfa := tfaBlockOffset_ge header
  have hfc := getFailCounterBlockOffset_ge header
  rw [getFailCounterBlockOffset, getFailCounterBlockOffset, h.tfa_eq, readLE, readLE,
    h.read_middle (by omega) (by omega)]

theorem SameFields.counterLen_eq :
    readLE 4 header' (getFailCounterBlockOffset header)
      = readLE 4 header (getFailCounterBlockOffset header) := by
  have htfa := tfaBlockOffset_ge header
  have hfc := getFailCounterBlockOffset_ge header
  rw [readLE, readLE, h.read_middle (by omega) (by omega)]

theorem SameFields.wrapped_eq : wrappedMekOffset header' = wrappedMekOffset header := by
  rw [wrappedMekOffset, wrappedMekOffset, h.counter_eq, h.counterLen_eq]

variable (hw : WebHeader header)

include hw

theorem SameFields.read_back {o n : Nat} (ho : wrappedMekOffset header ≤ o)
    (hn : o + n ≤ stateVersionOffset header) : pread header' o n = pread header o n := by
  have hoff := hw.wrappedMekOffset_eq
  exact pread_congr_range h.back (by omega) (by omega)

theorem SameFields.stateVersion_eq :
    stateVersionOffset header' = stateVersionOffset header := by
  have hge := stateVersionOffset_ge header
  rw [stateVersionOffset, stateVersionOffset, h.wrapped_eq, readLE, readLE,
    h.read_back hw (Nat.le_refl _) (by omega)]

theorem SameFields.webHeader : WebHeader header' where
  length := by rw [h.length, hw.length]
  magic := by
    have hread := h.read_front (show 0 + 8 ≤ 68 + verifyCTLen header by omega)
    have hmagic := hw.magic
    rw [slice, Nat.sub_zero] at hmagic ⊢
    rw [hread, hmagic]
  counterBlock := by rw [h.counter_eq, h.counterLen_eq, hw.counterBlock]
  fits := by rw [h.stateVersion_eq hw]; exact hw.fits

/-- **The same fields unlock alike.** -/
theorem SameFields.unlock_eq (C : WebCrypto) (password : Bytes) :
    unlockVault C header' password = unlockVault C header password := by
  obtain ⟨hmeta, htfa, hfc, hwrapped, hsv, hend⟩ := hw.offsets
  have hfields : unlockFields header' = unlockFields header := by
    simp only [unlockFields, slice, readLE, h.metadata_eq, h.verifyCTLen_eq, h.wrapped_eq,
      h.stateVersion_eq hw]
    rw [h.read_front (o := 0) (by omega), h.read_front (o := 8) (by omega),
      h.read_front (o := 10) (by omega), h.read_front (o := 42) (by omega),
      h.read_front (o := 68) (by omega),
      h.read_middle (o := getIndexMetadataOffset header + 25) (by omega) (by omega),
      h.read_middle (o := getIndexMetadataOffset header + 29) (by omega) (by omega),
      h.read_middle (o := getIndexMetadataOffset header + 33) (by omega) (by omega),
      h.read_back hw (o := wrappedMekOffset header + 4) (by omega) (by omega),
      h.read_back hw (o := wrappedMekOffset header) (by omega) (by omega)]
  rw [unlockVault, unlockVault, hfields]

end SameFields

theorem SameFields.refl (header : Bytes) : SameFields header header :=
  ⟨rfl, rfl, rfl, rfl⟩

theorem SameFields.trans (hw : WebHeader header) (h : SameFields header header')
    (h' : SameFields header' header'') : SameFields header header'' where
  length := h'.length.trans h.length
  front := by
    have hfront := h'.front
    rw [h.verifyCTLen_eq] at hfront
    exact hfront.trans h.front
  middle := by
    have hmiddle := h'.middle
    rw [h.metadata_eq, h.counter_eq] at hmiddle
    exact hmiddle.trans h.middle
  back := by
    have hback := h'.back
    rw [h.counter_eq, h.stateVersion_eq hw] at hback
    exact hback.trans h.back

/-! ## Writes outside the fields -/

/-- A range no unlock reads: the header code and the index metadata, the
fail counter and its code, or the end of the header. -/
def Free (header : Bytes) (off n : Nat) : Prop :=
  68 + verifyCTLen header ≤ off ∧ off + n ≤ getIndexMetadataOffset header + 25
    ∨ getFailCounterBlockOffset header + 4 ≤ off
      ∧ off + n ≤ getFailCounterBlockOffset header + 40
    ∨ stateVersionOffset header ≤ off ∧ off + n ≤ header.length

theorem Free.le_length (hw : WebHeader header) {off n : Nat} (h : Free header off n) :
    off + n ≤ header.length := by
  obtain ⟨hmeta, htfa, hfc, hwrapped, hsv, hend⟩ := hw.offsets
  rw [Free] at h
  omega

theorem sameFields_store (hw : WebHeader header) {off : Nat} {bs : Bytes}
    (h : Free header off bs.length) : SameFields header (store header off bs) := by
  obtain ⟨hmeta, htfa, hfc, hwrapped, hsv, hend⟩ := hw.offsets
  have hin := h.le_length hw
  rw [Free] at h
  exact {
    length := store_length hin
    front := pread_store_disjoint hin (by omega)
    middle := pread_store_disjoint hin (by omega)
    back := pread_store_disjoint hin (by omega) }

theorem SameFields.store (hw : WebHeader header) (h : SameFields header header')
    {off : Nat} {bs : Bytes} (hfree : Free header off bs.length) :
    SameFields header (store header' off bs) := by
  refine h.trans hw (sameFields_store (h.webHeader hw) ?_)
  rw [Free, h.verifyCTLen_eq, h.metadata_eq, h.counter_eq, h.stateVersion_eq hw, h.length]
  exact hfree

/-! ## The fail counter -/

theorem getElem?_eq_pread (f : Bytes) (o : Nat) : f[o]? = (pread f o 1)[0]? := by
  rw [pread, List.getElem?_take_of_lt (by omega), List.getElem?_drop, Nat.add_zero]

/-- The pointers depend on the first 17 bytes of the index metadata. -/
theorem activePointers_congr (h : SameFields header header')
    (hmeta : pread header' (getIndexMetadataOffset header) 17
      = pread header (getIndexMetadataOffset header) 17) :
    activePointers header' = activePointers header := by
  have hread : ∀ {o n : Nat}, getIndexMetadataOffset header ≤ o →
      o + n ≤ getIndexMetadataOffset header + 17 →
      pread header' o n = pread header o n := fun ho hn =>
    pread_congr_range hmeta ho hn
  have hslot : header'[getIndexMetadataOffset header]?
      = header[getIndexMetadataOffset header]? := by
    rw [getElem?_eq_pread, getElem?_eq_pread header, hread (Nat.le_refl _) (by omega)]
  simp only [activePointers, h.metadata_eq, hslot, readLE]
  rw [hread (o := getIndexMetadataOffset header + 1) (by omega) (by omega),
    hread (o := getIndexMetadataOffset header + 5) (by omega) (by omega),
    hread (o := getIndexMetadataOffset header + 9) (by omega) (by omega),
    hread (o := getIndexMetadataOffset header + 13) (by omega) (by omega)]

/-- **A fail counter change succeeds** and leaves the fields and the index
pointers alone. -/
theorem writeFailCounter_spec (hw : WebHeader header) (hmacKey : ByteVec 32) (count : Nat) :
    ∃ header', writeFailCounter C header hmacKey count = some header'
      ∧ SameFields header header' ∧ activePointers header' = activePointers header := by
  obtain ⟨hmeta, htfa, hfc, hwrapped, hsv, hend⟩ := hw.offsets
  have hlen : (computeFailCounterHMAC C count hmacKey).toList.length = 32 :=
    List.Vector.toList_length _
  have hcount : Free header (getFailCounterBlockOffset header + 4) (leBytes 4 count).length := by
    rw [leBytes_length, Free]
    omega
  have hcode : Free header (getFailCounterBlockOffset header + 8)
      (computeFailCounterHMAC C count hmacKey).toList.length := by
    rw [hlen, Free]
    omega
  have hfirst := sameFields_store hw hcount
  have hboth := hfirst.store hw hcode
  have hin : getFailCounterBlockOffset header + 8
      + (computeFailCounterHMAC C count hmacKey).toList.length
      ≤ (Js.store header (getFailCounterBlockOffset header + 4) (leBytes 4 count)).length := by
    rw [hfirst.length]
    exact hcode.le_length hw
  refine ⟨_, by rw [writeFailCounter]; exact set_of_le hin, hboth, ?_⟩
  apply activePointers_congr hboth
  rw [pread_store_disjoint hin (by omega),
    pread_store_disjoint (hcount.le_length hw) (by omega)]

/-! ## The commit -/

/-- The three writes of a flip: the slot byte, and the pointers `k` bytes
behind it. -/
def writeSlot (header : Bytes) (off k : Nat) (slot : UInt8) (indexOffset indexLength : Nat) :
    Bytes :=
  store (store (store header off [slot]) (off + k) (leBytes 4 indexOffset)) (off + (k + 4))
    (leBytes 4 indexLength)

theorem flipIndexSlot_eq (header : Bytes) (indexOffset indexLength : Nat) :
    flipIndexSlot header indexOffset indexLength
      = if header[getIndexMetadataOffset header]? = some 0 then
          writeSlot header (getIndexMetadataOffset header) 9 1 indexOffset indexLength
        else writeSlot header (getIndexMetadataOffset header) 1 0 indexOffset indexLength := rfl

/-- A flip's writes inside the first 17 bytes of the index metadata. -/
theorem sameFields_writeSlot (hw : WebHeader header) {k : Nat} (hk : k ≤ 9) (slot : UInt8)
    (indexOffset indexLength : Nat) :
    SameFields header
      (writeSlot header (getIndexMetadataOffset header) k slot indexOffset indexLength) := by
  obtain ⟨hmeta, htfa, hfc, hwrapped, hsv, hend⟩ := hw.offsets
  have hfree : ∀ j (bs : Bytes), j + bs.length ≤ 17 →
      Free header (getIndexMetadataOffset header + j) bs.length := by
    intro j bs hj
    rw [Free]
    omega
  have h4 : ∀ v : Nat, (leBytes 4 v).length = 4 := leBytes_length 4
  have hflip := sameFields_store hw (hfree 0 [slot] (by simp))
  have hoff := hflip.store hw (hfree k (leBytes 4 indexOffset) (by rw [h4]; omega))
  exact hoff.store hw (hfree (k + 4) (leBytes 4 indexLength) (by rw [h4]; omega))

theorem flipIndexSlot_sameFields (hw : WebHeader header) (indexOffset indexLength : Nat) :
    SameFields header (flipIndexSlot header indexOffset indexLength) := by
  rw [flipIndexSlot_eq]
  split
  · exact sameFields_writeSlot hw (by omega) 1 indexOffset indexLength
  · exact sameFields_writeSlot hw (by omega) 0 indexOffset indexLength

section WriteSlot

variable {off k : Nat} (slot : UInt8) (hin : off + k + 8 ≤ header.length)

include hin

theorem writeSlot_fits (indexOffset : Nat) :
    off + [slot].length ≤ header.length
      ∧ off + k + 4 ≤ (store header off [slot]).length
      ∧ off + (k + 4) + 4
        ≤ (store (store header off [slot]) (off + k) (leBytes 4 indexOffset)).length := by
  simp only [length_store, List.length_singleton]
  omega

/-- The writes touch the slot byte and the eight bytes of the pointers. -/
theorem writeSlot_frame (indexOffset indexLength : Nat) {o n : Nat}
    (hslot : o + n ≤ off ∨ off + 1 ≤ o) (hpointers : o + n ≤ off + k ∨ off + k + 8 ≤ o) :
    pread (writeSlot header off k slot indexOffset indexLength) o n = pread header o n := by
  obtain ⟨hone, htwo, hthree⟩ := writeSlot_fits slot hin indexOffset
  have h4 : ∀ v : Nat, (leBytes 4 v).length = 4 := leBytes_length 4
  rw [writeSlot, pread_store_disjoint (by rw [h4]; exact hthree) (by rw [h4]; omega),
    pread_store_disjoint (by rw [h4]; exact htwo) (by rw [h4]; omega),
    pread_store_disjoint hone (by rw [List.length_singleton]; omega)]

theorem writeSlot_slot (hk : 1 ≤ k) (indexOffset indexLength : Nat) :
    (writeSlot header off k slot indexOffset indexLength)[off]? = some slot := by
  obtain ⟨hone, htwo, hthree⟩ := writeSlot_fits slot hin indexOffset
  have h4 : ∀ v : Nat, (leBytes 4 v).length = 4 := leBytes_length 4
  have hself : pread (store header off [slot]) off 1 = [slot] := pread_store_self hone
  rw [getElem?_eq_pread, writeSlot,
    pread_store_disjoint (by rw [h4]; exact hthree) (by omega),
    pread_store_disjoint (by rw [h4]; exact htwo) (by omega), hself]
  rfl

theorem readLE_writeSlot {indexOffset indexLength : Nat} (hoffset : indexOffset < 2 ^ 32)
    (hlength : indexLength < 2 ^ 32) :
    readLE 4 (writeSlot header off k slot indexOffset indexLength) (off + k) = indexOffset
      ∧ readLE 4 (writeSlot header off k slot indexOffset indexLength) (off + (k + 4))
        = indexLength := by
  obtain ⟨hone, htwo, hthree⟩ := writeSlot_fits slot hin indexOffset
  constructor
  · rw [writeSlot, readLE,
      pread_store_disjoint (by rw [leBytes_length]; exact hthree) (by omega)]
    exact readLE_store htwo hoffset
  · exact readLE_store hthree hlength

end WriteSlot

/-- **The flip makes its index the active one.** -/
theorem activePointers_flipIndexSlot (hw : WebHeader header) {indexOffset indexLength : Nat}
    (hoffset : indexOffset < 2 ^ 32) (hlength : indexLength < 2 ^ 32) :
    activePointers (flipIndexSlot header indexOffset indexLength)
      = (indexOffset, indexLength) := by
  obtain ⟨hmeta, htfa, hfc, hwrapped, hsv, hend⟩ := hw.offsets
  have hfields := flipIndexSlot_sameFields hw indexOffset indexLength
  rw [activePointers, hfields.metadata_eq, flipIndexSlot_eq]
  by_cases hslot : header[getIndexMetadataOffset header]? = some 0
  · have hin : getIndexMetadataOffset header + 9 + 8 ≤ header.length := by omega
    obtain ⟨hoff, hlen⟩ := readLE_writeSlot 1 hin hoffset hlength
    rw [if_pos hslot]
    simp only [writeSlot_slot 1 hin (by omega), hoff, hlen]
    rfl
  · have hin : getIndexMetadataOffset header + 1 + 8 ≤ header.length := by omega
    obtain ⟨hoff, hlen⟩ := readLE_writeSlot 0 hin hoffset hlength
    rw [if_neg hslot]
    simp only [writeSlot_slot 0 hin (by omega), hoff, hlen]
    rfl

/-- The flip touches the first 17 bytes of the index metadata only. -/
theorem flipIndexSlot_frame (hw : WebHeader header) (indexOffset indexLength : Nat) {o n : Nat}
    (hd : o + n ≤ getIndexMetadataOffset header ∨ getIndexMetadataOffset header + 17 ≤ o) :
    pread (flipIndexSlot header indexOffset indexLength) o n = pread header o n := by
  obtain ⟨hmeta, htfa, hfc, hwrapped, hsv, hend⟩ := hw.offsets
  rw [flipIndexSlot_eq]
  split
  · exact writeSlot_frame 1 (by omega) indexOffset indexLength (by omega) (by omega)
  · exact writeSlot_frame 0 (by omega) indexOffset indexLength (by omega) (by omega)

/-- What a commit makes of a header, step by step: the flip, the two
counters, the header code. -/
structure CommitSteps (C : WebCrypto) (header : Bytes) (hmacKey : ByteVec 32)
    (indexOffset indexLength : Nat) (g g₂ g₃ header' : Bytes) : Prop where
  flip : g = flipIndexSlot header indexOffset indexLength
  counter : g₂ = bumpU64 g (getIndexMetadataOffset header + 17)
  version : g₃ = bumpU64 g₂ (stateVersionOffset header)
  code : header' = store g₃ (68 + verifyCTLen header) (computeHeaderHMAC C g₃ hmacKey).toList
  same : SameFields header g
  same₂ : SameFields header g₂
  same₃ : SameFields header g₃
  same' : SameFields header header'

/-- **A commit succeeds**, and none of its writes reaches the fields. -/
theorem commitVaultIndex_steps (hw : WebHeader header) (hmacKey : ByteVec 32)
    (indexOffset indexLength : Nat) :
    ∃ g g₂ g₃ header',
      commitVaultIndex C header hmacKey indexOffset indexLength = some header'
        ∧ CommitSteps C header hmacKey indexOffset indexLength g g₂ g₃ header' := by
  obtain ⟨hmeta, htfa, hfc, hwrapped, hsv, hend⟩ := hw.offsets
  have h8 : ∀ v : Nat, (leBytes 8 v).length = 8 := leBytes_length 8
  have hflip := flipIndexSlot_sameFields hw indexOffset indexLength
  have hsame₂ : SameFields header (bumpU64 (flipIndexSlot header indexOffset indexLength)
      (getIndexMetadataOffset header + 17)) := hflip.store hw (by rw [h8, Free]; omega)
  have hsame₃ : SameFields header (bumpU64 (bumpU64 (flipIndexSlot header indexOffset indexLength)
      (getIndexMetadataOffset header + 17)) (stateVersionOffset header)) :=
    hsame₂.store hw (by rw [h8, Free]; omega)
  rw [commitVaultIndex, hsame₂.stateVersion_eq hw, hsame₃.verifyCTLen_eq]
  have hlen : ∀ g, (computeHeaderHMAC C g hmacKey).toList.length = 32 := fun _ =>
    List.Vector.toList_length _
  have hfree : ∀ g, Free header (68 + verifyCTLen header)
      (computeHeaderHMAC C g hmacKey).toList.length := by
    intro g
    rw [hlen, Free]
    omega
  have hin : ∀ g g', SameFields header g →
      68 + verifyCTLen header + (computeHeaderHMAC C g' hmacKey).toList.length ≤ g.length :=
    fun g g' hg => hg.length ▸ (hfree g').le_length hw
  exact ⟨_, _, _, _, set_of_le (hin _ _ hsame₃), rfl, rfl, rfl, rfl, hflip, hsame₂, hsame₃,
    hsame₃.store hw (hfree _)⟩

/-- A commit writes the code and the front of the index metadata, and the
state version. -/
theorem CommitSteps.frame (hw : WebHeader header) {hmacKey : ByteVec 32}
    {indexOffset indexLength : Nat} {g g₂ g₃ : Bytes}
    (h : CommitSteps C header hmacKey indexOffset indexLength g g₂ g₃ header') {o n : Nat}
    (hcode : o + n ≤ 68 + verifyCTLen header ∨ 100 + verifyCTLen header ≤ o)
    (hfront : o + n ≤ getIndexMetadataOffset header ∨ getIndexMetadataOffset header + 25 ≤ o)
    (hback : o + n ≤ stateVersionOffset header ∨ stateVersionOffset header + 8 ≤ o) :
    pread header' o n = pread header o n := by
  obtain ⟨hmeta, htfa, hfc, hwrapped, hsv, hend⟩ := hw.offsets
  have h8 : ∀ v : Nat, (leBytes 8 v).length = 8 := leBytes_length 8
  have hlen : (computeHeaderHMAC C g₃ hmacKey).toList.length = 32 := List.Vector.toList_length _
  rw [h.code, pread_store_disjoint (by rw [hlen, h.same₃.length]; omega) (by rw [hlen]; omega),
    h.version, bumpU64, pread_store_disjoint (by rw [h8, h.same₂.length]; omega) (by rw [h8]; omega),
    h.counter, bumpU64, pread_store_disjoint (by rw [h8, h.same.length]; omega) (by rw [h8]; omega),
    h.flip, flipIndexSlot_frame hw indexOffset indexLength (by omega)]

/-- **A commit succeeds**, keeps the fields an unlock reads, and makes its
index the active one. -/
theorem commitVaultIndex_spec (hw : WebHeader header) (hmacKey : ByteVec 32)
    {indexOffset indexLength : Nat} (hoffset : indexOffset < 2 ^ 32)
    (hlength : indexLength < 2 ^ 32) :
    ∃ header', commitVaultIndex C header hmacKey indexOffset indexLength = some header'
      ∧ SameFields header header'
      ∧ activePointers header' = (indexOffset, indexLength) := by
  obtain ⟨hmeta, htfa, hfc, hwrapped, hsv, hend⟩ := hw.offsets
  have h8 : ∀ v : Nat, (leBytes 8 v).length = 8 := leBytes_length 8
  obtain ⟨g, g₂, g₃, header', hcommit, h⟩ :=
    commitVaultIndex_steps (C := C) hw hmacKey indexOffset indexLength
  have hlen : (computeHeaderHMAC C g₃ hmacKey).toList.length = 32 := List.Vector.toList_length _
  refine ⟨header', hcommit, h.same', ?_⟩
  rw [← activePointers_flipIndexSlot hw hoffset hlength, ← h.flip]
  -- what follows the flip stays clear of the pointers
  have hsame : SameFields g header' := by
    refine ⟨h.same'.length.trans h.same.length.symm, ?_, ?_, ?_⟩
    · rw [h.same.verifyCTLen_eq, h.same'.front, h.same.front]
    · rw [h.same.metadata_eq, h.same.counter_eq, h.same'.middle, h.same.middle]
    · rw [h.same.counter_eq, h.same.stateVersion_eq hw, h.same'.back, h.same.back]
  apply activePointers_congr hsame
  rw [h.same.metadata_eq, h.code,
    pread_store_disjoint (by rw [hlen, h.same₃.length]; omega) (by rw [hlen]; omega),
    h.version, bumpU64, pread_store_disjoint (by rw [h8, h.same₂.length]; omega) (by rw [h8]; omega),
    h.counter, bumpU64, pread_store_disjoint (by rw [h8, h.same.length]; omega) (by rw [h8]; omega)]

end UsbVault.App
