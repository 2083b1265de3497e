import UsbVault.App.Provision
import UsbVault.Lib.Run

/-!
# Header maintenance

Commits and fail counter changes on one header, any number in any order.
A ledger says what the calls amount to: the last index committed, the
commits, and the failures since the last reset. The header keeps the
ledger in fixed-width fields: pointers and failures modulo `2^32`, the
two counters up to `2^53` (`Records`). It therefore reports the ledger
faithfully exactly as long as the numbers fit (`reports_iff`).
-/

namespace UsbVault.App

open Wire Js Companion

/-! ## Calls -/

/-- The calls that change a header, with the vault's HMAC key. -/
inductive HeaderCall
  | commitVaultIndex (indexOffset indexLength : Nat)
  | incrementFailCounter
  | resetFailCounter
  deriving DecidableEq, Repr

def HeaderCall.apply (C : WebCrypto) (hmacKey : ByteVec 32) (header : Bytes) :
    HeaderCall → Option Bytes
  | .commitVaultIndex indexOffset indexLength =>
    App.commitVaultIndex C header hmacKey indexOffset indexLength
  | .incrementFailCounter => App.incrementFailCounter C header hmacKey
  | .resetFailCounter => App.resetFailCounter C header hmacKey

/-- The calls one after another. -/
def maintain (C : WebCrypto) (hmacKey : ByteVec 32) (calls : List HeaderCall) (header : Bytes) :
    Option Bytes :=
  Run.steps (HeaderCall.apply C hmacKey) calls header

/-- What calls amount to: the last index committed, the commits, and the
failures since the last reset. -/
structure Ledger where
  last : Option (Nat × Nat)
  commits : Nat
  fails : Nat
  deriving DecidableEq, Repr

def Ledger.add (l : Ledger) : HeaderCall → Ledger
  | .commitVaultIndex indexOffset indexLength =>
    { l with last := some (indexOffset, indexLength), commits := l.commits + 1 }
  | .incrementFailCounter => { l with fails := l.fails + 1 }
  | .resetFailCounter => { l with fails := 0 }

def ledger (calls : List HeaderCall) : Ledger := calls.foldl Ledger.add ⟨none, 0, 0⟩

/-! ## What a header records -/

def commitCounter (header : Bytes) : Nat := readLE 8 header (getIndexMetadataOffset header + 17)

def stateVersion (header : Bytes) : Nat := readLE 8 header (stateVersionOffset header)

/-- A 64-bit counter after one more commit. -/
def bumped (n : Nat) : Nat := number (number n + 1)

/-- A counter that is a double stops at `2^53`. -/
theorem bumped_eq {n : Nat} (h : n ≤ 2 ^ 53) : bumped n = min (n + 1) (2 ^ 53) := by
  have hover : number (2 ^ 53 + 1) = 2 ^ 53 := by decide
  rw [bumped, number_of_le h]
  rcases Nat.lt_or_eq_of_le h with hlt | rfl
  · rw [Nat.min_eq_left hlt, number_of_le hlt]
  · rw [hover]
    rfl

/-- The fields of the header hold the ledger, as far as they can. -/
structure Records (header : Bytes) (l : Ledger) : Prop where
  web : WebHeader header
  pointers : ∀ p, l.last = some p → activePointers header = (p.1 % 2 ^ 32, p.2 % 2 ^ 32)
  commits : commitCounter header = min l.commits (2 ^ 53)
  version : stateVersion header = min (l.commits + 1) (2 ^ 53)
  fails : readFailCounter header = l.fails % 2 ^ 32

variable {C : WebCrypto} {header header' : Bytes} {hmacKey : ByteVec 32}

theorem readFailCounter_eq (hw : WebHeader header) :
    readFailCounter header = readLE 4 header (getFailCounterBlockOffset header + 4) := by
  rw [readFailCounter, hw.counterBlock, if_neg (by decide)]

/-! ## One call -/

theorem readLE_bumpU64 {off : Nat} (h : off + 8 ≤ header.length)
    (hsmall : readLE 8 header off ≤ 2 ^ 53) :
    readLE 8 (bumpU64 header off) off = min (readLE 8 header off + 1) (2 ^ 53) := by
  have hbump := bumped_eq hsmall
  rw [bumped] at hbump
  rw [bumpU64, hbump]
  exact readLE_store h (by omega)

theorem commitVaultIndex_mod (header : Bytes) (hmacKey : ByteVec 32) (indexOffset indexLength : Nat) :
    commitVaultIndex C header hmacKey indexOffset indexLength
      = commitVaultIndex C header hmacKey (indexOffset % 2 ^ 32) (indexLength % 2 ^ 32) := by
  have hmod : ∀ v, leBytes 4 (v % 2 ^ 32) = leBytes 4 v := fun v => leBytes_mod 4 v
  simp only [commitVaultIndex, flipIndexSlot, hmod]

theorem commitVaultIndex_counters (hw : WebHeader header) {indexOffset indexLength : Nat}
    (h : commitVaultIndex C header hmacKey indexOffset indexLength = some header')
    (hcommits : commitCounter header ≤ 2 ^ 53) (hversion : stateVersion header ≤ 2 ^ 53) :
    commitCounter header' = min (commitCounter header + 1) (2 ^ 53)
      ∧ stateVersion header' = min (stateVersion header + 1) (2 ^ 53)
      ∧ readFailCounter header' = readFailCounter header := by
  obtain ⟨hmeta, htfa, hfc, hwrapped, hsv, hend⟩ := hw.offsets
  obtain ⟨g, g₂, g₃, _, hcommit, hs⟩ :=
    commitVaultIndex_steps (C := C) hw hmacKey indexOffset indexLength
  rw [hcommit] at h
  cases h
  have h8 : ∀ v : Nat, (leBytes 8 v).length = 8 := leBytes_length 8
  have hlen : (computeHeaderHMAC C g₃ hmacKey).toList.length = 32 := List.Vector.toList_length _
  have hcode : 68 + verifyCTLen header + (computeHeaderHMAC C g₃ hmacKey).toList.length
      ≤ g₃.length := by
    rw [hlen, hs.same₃.length]
    omega
  refine ⟨?_, ?_, ?_⟩
  · -- written second, and by nothing after it
    have hflip : readLE 8 g (getIndexMetadataOffset header + 17) = commitCounter header := by
      rw [hs.flip, readLE, flipIndexSlot_frame hw indexOffset indexLength (by omega)]
      rfl
    have hbump := @readLE_bumpU64 g (getIndexMetadataOffset header + 17)
      (by rw [hs.same.length]; omega) (by rw [hflip]; exact hcommits)
    rw [hflip, ← hs.counter] at hbump
    rw [commitCounter, hs.same'.metadata_eq, ← hbump, hs.code, readLE, readLE,
      pread_store_disjoint hcode (by rw [hlen]; omega), hs.version, bumpU64,
      pread_store_disjoint (by rw [h8, hs.same₂.length]; omega) (by rw [h8]; omega)]
  · have hflip : readLE 8 g₂ (stateVersionOffset header) = stateVersion header := by
      rw [hs.counter, bumpU64, readLE,
        pread_store_disjoint (by rw [h8, hs.same.length]; omega) (by rw [h8]; omega), hs.flip,
        flipIndexSlot_frame hw indexOffset indexLength (by omega)]
      rfl
    have hbump := @readLE_bumpU64 g₂ (stateVersionOffset header)
      (by rw [hs.same₂.length]; omega) (by rw [hflip]; exact hversion)
    rw [hflip, ← hs.version] at hbump
    rw [stateVersion, hs.same'.stateVersion_eq hw, ← hbump, hs.code, readLE, readLE,
      pread_store_disjoint hcode (by rw [hlen]; omega)]
  · rw [readFailCounter_eq (hs.same'.webHeader hw), readFailCounter_eq hw, hs.same'.counter_eq,
      readLE, readLE, hs.frame hw (by omega) (by omega) (by omega)]

theorem writeFailCounter_fits (C : WebCrypto) (hw : WebHeader header) (hmacKey : ByteVec 32)
    (count : Nat) :
    getFailCounterBlockOffset header + 4 + (leBytes 4 count).length ≤ header.length
      ∧ getFailCounterBlockOffset header + 8
        + (computeFailCounterHMAC C count hmacKey).toList.length
        ≤ (store header (getFailCounterBlockOffset header + 4) (leBytes 4 count)).length := by
  obtain ⟨hmeta, htfa, hfc, hwrapped, hsv, hend⟩ := hw.offsets
  have hlen : (computeFailCounterHMAC C count hmacKey).toList.length = 32 :=
    List.Vector.toList_length _
  rw [length_store, leBytes_length, hlen]
  omega

/-- A fail counter change writes the count and its code, next to each
other. -/
theorem writeFailCounter_frame (hw : WebHeader header) {count : Nat}
    (h : writeFailCounter C header hmacKey count = some header') {o n : Nat}
    (hd : o + n ≤ getFailCounterBlockOffset header + 4
      ∨ getFailCounterBlockOffset header + 40 ≤ o) :
    pread header' o n = pread header o n := by
  have h4 : (leBytes 4 count).length = 4 := leBytes_length 4 count
  have hlen : (computeFailCounterHMAC C count hmacKey).toList.length = 32 :=
    List.Vector.toList_length _
  obtain ⟨hcount, hcode⟩ := writeFailCounter_fits C hw hmacKey count
  rw [writeFailCounter, set_of_le hcode, Option.some.injEq] at h
  rw [← h, pread_store_disjoint hcode (by rw [hlen]; omega),
    pread_store_disjoint hcount (by rw [h4]; omega)]

theorem readLE_writeFailCounter (hw : WebHeader header) {count : Nat}
    (h : writeFailCounter C header hmacKey count = some header') :
    readLE 4 header' (getFailCounterBlockOffset header + 4) = count % 2 ^ 32 := by
  have h4 : (leBytes 4 count).length = 4 := leBytes_length 4 count
  obtain ⟨hcount, hcode⟩ := writeFailCounter_fits C hw hmacKey count
  have hself := pread_store_self hcount
  rw [writeFailCounter, set_of_le hcode, Option.some.injEq] at h
  rw [h4] at hself
  rw [← h, readLE, pread_store_disjoint hcode (by omega), hself, leNat_leBytes_mod]
  rfl

theorem writeFailCounter_counters (hw : WebHeader header) {count : Nat}
    (h : writeFailCounter C header hmacKey count = some header') :
    commitCounter header' = commitCounter header ∧ stateVersion header' = stateVersion header
      ∧ readFailCounter header' = count % 2 ^ 32 := by
  obtain ⟨hmeta, htfa, hfc, hwrapped, hsv, hend⟩ := hw.offsets
  have hframe := fun {o n : Nat} => writeFailCounter_frame hw h (o := o) (n := n)
  have hread := readLE_writeFailCounter hw h
  obtain ⟨_, hwrite, hsame, -⟩ := writeFailCounter_spec (C := C) hw hmacKey count
  rw [hwrite] at h
  cases h
  refine ⟨?_, ?_, ?_⟩
  · rw [commitCounter, commitCounter, hsame.metadata_eq, readLE, readLE, hframe (by omega)]
  · rw [stateVersion, stateVersion, hsame.stateVersion_eq hw, readLE, readLE, hframe (by omega)]
  · rw [readFailCounter_eq (hsame.webHeader hw), hsame.counter_eq, hread]

theorem min_succ_min (n top : Nat) : min (min n top + 1) top = min (n + 1) top := by
  omega

/-- **One call** succeeds, and the header records the ledger with it. -/
theorem Records.call {l : Ledger} (h : Records header l) (hmacKey : ByteVec 32) (c : HeaderCall) :
    ∃ header', c.apply C hmacKey header = some header' ∧ SameFields header header'
      ∧ Records header' (l.add c) := by
  have hw := h.web
  -- both fail counter calls write a count
  have hcount : ∀ count, ∃ header', writeFailCounter C header hmacKey count = some header'
      ∧ SameFields header header' ∧ Records header' { l with fails := count % 2 ^ 32 } := by
    intro count
    obtain ⟨header', hwrite, hsame, hpointers⟩ := writeFailCounter_spec (C := C) hw hmacKey count
    obtain ⟨hcommits, hversion, hfails⟩ := writeFailCounter_counters hw hwrite
    refine ⟨header', hwrite, hsame, hsame.webHeader hw, fun p hp => ?_, ?_, ?_, ?_⟩
    · rw [hpointers, h.pointers p hp]
    · rw [hcommits, h.commits]
    · rw [hversion, h.version]
    · rw [hfails, Nat.mod_mod]
  cases c with
  | commitVaultIndex indexOffset indexLength =>
    have hoffset : indexOffset % 2 ^ 32 < 2 ^ 32 := Nat.mod_lt _ (by decide)
    have hlength : indexLength % 2 ^ 32 < 2 ^ 32 := Nat.mod_lt _ (by decide)
    obtain ⟨header', hcommit, hsame, hpointers⟩ :=
      commitVaultIndex_spec (C := C) hw hmacKey hoffset hlength
    rw [← commitVaultIndex_mod] at hcommit
    have hle := h.commits
    have hle' := h.version
    obtain ⟨hcommits, hversion, hfails⟩ :=
      commitVaultIndex_counters hw hcommit (by omega) (by omega)
    refine ⟨header', hcommit, hsame, hsame.webHeader hw, ?_, ?_, ?_, ?_⟩
    · rintro p ⟨rfl⟩
      exact hpointers
    · rw [hcommits, h.commits]
      exact min_succ_min l.commits (2 ^ 53)
    · rw [hversion, h.version]
      exact min_succ_min (l.commits + 1) (2 ^ 53)
    · rw [hfails, h.fails, Ledger.add]
  | incrementFailCounter =>
    obtain ⟨header', hwrite, hsame, hrecords⟩ := hcount (readFailCounter header + 1)
    rw [readFailCounter_eq hw] at hwrite
    refine ⟨header', hwrite, hsame, hrecords.web, hrecords.pointers, hrecords.commits,
      hrecords.version, ?_⟩
    rw [hrecords.fails, h.fails]
    simp only [Ledger.add]
    omega
  | resetFailCounter =>
    obtain ⟨header', hwrite, hsame, hrecords⟩ := hcount 0
    exact ⟨header', hwrite, hsame, hrecords⟩

/-! ## Every run of calls -/

theorem Records.calls {l : Ledger} (h : Records header l) (hmacKey : ByteVec 32)
    (calls : List HeaderCall) :
    ∃ header', maintain C hmacKey calls header = some header' ∧ SameFields header header'
      ∧ Records header' (calls.foldl Ledger.add l) := by
  induction calls generalizing header l with
  | nil => exact ⟨header, rfl, SameFields.refl header, h⟩
  | cons c calls ih =>
    obtain ⟨next, hcall, hsame, hnext⟩ := h.call (C := C) hmacKey c
    obtain ⟨header', hrest, hsame', hrecords⟩ := ih hnext
    refine ⟨header', ?_, hsame.trans h.web hsame', hrecords⟩
    rw [maintain, Run.steps, hcall]
    exact hrest

/-! ## What the header reports -/

/-- The header reads back as the ledger says, its counters have advanced by
the commits, and it opens to the same keys. -/
structure Reports (C : WebCrypto) (password : Bytes) (keys : VaultSession) (created header : Bytes)
    (l : Ledger) : Prop where
  parses : ∃ info, parseVaultHeader header = .ok info
    ∧ (∀ p, l.last = some p → (info.index0Offset, info.index0Length) = p)
    ∧ info.failCount = l.fails
  commits : commitCounter header = commitCounter created + l.commits
  version : stateVersion header = stateVersion created + l.commits
  opens : unlockVault C header password = .ok keys

/-- The numbers of the ledger fit their fields. -/
structure Ledger.Fits (l : Ledger) : Prop where
  last : ∀ p, l.last = some p → p.1 < 2 ^ 32 ∧ p.2 < 2 ^ 32
  fails : l.fails < 2 ^ 32
  commits : l.commits < 2 ^ 53

theorem parseVaultHeader_webHeader (hw : WebHeader header) :
    ∃ info, parseVaultHeader header = .ok info
      ∧ (info.index0Offset, info.index0Length) = activePointers header
      ∧ info.failCount = readFailCounter header := by
  rw [parseVaultHeader, if_neg (not_not_intro hw.magic)]
  refine ⟨_, rfl, rfl, ?_⟩
  rw [readFailCounter_eq hw]
  simp only [hw.counterBlock]
  rfl

theorem Records.reports_iff {l : Ledger} {created : Bytes} {password : Bytes} {keys : VaultSession}
    (h : Records header l) (hcreated : Records created ⟨none, 0, 0⟩)
    (hopens : unlockVault C header password = .ok keys) :
    Reports C password keys created header l ↔ l.Fits := by
  obtain ⟨info, hparse, hpointers, hfails⟩ := parseVaultHeader_webHeader h.web
  have hc := h.commits
  have hv := h.version
  have hc₀ : commitCounter created = 0 := hcreated.commits
  have hv₀ : stateVersion created = 1 := hcreated.version
  have hmod : ∀ p : Nat × Nat, (p.1 % 2 ^ 32, p.2 % 2 ^ 32) = p ↔ p.1 < 2 ^ 32 ∧ p.2 < 2 ^ 32 := by
    intro p
    rw [Prod.ext_iff]
    simp only
    omega
  constructor
  · rintro ⟨⟨info', hparse', hlast, hcount⟩, hcommits, hversion, -⟩
    rw [hparse] at hparse'
    cases hparse'
    refine ⟨fun p hp => (hmod p).mp ?_, ?_, ?_⟩
    · rw [← h.pointers p hp, ← hpointers, hlast p hp]
    · rw [hfails, h.fails] at hcount
      omega
    · omega
  · rintro ⟨hlast, hcount, hcommits⟩
    refine ⟨⟨info, hparse, fun p hp => ?_, ?_⟩, ?_, ?_, hopens⟩
    · rw [hpointers, h.pointers p hp, (hmod p).mpr (hlast p hp)]
    · rw [hfails, h.fails, Nat.mod_eq_of_lt hcount]
    · omega
    · omega

theorem HeaderParts.records (p : HeaderParts) : Records p.header ⟨none, 0, 0⟩ where
  web := p.webHeader
  pointers := fun _ hp => by cases hp
  commits := by
    rw [commitCounter, p.metadata_eq]
    exact readLE_filled 14 rfl (by simp [blocks, magic_length]) (by decide)
  version := by
    rw [stateVersion, p.stateVersion_eq]
    exact readLE_filled 25 rfl (by simp [blocks, magic_length]) (by decide)
  fails := by
    rw [readFailCounter_eq p.webHeader, p.counter_eq]
    exact readLE_filled 21 rfl (by simp [blocks, magic_length]) (by decide)

/-- **Header maintenance**: from a new header every run of calls succeeds,
and the result reports the ledger exactly when its numbers fit. -/
theorem maintain_reports_iff (hC : C.aesGcm.Correct) {password : Bytes} {cipherId : Nat}
    {random : ProvisionRandom} {created : Bytes} {keys : VaultSession}
    (h : createVaultHeader C password cipherId random = some (created, keys))
    (calls : List HeaderCall) :
    ∃ header, maintain C keys.hmacKey calls created = some header
      ∧ (Reports C password keys created header (ledger calls) ↔ (ledger calls).Fits) := by
  obtain ⟨hgood, -⟩ := createVaultHeader_good hC h
  have hcreated : Records created ⟨none, 0, 0⟩ := by
    obtain ⟨p, rfl⟩ := createVaultHeader_parts hC h
    exact p.records
  obtain ⟨header, hrun, hsame, hrecords⟩ := hcreated.calls (C := C) keys.hmacKey calls
  refine ⟨header, hrun, hrecords.reports_iff hcreated ?_⟩
  rw [hsame.unlock_eq hcreated.web, hgood.opens]

/-! ## A sample header -/

theorem sampleHeader_created :
    ∃ created, createVaultHeader transparentCrypto samplePassword 3 sampleRandom
      = some (created, sampleKeys) := by
  obtain ⟨kek, verifyCT, wrappedMek, hwraps⟩ :=
    transparentCrypto_total.wraps (transparentAead_correct 12) samplePassword sampleRandom
  obtain ⟨cipher, hmac, failHmac, hcreate⟩ := createVaultHeader_eq 3 hwraps
  exact ⟨_, hcreate⟩

theorem maintain_reports_sample :
    ∃ created header, createVaultHeader transparentCrypto samplePassword 3 sampleRandom
        = some (created, sampleKeys)
      ∧ maintain transparentCrypto sampleKeys.hmacKey
        [.commitVaultIndex 24576 40, .incrementFailCounter] created = some header
      ∧ (Reports transparentCrypto samplePassword sampleKeys created header
          (ledger [.commitVaultIndex 24576 40, .incrementFailCounter])
        ↔ (ledger [.commitVaultIndex 24576 40, .incrementFailCounter]).Fits) := by
  obtain ⟨created, hcreate⟩ := sampleHeader_created
  obtain ⟨header, hrun, hreports⟩ := maintain_reports_iff (transparentAead_correct 12) hcreate
    [.commitVaultIndex 24576 40, .incrementFailCounter]
  exact ⟨created, header, hcreate, hrun, hreports⟩

/-- An index committed behind the first 4 GiB is read back at offset 0. -/
theorem largeOffset_truncated :
    ∃ created header info, createVaultHeader transparentCrypto samplePassword 3 sampleRandom
        = some (created, sampleKeys)
      ∧ maintain transparentCrypto sampleKeys.hmacKey [.commitVaultIndex (2 ^ 32) 40] created
        = some header
      ∧ parseVaultHeader header = .ok info ∧ info.index0Offset = 0
      ∧ ¬ Reports transparentCrypto samplePassword sampleKeys created header
          (ledger [.commitVaultIndex (2 ^ 32) 40]) := by
  obtain ⟨created, hcreate⟩ := sampleHeader_created
  obtain ⟨p, rfl⟩ := createVaultHeader_parts (transparentAead_correct 12) hcreate
  obtain ⟨header, hrun, -, hrecords⟩ := p.records.calls (C := transparentCrypto) sampleKeys.hmacKey
    [.commitVaultIndex (2 ^ 32) 40]
  obtain ⟨info, hparse, hpointers, -⟩ := parseVaultHeader_webHeader hrecords.web
  have hread := hrecords.pointers (2 ^ 32, 40) rfl
  rw [← hpointers, Nat.mod_self] at hread
  have hzero : info.index0Offset = 0 := congrArg Prod.fst hread
  refine ⟨_, header, info, hcreate, hrun, hparse, hzero, fun hreports => ?_⟩
  obtain ⟨info', hparse', hlast, -⟩ := hreports.parses
  rw [hparse] at hparse'
  cases hparse'
  have hoffset : info.index0Offset = 2 ^ 32 := congrArg Prod.fst (hlast (2 ^ 32, 40) rfl)
  rw [hzero] at hoffset
  exact absurd hoffset (by decide)

end UsbVault.App
