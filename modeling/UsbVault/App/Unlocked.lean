import UsbVault.App.Sound

/-!
# Unlocking a sound container

A container that opens to a file map unlocks with the password: the
session keys are the real ones, the fail counter is written back into
the header, and the index loaded is the committed one
(`OnDisk.unlock`). Conversely a vault unlocked from a well laid out
container is one (`unlock_onDisk`).
-/

namespace UsbVault.App

open Wire Js Companion

/-- `readFile` -/
def Opened.readFile (C : WebCrypto) (u : Opened) (fileId : String) : Option DecryptedRecord :=
  (u.files.get fileId).bind fun entry =>
    if entry.length = 0 then none
    else (readBytesOf u.disk entry.offset entry.length).bind
      (decryptFileRecord C u.session.encryptionKey)

variable {C : WebCrypto} {K : IndexCodec} {password : Bytes} {keys : VaultSession}
variable {disk : Bytes} {files : Files} {header : Bytes}

theorem parseVaultHeader_of_magic (h : slice header 0 8 = VAULT_MAGIC) :
    ∃ info, parseVaultHeader header = .ok info
      ∧ info.index0Offset = (activeRange header).offset
      ∧ info.index0Length = (activeRange header).length
      ∧ info.index1Offset = (activeRange header).offset
      ∧ info.index1Length = (activeRange header).length := by
  rw [parseVaultHeader, if_neg (not_not_intro h)]
  exact ⟨_, rfl, rfl, rfl, rfl, rfl⟩

theorem resetCounter_spec (hw : WebHeader header) (hmacKey : ByteVec 32) :
    ∃ header', resetCounter C header hmacKey = some header'
      ∧ SameFields header header' ∧ activePointers header' = activePointers header := by
  obtain ⟨h₁, hinc, hsame₁, hptr₁⟩ := writeFailCounter_spec (C := C) hw hmacKey
    (readLE 4 header (getFailCounterBlockOffset header + 4) + 1)
  obtain ⟨h₂, hreset, hsame₂, hptr₂⟩ :=
    writeFailCounter_spec (C := C) (hsame₁.webHeader hw) hmacKey 0
  refine ⟨h₂, ?_, hsame₁.trans hw hsame₂, hptr₂.trans hptr₁⟩
  rw [resetCounter, incrementFailCounter, hinc, Option.bind_some, resetFailCounter, hreset]

theorem writeHeaderOf_good (disk : Bytes) (h : GoodHeader C password keys header) :
    writeHeaderOf disk header = some (header ++ disk.drop HEADER_SIZE) := by
  have hmagic := h.web.magic
  rw [slice, pread, List.drop_zero] at hmagic
  rw [writeHeaderOf, if_pos ⟨h.web.length, hmagic⟩]

/-- What `unlock` loads once the header is open. -/
def loadIndex (C : WebCrypto) (K : IndexCodec) (keys : VaultSession) (range : Entry)
    (headerBytes disk : Bytes) : Option Opened :=
  if 0 < range.length then do
    let encryptedIndex ← readBytesOf disk range.offset range.length
    let files ← decryptVaultContainerIndex C K keys.encryptionKey encryptedIndex
    return ⟨keys, files, headerBytes, disk⟩
  else return ⟨keys, [], headerBytes, disk⟩

/-- Under a good header, `unlock` writes a good header naming the same
range, and loads the index from there. -/
theorem unlock_eq_loadIndex (hlong : HEADER_SIZE ≤ disk.length)
    (h : GoodHeader C password keys (disk.take HEADER_SIZE)) :
    ∃ final, GoodHeader C password keys final
      ∧ activeRange final = activeRange (disk.take HEADER_SIZE)
      ∧ unlock C K disk password
        = loadIndex C K keys (activeRange final) final (final ++ disk.drop HEADER_SIZE) := by
  have hw := h.web
  obtain ⟨info, hparse, h0o, h0l, h1o, h1l⟩ := parseVaultHeader_of_magic hw.magic
  obtain ⟨final, hfinal, hsame, hptr⟩ := resetCounter_spec (C := C) hw keys.hmacKey
  have hgood : GoodHeader C password keys final :=
    ⟨hsame.webHeader hw, by rw [hsame.unlock_eq hw]; exact h.opens⟩
  have hwrite := writeHeaderOf_good disk hgood
  have hrange : activeRange final = activeRange (disk.take HEADER_SIZE) := by
    rw [activeRange, hptr, activeRange]
  -- both slots of the parsed header hold the active range
  have hoffset : (if info.activeIndexSlot = 0 then info.index0Offset else info.index1Offset)
      = (activeRange (disk.take HEADER_SIZE)).offset := by
    rw [h0o, h1o, ite_self]
  have hlength : (if info.activeIndexSlot = 0 then info.index0Length else info.index1Length)
      = (activeRange (disk.take HEADER_SIZE)).length := by
    rw [h0l, h1l, ite_self]
  refine ⟨final, hgood, hrange, ?_⟩
  rw [hrange]
  simp only [unlock, loadIndex, h.readHeaderOf hlong, hparse, h.opens, hfinal, hwrite, hoffset,
    hlength, Except.toOption, Option.bind_eq_bind, Option.bind_some]

/-- The container an unlock leaves grows from the one it found, and the
other way round. -/
theorem GoodHeader.extends (hgood : GoodHeader C password keys header)
    (hlong : HEADER_SIZE ≤ disk.length) :
    Extends disk (header ++ disk.drop HEADER_SIZE)
      ∧ Extends (header ++ disk.drop HEADER_SIZE) disk
      ∧ (header ++ disk.drop HEADER_SIZE).take HEADER_SIZE = header := by
  obtain ⟨hext, htake⟩ := writeHeaderOf_spec hlong (writeHeaderOf_good _ hgood)
  refine ⟨hext, ⟨hext.long', hlong, [], ?_⟩, htake⟩
  rw [List.drop_left' hgood.web.length, List.append_nil]

/-- **A sound container unlocks**, and what it opens to is committed
unchanged in the container the unlock leaves. -/
theorem OnDisk.unlock (h : OnDisk C K password keys disk files) :
    ∃ u, unlock C K disk password = some u ∧ u.session = keys ∧ SameMap u.files files
      ∧ Extends disk u.disk ∧ OnDisk C K password keys u.disk files
      ∧ GoodHeader C password keys u.headerBytes
      ∧ activeRange (u.disk.take HEADER_SIZE) = activeRange (disk.take HEADER_SIZE) := by
  obtain ⟨final, hgood, hrange, heq⟩ := unlock_eq_loadIndex (K := K) h.long h.header
  obtain ⟨hext, _, htake⟩ := hgood.extends h.long
  have hnames := h.names.mono hext h.above
  rw [Names, ← hrange] at hnames
  have hon : OnDisk C K password keys (final ++ disk.drop HEADER_SIZE) files := by
    refine ⟨⟨hext.long', htake.symm ▸ hgood, ?_⟩, ?_⟩
    · rw [htake, hrange]
      exact h.above
    · rw [htake, Names]
      exact hnames
  rw [heq, loadIndex]
  split at hnames
  · rename_i hzero
    rw [if_neg (by omega)]
    exact ⟨_, rfl, rfl, hnames, hext, hon, hgood, by rw [htake, hrange]⟩
  · rename_i hne
    obtain ⟨blob, files', hread, hdec, hfiles⟩ := hnames
    rw [if_pos (by omega), hread, Option.bind_eq_bind, Option.bind_some, hdec]
    exact ⟨_, rfl, rfl, hfiles, hext, hon, hgood, by rw [htake, hrange]⟩

/-- A container as the provisioning and the calls lay it out. -/
structure LaidOut (disk : Bytes) : Prop where
  web : WebHeader (disk.take HEADER_SIZE)
  above : HEADER_SIZE ≤ (activeRange (disk.take HEADER_SIZE)).offset

theorem OnDisk.laidOut (h : OnDisk C K password keys disk files) : LaidOut disk :=
  ⟨h.header.web, h.above⟩

theorem LaidOut.long (h : LaidOut disk) : HEADER_SIZE ≤ disk.length := by
  have hlen := h.web.length
  rw [List.length_take] at hlen
  omega

theorem opens_of_unlock (hlong : HEADER_SIZE ≤ disk.length) {u : Opened}
    (h : unlock C K disk password = some u) :
    ∃ keys, unlockVault C (disk.take HEADER_SIZE) password = .ok keys := by
  simp only [App.unlock, Option.bind_eq_bind, Option.bind_eq_some_iff] at h
  obtain ⟨header, hread, info, _, session, hopen, _⟩ := h
  have hheader : header = disk.take HEADER_SIZE := by
    rw [readHeaderOf, if_neg (by omega)] at hread
    split at hread
    · cases hread
    · exact (Option.some.inj hread).symm
  subst hheader
  cases hok : unlockVault C (disk.take HEADER_SIZE) password with
  | error e => rw [hok] at hopen; cases hopen
  | ok keys => exact ⟨keys, rfl⟩

theorem unlock_length (hlong : HEADER_SIZE ≤ disk.length) {u : Opened}
    (h : unlock C K disk password = some u) : u.disk.length = disk.length := by
  simp only [App.unlock, Option.bind_eq_bind, Option.bind_eq_some_iff] at h
  obtain ⟨_, _, info, _, _, _, _, _, disk', hwrite, hload⟩ := h
  have hlen := writeHeaderOf_length hwrite
  rw [Nat.max_eq_right hlong] at hlen
  generalize (if info.activeIndexSlot = 0 then info.index0Offset else info.index1Offset)
    = offset at hload
  generalize (if info.activeIndexSlot = 0 then info.index0Length else info.index1Length)
    = length at hload
  split at hload
  · rw [Option.bind_eq_some_iff] at hload
    obtain ⟨_, _, hload⟩ := hload
    rw [Option.bind_eq_some_iff] at hload
    obtain ⟨_, _, hload⟩ := hload
    cases hload
    exact hlen
  · cases hload
    exact hlen

/-- **What an unlock leaves opens to what it loaded.** -/
theorem unlock_sound {u : Opened} (hlaid : LaidOut disk)
    (h : unlock C K disk password = some u) :
    OnDisk C K password u.session u.disk u.files
      ∧ GoodHeader C password u.session u.headerBytes ∧ u.files.keys.Nodup := by
  obtain ⟨keys, hopens⟩ := opens_of_unlock hlaid.long h
  obtain ⟨final, hgood, hrange, heq⟩ :=
    unlock_eq_loadIndex (K := K) hlaid.long ⟨hlaid.web, hopens⟩
  obtain ⟨hext, _, htake⟩ := hgood.extends hlaid.long
  have habove : HEADER_SIZE ≤ (activeRange final).offset := by
    rw [hrange]
    exact hlaid.above
  have hon : ∀ files, Names C K keys (final ++ disk.drop HEADER_SIZE) final files →
      OnDisk C K password keys (final ++ disk.drop HEADER_SIZE) files := by
    intro files hnames
    exact ⟨⟨hext.long', htake.symm ▸ hgood, htake.symm ▸ habove⟩, htake.symm ▸ hnames⟩
  rw [heq, loadIndex] at h
  split at h
  · rename_i hpos
    simp only [Option.bind_eq_bind, Option.bind_eq_some_iff] at h
    obtain ⟨blob, hread, files, hdec, hu⟩ := h
    cases hu
    have hat : IndexAt C K keys (final ++ disk.drop HEADER_SIZE) (activeRange final) files :=
      ⟨blob, files, hread, hdec, SameMap.refl files⟩
    refine ⟨hon files hat.names, hgood, ?_⟩
    rw [decryptVaultContainerIndex, Option.bind_eq_some_iff] at hdec
    obtain ⟨text, _, hparse⟩ := hdec
    exact K.nodup text files hparse
  · rename_i hzero
    cases h
    refine ⟨hon [] ?_, hgood, List.nodup_nil⟩
    rw [Names, if_pos (by omega)]
    exact SameMap.refl []

end UsbVault.App
