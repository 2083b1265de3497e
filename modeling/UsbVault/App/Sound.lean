import UsbVault.App.Orchestrator

/-!
# What stays true on disk

While no compaction takes effect, the container only grows above the
header and the header on disk always names an index blob that lies there.
This module says so for one step of one call, whatever other calls are in
flight: the assertion about a call (`CallSound`) speaks about the
container and the real keys only, and survives the steps of the others
(`CallSound.mono`).
-/

namespace UsbVault.App

open Wire Js Companion

/-! ## Assertions -/

section Assertions

variable (C : WebCrypto) (K : IndexCodec) (password : Bytes) (keys : VaultSession)

/-- The range holds an index that decrypts to `files`. -/
def IndexAt (disk : Bytes) (range : Entry) (files : Files) : Prop :=
  ∃ blob files', readBytesOf disk range.offset range.length = some blob
    ∧ decryptVaultContainerIndex C K keys.encryptionKey blob = some files'
    ∧ SameMap files' files

/-- The range holds a record that decrypts to `data`. -/
def RecordAt (disk : Bytes) (range : Entry) (data : Bytes) : Prop :=
  ∃ bytes r, readBytesOf disk range.offset range.length = some bytes
    ∧ decryptFileRecord C keys.encryptionKey bytes = some r ∧ r.data = data

/-- The range the header names as its active index. -/
def activeRange (header : Bytes) : Entry := ⟨(activePointers header).1, (activePointers header).2⟩

/-- The header names an index listing `files`. An index of length zero
stands for no files. -/
def Names (disk header : Bytes) (files : Files) : Prop :=
  if (activeRange header).length = 0 then SameMap [] files
  else IndexAt C K keys disk (activeRange header) files

/-- The index committed in the header on disk decrypts to `files`. -/
def Committed (disk : Bytes) (files : Files) : Prop :=
  ∃ header, readHeaderOf disk = some header ∧ Names C K keys disk header files

/-- A header of the web layout that opens with the password. -/
structure GoodHeader (header : Bytes) : Prop where
  web : WebHeader header
  opens : unlockVault C header password = .ok keys

/-- A container with a good header, which names a range behind itself. -/
structure HeaderOnDisk (disk : Bytes) : Prop where
  long : HEADER_SIZE ≤ disk.length
  header : GoodHeader C password keys (disk.take HEADER_SIZE)
  above : HEADER_SIZE ≤ (activeRange (disk.take HEADER_SIZE)).offset

/-- A container that opens to `files`. -/
structure OnDisk (disk : Bytes) (files : Files) : Prop extends
    HeaderOnDisk C password keys disk where
  names : Names C K keys disk (disk.take HEADER_SIZE) files

/-- What is known of a call in flight. -/
def CallSound (disk : Bytes) : Pc → Prop
  | .appendingRecord _ _ data (some record) => record.key = keys.encryptionKey
      ∧ ∃ r, decryptFileRecord C keys.encryptionKey record.bytes = some r ∧ r.data = data
  | .appendedRecord _ _ data range => HEADER_SIZE ≤ range.offset ∧ RecordAt C keys disk range data
  | .fetchedHeader header => GoodHeader C password keys header
  | .parsingFresh header => GoodHeader C password keys header
  | .appendingIndex snap (some blob) => blob.key = keys.encryptionKey ∧ ∃ files',
      decryptVaultContainerIndex C K keys.encryptionKey blob.bytes = some files'
        ∧ SameMap files' snap.files
  | .appendedIndex snap range => HEADER_SIZE ≤ range.offset ∧ IndexAt C K keys disk range snap.files
  | .writingHeader snap (some header) => header.key = keys.hmacKey
      ∧ GoodHeader C password keys header.bytes
      ∧ HEADER_SIZE ≤ (activeRange header.bytes).offset
      ∧ IndexAt C K keys disk (activeRange header.bytes) snap.files
  | .wroteHeader _ header => GoodHeader C password keys header
  | .parsing _ header => GoodHeader C password keys header
  | _ => True

/-- What is known of the open vault, but for the index on disk. -/
structure VaultOk (v : Vault) : Prop where
  headerOnDisk : HeaderOnDisk C password keys v.disk
  cached : GoodHeader C password keys v.headerBytes
  nodup : v.files.keys.Nodup

/-- What is known of the open vault, when the container opens to `files`. -/
structure VaultSound (v : Vault) (files : Files) : Prop extends VaultOk C password keys v where
  names : Names C K keys v.disk (v.disk.take HEADER_SIZE) files

end Assertions

/-- The next step reads a key. -/
def Pc.readsKey : Pc → Bool
  | .checkingCapacity _ _ _ | .appendedRecord _ _ _ _ | .parsingFresh _
  | .appendedIndex _ _ => true
  | _ => false

/-- The container keeps its header region and everything above it. -/
structure Extends (disk disk' : Bytes) : Prop where
  long : HEADER_SIZE ≤ disk.length
  long' : HEADER_SIZE ≤ disk'.length
  body : ∃ tail, disk'.drop HEADER_SIZE = disk.drop HEADER_SIZE ++ tail

variable {C : WebCrypto} {K : IndexCodec} {password : Bytes} {keys : VaultSession}
variable {disk disk' disk'' : Bytes} {v v' : Vault} {pc pc' : Pc} {files : Files}

/-! ## A growing container -/

theorem Extends.refl (h : HEADER_SIZE ≤ disk.length) : Extends disk disk :=
  ⟨h, h, [], by rw [List.append_nil]⟩

theorem Extends.trans (h : Extends disk disk') (h' : Extends disk' disk'') :
    Extends disk disk'' := by
  obtain ⟨tail, htail⟩ := h.body
  obtain ⟨tail', htail'⟩ := h'.body
  exact ⟨h.long, h'.long', tail ++ tail', by rw [htail', htail, List.append_assoc]⟩

theorem Extends.length_le (h : Extends disk disk') : disk.length ≤ disk'.length := by
  obtain ⟨tail, htail⟩ := h.body
  have hlen := congrArg List.length htail
  have hlong := h.long
  have hlong' := h.long'
  rw [List.length_append, List.length_drop, List.length_drop] at hlen
  omega

theorem Extends.readBytesOf (h : Extends disk disk') {offset length : Nat} {bytes : Bytes}
    (hoff : HEADER_SIZE ≤ offset) (hread : readBytesOf disk offset length = some bytes) :
    Companion.readBytesOf disk' offset length = some bytes := by
  have hle := h.length_le
  obtain ⟨tail, htail⟩ := h.body
  rw [Companion.readBytesOf] at hread ⊢
  split at hread
  · cases hread
  · rename_i hok
    rw [if_neg (by omega)]
    cases hread
    rw [pread_drop length hoff, pread_drop (f := disk) length hoff, htail,
      pread_append_left tail (by rw [List.length_drop]; omega)]

theorem IndexAt.mono (h : Extends disk disk') {range : Entry} (hoff : HEADER_SIZE ≤ range.offset)
    (hat : IndexAt C K keys disk range files) : IndexAt C K keys disk' range files := by
  obtain ⟨blob, files', hread, hrest⟩ := hat
  exact ⟨blob, files', h.readBytesOf hoff hread, hrest⟩

theorem RecordAt.mono (h : Extends disk disk') {range : Entry} (hoff : HEADER_SIZE ≤ range.offset)
    {data : Bytes} (hat : RecordAt C keys disk range data) :
    RecordAt C keys disk' range data := by
  obtain ⟨bytes, r, hread, hrest⟩ := hat
  exact ⟨bytes, r, h.readBytesOf hoff hread, hrest⟩

theorem Names.mono (h : Extends disk disk') {header : Bytes}
    (hoff : HEADER_SIZE ≤ (activeRange header).offset)
    (hnames : Names C K keys disk header files) : Names C K keys disk' header files := by
  rw [Names] at hnames ⊢
  split at hnames
  · rename_i hzero
    rw [if_pos hzero]
    exact hnames
  · rename_i hne
    rw [if_neg hne]
    exact hnames.mono h hoff

/-- **A call's assertion survives the steps of the others.** -/
theorem CallSound.mono (h : Extends disk disk') (hpc : CallSound C K password keys disk pc) :
    CallSound C K password keys disk' pc := by
  cases pc with
  | appendingRecord fileId filename data r => cases r <;> exact hpc
  | appendingIndex snap blob => cases blob <;> exact hpc
  | appendedRecord fileId filename data range => exact ⟨hpc.1, hpc.2.mono h hpc.1⟩
  | appendedIndex snap range => exact ⟨hpc.1, hpc.2.mono h hpc.1⟩
  | writingHeader snap header =>
    cases header with
    | none => exact hpc
    | some header =>
      obtain ⟨hkey, hgood, hoff, hat⟩ := hpc
      exact ⟨hkey, hgood, hoff, hat.mono h hoff⟩
  | _ => exact hpc

theorem extends_append (h : HEADER_SIZE ≤ disk.length) (data : Bytes) :
    Extends disk (disk ++ data) :=
  ⟨h, by rw [List.length_append]; omega, data, List.drop_append_of_le_length h⟩

theorem appendOf_spec {data : Bytes} {range : Entry} (hlong : HEADER_SIZE ≤ disk.length)
    (heff : appendOf disk data = some (range, disk')) :
    Extends disk disk' ∧ disk'.take HEADER_SIZE = disk.take HEADER_SIZE
      ∧ HEADER_SIZE ≤ range.offset
      ∧ readBytesOf disk' range.offset range.length = some data
      ∧ range.offset + range.length = disk'.length := by
  rw [appendOf] at heff
  split at heff
  · cases heff
  · rename_i hok
    cases heff
    have hne : data.length ≠ 0 := fun hzero => hok (.inl (List.length_eq_zero_iff.mp hzero))
    have hmax : data.length ≤ MAX_IO_SIZE := Nat.le_of_not_lt fun hbig => hok (.inr hbig)
    refine ⟨extends_append hlong data, List.take_append_of_le_length hlong, hlong, ?_, ?_⟩
    · have hread : ¬(data.length = 0 ∨ MAX_IO_SIZE < data.length
          ∨ (disk ++ data).length < disk.length + data.length) := by
        rw [List.length_append]
        omega
      rw [readBytesOf, if_neg hread, pread_append_right]
    · rw [List.length_append]

theorem appendOf_range {data : Bytes} {range : Entry}
    (heff : appendOf disk data = some (range, disk')) : range = ⟨disk.length, data.length⟩ := by
  rw [appendOf] at heff
  split at heff
  · cases heff
  · cases heff
    rfl

theorem appendOf_length {data : Bytes} {range : Entry}
    (heff : appendOf disk data = some (range, disk')) :
    disk'.length = disk.length + data.length := by
  rw [appendOf] at heff
  split at heff
  · cases heff
  · cases heff
    rw [List.length_append]

theorem writeHeaderOf_length {header : Bytes} (heff : writeHeaderOf disk header = some disk') :
    disk'.length = max HEADER_SIZE disk.length := by
  rw [writeHeaderOf] at heff
  split at heff
  · rename_i hok
    cases heff
    rw [List.length_append, List.length_drop, hok.1]
    omega
  · cases heff

theorem writeHeaderOf_spec {header : Bytes} (hlong : HEADER_SIZE ≤ disk.length)
    (heff : writeHeaderOf disk header = some disk') :
    Extends disk disk' ∧ disk'.take HEADER_SIZE = header := by
  rw [writeHeaderOf] at heff
  split at heff
  · rename_i hok
    cases heff
    refine ⟨⟨hlong, by rw [List.length_append, hok.1]; omega, [], ?_⟩, List.take_left' hok.1⟩
    rw [List.drop_left' hok.1, List.append_nil]
  · cases heff

theorem HeaderOnDisk.mono (h : Extends disk disk')
    (hheader : disk'.take HEADER_SIZE = disk.take HEADER_SIZE)
    (hon : HeaderOnDisk C password keys disk) : HeaderOnDisk C password keys disk' where
  long := h.long'
  header := by rw [hheader]; exact hon.header
  above := by rw [hheader]; exact hon.above

theorem GoodHeader.readHeaderOf (hlong : HEADER_SIZE ≤ disk.length)
    (h : GoodHeader C password keys (disk.take HEADER_SIZE)) :
    readHeaderOf disk = some (disk.take HEADER_SIZE) := by
  have hmagic := h.web.magic
  have hle : 8 - 0 ≤ HEADER_SIZE := by decide
  rw [Js.slice, pread, List.drop_zero, List.take_take, Nat.min_eq_left hle] at hmagic
  rw [Companion.readHeaderOf, if_neg (by omega), if_neg (not_not_intro hmagic)]

theorem HeaderOnDisk.readHeaderOf (h : HeaderOnDisk C password keys disk) :
    Companion.readHeaderOf disk = some (disk.take HEADER_SIZE) :=
  h.header.readHeaderOf h.long

theorem VaultSound.onDisk (h : VaultSound C K password keys v files) :
    OnDisk C K password keys v.disk files :=
  ⟨h.headerOnDisk, h.names⟩

theorem OnDisk.committed (h : OnDisk C K password keys disk files) :
    Committed C K keys disk files :=
  ⟨_, h.readHeaderOf, h.names⟩

theorem Names.unique {header : Bytes} {files' : Files}
    (h : Names C K keys disk header files) (h' : Names C K keys disk header files') :
    SameMap files files' := by
  rw [Names] at h h'
  split at h
  · rename_i hzero
    rw [if_pos hzero] at h'
    exact h.symm.trans h'
  · rename_i hne
    rw [if_neg hne] at h'
    obtain ⟨blob, f, hread, hdec, hsame⟩ := h
    obtain ⟨blob', f', hread', hdec', hsame'⟩ := h'
    have hblob : blob = blob' := Option.some.inj (hread.symm.trans hread')
    subst hblob
    have hf : f = f' := Option.some.inj (hdec.symm.trans hdec')
    subst hf
    exact hsame.symm.trans hsame'

theorem Names.congr {header : Bytes} {files' : Files} (hsame : SameMap files files')
    (h : Names C K keys disk header files) : Names C K keys disk header files' := by
  rw [Names] at h ⊢
  split at h
  · rename_i hzero
    rw [if_pos hzero]
    exact h.trans hsame
  · rename_i hne
    rw [if_neg hne]
    obtain ⟨blob, f, hread, hdec, hf⟩ := h
    exact ⟨blob, f, hread, hdec, hf.trans hsame⟩

theorem OnDisk.committed_iff (h : OnDisk C K password keys disk files) {files' : Files} :
    Committed C K keys disk files' ↔ SameMap files files' := by
  constructor
  · rintro ⟨header, hread, hnames⟩
    have hheader : disk.take HEADER_SIZE = header :=
      Option.some.inj (h.readHeaderOf.symm.trans hread)
    subst hheader
    exact h.names.unique hnames
  · intro hsame
    exact ⟨_, h.readHeaderOf, h.names.congr hsame⟩

theorem IndexAt.length_ne_zero {range : Entry} (h : IndexAt C K keys disk range files) :
    range.length ≠ 0 := by
  obtain ⟨blob, files', hread, _⟩ := h
  rw [readBytesOf] at hread
  split at hread
  · cases hread
  · rename_i hok
    omega

theorem IndexAt.le_length {range : Entry} (h : IndexAt C K keys disk range files) :
    range.offset + range.length ≤ disk.length := by
  obtain ⟨blob, files', hread, _⟩ := h
  rw [readBytesOf] at hread
  split at hread
  · cases hread
  · rename_i hok
    omega

theorem IndexAt.length_lt {range : Entry} (h : IndexAt C K keys disk range files) :
    range.length < 2 ^ 32 := by
  obtain ⟨blob, files', hread, _⟩ := h
  rw [readBytesOf] at hread
  split at hread
  · cases hread
  · rename_i hok
    have hmax : MAX_IO_SIZE < 2 ^ 32 := by decide
    omega

/-- A header that names a range with an index in it names that index. -/
theorem IndexAt.names {header : Bytes} (h : IndexAt C K keys disk (activeRange header) files) :
    Names C K keys disk header files := by
  rw [Names, if_neg h.length_ne_zero]
  exact h

/-! ## What a call seals -/

theorem sealIndex_sound (hC : C.aesGcm.Correct) (hkeys : v.session = keys)
    (hnodup : v.files.keys.Nodup) (iv : ByteVec 12) :
    CallSound C K password keys disk (v.sealIndex C K iv) := by
  rw [Vault.sealIndex, hkeys]
  cases henc : encryptVaultContainerIndex C K keys.encryptionKey iv v.files with
  | none => trivial
  | some bytes => exact ⟨rfl, decryptVaultContainerIndex_encrypt hC hnodup henc⟩

theorem sealRecord_sound (hC : C.aesGcm.Correct) (hkeys : v.session = keys) (iv : ByteVec 12)
    (fileId filename : String) (data : Bytes) :
    CallSound C K password keys disk
      (.appendingRecord fileId filename data (v.sealRecord C iv data)) := by
  rw [Vault.sealRecord, hkeys]
  cases henc : encryptFileRecord C keys.encryptionKey iv data v.headerInfo.cipherId with
  | none => trivial
  | some bytes => exact ⟨rfl, decryptFileRecord_encrypt hC henc⟩

theorem GoodHeader.commit {header : Bytes} (h : GoodHeader C password keys header)
    (hmacKey : ByteVec 32) (range : Entry) (hoffset : range.offset < 2 ^ 32)
    (hlength : range.length < 2 ^ 32) :
    ∃ header', commitVaultIndex C header hmacKey range.offset range.length = some header'
      ∧ GoodHeader C password keys header' ∧ activeRange header' = range := by
  obtain ⟨header', hcommit, hsame, hpointers⟩ :=
    commitVaultIndex_spec (C := C) h.web hmacKey hoffset hlength
  refine ⟨header', hcommit, ⟨hsame.webHeader h.web, ?_⟩, by rw [activeRange, hpointers]⟩
  rw [hsame.unlock_eq h.web]
  exact h.opens

theorem sealHeader_sound (hkeys : v.session = keys)
    (hcached : GoodHeader C password keys v.headerBytes) {snap : Snapshot} {range : Entry}
    (hoff : HEADER_SIZE ≤ range.offset) (hat : IndexAt C K keys disk range snap.files)
    (hsmall : range.offset < 2 ^ 32) :
    CallSound C K password keys disk (.writingHeader snap (v.sealHeader C range)) := by
  obtain ⟨header, hcommit, hgood, hrange⟩ := hcached.commit keys.hmacKey range hsmall hat.length_lt
  rw [Vault.sealHeader, hkeys, hcommit]
  refine ⟨rfl, hgood, ?_, ?_⟩
  · rw [hrange]
    exact hoff
  · rw [hrange]
    exact hat

/-! ## Properties of the index changes -/

theorem nodup_overwrite {files : Files} (h : files.keys.Nodup) (k : String)
    (e : VaultIndexEntry) : (Obj.overwrite k e files).keys.Nodup := by
  rw [Obj.keys_overwrite]
  exact h

theorem nodup_relocate {files : Files} (h : files.keys.Nodup) (newOffsets : Obj Entry) :
    (relocate files newOffsets).keys.Nodup := by
  rw [relocate]
  refine List.Nodup.sublist (List.filter_sublist.map Prod.fst) ?_
  refine List.foldlRecOn (motive := fun o : Files => o.keys.Nodup) _ _ h fun o ho p _ => ?_
  split
  · exact nodup_overwrite ho _ _
  · exact ho

/-! ## One step -/

/-- The map committed once a call has reached `pc`. -/
def Pc.committed (files : Files) : Pc → Files
  | .wroteHeader snap _ => snap.files
  | _ => files

theorem CallStep.session_eq (hstep : CallStep C K v pc v' pc') : v'.session = v.session := by
  cases hstep <;> rfl

/-- **One step of one call**, other than the compaction itself: the
container grows, its header stays good, and the call's assertion holds of
its next position. -/
theorem CallStep.ok (hC : C.aesGcm.Correct) (hstep : CallStep C K v pc v' pc')
    (hv : VaultOk C password keys v) (hpc : CallSound C K password keys v.disk pc)
    (hkeys : pc.readsKey → v.session = keys) (hcompact : ∀ activeFiles, pc ≠ .compacting activeFiles)
    (hsmall : ∀ snap range, pc = .appendedIndex snap range → range.offset < 2 ^ 32) :
    Extends v.disk v'.disk ∧ VaultOk C password keys v'
      ∧ CallSound C K password keys v'.disk pc' := by
  have hon := hv.headerOnDisk
  have hsame : Extends v.disk v.disk := Extends.refl hon.long
  cases hstep with
  | allow iv => exact ⟨hsame, hv, sealRecord_sound hC (hkeys rfl) iv _ _ _⟩
  | record heff =>
    obtain ⟨hext, hheader, hoff, hread, _⟩ := appendOf_spec hon.long heff
    obtain ⟨_, r, hdec, hdata⟩ := hpc
    exact ⟨hext, ⟨hon.mono hext hheader, hv.cached, hv.nodup⟩, hoff, _, r, hread, hdec, hdata⟩
  | list createdAt modifiedAt iv =>
    have hnodup := Obj.nodup_assign hv.nodup
    exact ⟨hsame, ⟨hon, hv.cached, hnodup _ _⟩,
      sealIndex_sound (v := v.setFiles _) hC (hkeys rfl) (hnodup _ _) iv⟩
  | compact => exact absurd rfl (hcompact _)
  | relocate => exact ⟨hsame, ⟨hon, hv.cached, nodup_relocate hv.nodup _⟩, trivial⟩
  | fetch heff =>
    rw [hon.readHeaderOf] at heff
    cases heff
    exact ⟨hsame, hv, hon.header⟩
  | refresh => exact ⟨hsame, ⟨hon, hpc, hv.nodup⟩, hpc⟩
  | reseal iv hparse =>
    exact ⟨hsame, ⟨hon, hv.cached, hv.nodup⟩, sealIndex_sound hC (hkeys rfl) hv.nodup iv⟩
  | index heff =>
    obtain ⟨hext, hheader, hoff, hread, _⟩ := appendOf_spec hon.long heff
    obtain ⟨_, files', hdec, hsnap⟩ := hpc
    exact ⟨hext, ⟨hon.mono hext hheader, hv.cached, hv.nodup⟩, hoff, _, files', hread, hdec,
      hsnap⟩
  | commit =>
    exact ⟨hsame, hv, sealHeader_sound (hkeys rfl) hv.cached hpc.1 hpc.2 (hsmall _ _ rfl)⟩
  | header heff =>
    obtain ⟨hext, hheader⟩ := writeHeaderOf_spec hon.long heff
    obtain ⟨_, hgood, hoff, _⟩ := hpc
    exact ⟨hext, ⟨⟨hext.long', hheader.symm ▸ hgood, hheader.symm ▸ hoff⟩, hv.cached, hv.nodup⟩,
      hgood⟩
  | cache => exact ⟨hsame, ⟨hon, hpc, hv.nodup⟩, hpc⟩
  | finish hparse => exact ⟨hsame, ⟨hon, hv.cached, hv.nodup⟩, trivial⟩
  | throws h => exact ⟨hsame, hv, trivial⟩

/-- A compaction without active files leaves the header and nothing
behind it. -/
theorem VaultOk.compact_empty (hv : VaultOk C password keys v) :
    VaultOk C password keys { v with disk := (compactOf v.disk []).2 }
      ∧ (compactOf v.disk []).2.take HEADER_SIZE = v.disk.take HEADER_SIZE := by
  have hon := hv.headerOnDisk
  have hdisk : (compactOf v.disk []).2 = v.disk.take HEADER_SIZE := compactedFile_nil hon.long
  have htake : (v.disk.take HEADER_SIZE).take HEADER_SIZE = v.disk.take HEADER_SIZE := by
    rw [List.take_take, Nat.min_self]
  refine ⟨⟨⟨?_, ?_, ?_⟩, hv.cached, hv.nodup⟩, by rw [hdisk, htake]⟩
  · rw [hdisk]
    exact hon.header.web.length.ge
  · rw [hdisk, htake]
    exact hon.header
  · rw [hdisk, htake]
    exact hon.above

/-- A step that writes no header grows the container behind its header. -/
theorem CallStep.unwritten (hstep : CallStep C K v pc v' pc') (hlong : HEADER_SIZE ≤ v.disk.length)
    (hcompact : ∀ activeFiles, pc ≠ .compacting activeFiles)
    (hheader : ∀ snap header, pc' ≠ .wroteHeader snap header) :
    Extends v.disk v'.disk ∧ v'.disk.take HEADER_SIZE = v.disk.take HEADER_SIZE := by
  cases hstep with
  | record heff =>
    obtain ⟨hext, htake, _⟩ := appendOf_spec hlong heff
    exact ⟨hext, htake⟩
  | index heff =>
    obtain ⟨hext, htake, _⟩ := appendOf_spec hlong heff
    exact ⟨hext, htake⟩
  | compact => exact absurd rfl (hcompact _)
  | header heff => exact absurd rfl (hheader _ _)
  | _ => exact ⟨Extends.refl hlong, rfl⟩

theorem Names.grow (h : Extends disk disk') (hheader : disk'.take HEADER_SIZE = disk.take HEADER_SIZE)
    (hoff : HEADER_SIZE ≤ (activeRange (disk.take HEADER_SIZE)).offset)
    (hnames : Names C K keys disk (disk.take HEADER_SIZE) files) :
    Names C K keys disk' (disk'.take HEADER_SIZE) files := by
  rw [hheader]
  exact hnames.mono h hoff

theorem CallStep.written {snap : Snapshot} {header : Bytes}
    (hstep : CallStep C K v pc v' (.wroteHeader snap header))
    (hlong : HEADER_SIZE ≤ v.disk.length) (hpc : CallSound C K password keys v.disk pc) :
    Names C K keys v'.disk (v'.disk.take HEADER_SIZE) snap.files := by
  cases hstep with
  | header heff =>
    obtain ⟨hext, hheader⟩ := writeHeaderOf_spec hlong heff
    obtain ⟨_, _, hoff, hat⟩ := hpc
    have hnames := (hat.mono hext hoff).names
    exact hheader.symm ▸ hnames

/-- **One step of one call**, other than the compaction itself: what the
container opens to is as before, or what the step committed. -/
theorem CallStep.sound (hC : C.aesGcm.Correct) (hstep : CallStep C K v pc v' pc')
    (hv : VaultSound C K password keys v files) (hpc : CallSound C K password keys v.disk pc)
    (hkeys : pc.readsKey → v.session = keys) (hcompact : ∀ activeFiles, pc ≠ .compacting activeFiles)
    (hsmall : ∀ snap range, pc = .appendedIndex snap range → range.offset < 2 ^ 32) :
    Extends v.disk v'.disk
      ∧ VaultSound C K password keys v' (pc'.committed files)
      ∧ CallSound C K password keys v'.disk pc' := by
  obtain ⟨hext, hok, hcall⟩ := hstep.ok hC hv.toVaultOk hpc hkeys hcompact hsmall
  refine ⟨hext, ⟨hok, ?_⟩, hcall⟩
  have hlong := hv.headerOnDisk.long
  by_cases hheader : ∃ snap header, pc' = .wroteHeader snap header
  · obtain ⟨snap, header, rfl⟩ := hheader
    exact hstep.written hlong hpc
  · have hno : ∀ snap header, pc' ≠ .wroteHeader snap header :=
      fun snap header heq => hheader ⟨snap, header, heq⟩
    obtain ⟨_, htake⟩ := hstep.unwritten hlong hcompact hno
    have hkeep : pc'.committed files = files := by
      cases pc' with
      | wroteHeader snap header => exact absurd rfl (hno snap header)
      | _ => rfl
    rw [hkeep]
    exact hv.names.grow hext htake hv.headerOnDisk.above

theorem Begin.sound {c : Call} (hC : C.aesGcm.Correct) (hbegin : Begin C K c v v' pc)
    (hv : VaultSound C K password keys v files) (hkeys : v.active → v.session = keys) :
    v'.disk = v.disk ∧ VaultSound C K password keys v' files
      ∧ CallSound C K password keys v'.disk pc := by
  have hnodup := Obj.nodup_delete hv.nodup
  have hdeleted : ∀ fileId, VaultSound C K password keys (v.setFiles (v.files.delete fileId)) files :=
    fun fileId => ⟨⟨hv.headerOnDisk, hv.cached, hnodup fileId⟩, hv.names⟩
  cases hbegin with
  | notUnlocked => exact ⟨rfl, hv, trivial⟩
  | addFile => exact ⟨rfl, hv, trivial⟩
  | removeFile fileId iv h hlisted =>
    exact ⟨rfl, hdeleted fileId,
      sealIndex_sound (v := v.setFiles _) hC (hkeys h) (hnodup fileId) iv⟩
  | removeMissing => exact ⟨rfl, hv, trivial⟩
  | removeInherited fileId iv h hmissing =>
    exact ⟨rfl, hdeleted fileId,
      sealIndex_sound (v := v.setFiles _) hC (hkeys h) (hnodup fileId) iv⟩
  | compactVault => exact ⟨rfl, hv, trivial⟩

end UsbVault.App
