import UsbVault.App.CrashConsistency

/-!
# A compaction that stops

The companion writes the records of the new container over its header.
With a file to carry over, the container is lost from the moment the
compaction takes effect: the header cannot be read any more and the call
cannot go on. Without files the header survives, but it names an index
that is gone until the call has written its header.
(`compaction_survives_iff`)
-/

namespace UsbVault.App

open Wire Js Companion

section Definitions

variable (C : WebCrypto) (K : IndexCodec)

/-- An unlocked vault whose index is the committed one, with the data of
its files. -/
structure Healthy (password : Bytes) (keys : VaultSession) (v : Vault) (d : Contents) : Prop where
  sound : VaultSound C K password keys v v.files
  session : v.session = keys
  active : v.active = true
  written : v.lastWritten ≤ v.mutations
  data : Holds C keys v.disk v.files d

/-- The header on disk names an index that lists all the files, and each
of them decrypts to its data. -/
def Survives (keys : VaultSession) (disk : Bytes) (files : Files) (d : Contents) : Prop :=
  ∃ files', Committed C K keys disk files'
    ∧ (∀ fileId, (files.get fileId).isSome → (files'.get fileId).isSome)
    ∧ ∀ fileId entry, files'.get fileId = some entry → (files.get fileId).isSome →
      RecordAt C keys disk entry.range (d fileId)

end Definitions

/-- The range the header on disk names. -/
def Vault.indexRange (v : Vault) : Entry := activeRange (v.disk.take HEADER_SIZE)

/-- The range of the first index written behind the header. -/
def firstIndexRange (K : IndexCodec) : Entry := ⟨HEADER_SIZE, (K.stringify []).length + 28⟩

/-- The positions at which a stopped compaction has lost nothing: before
the file is rewritten; or without files, before the new index is named,
when the old header names no index, or names the range the new one comes
to lie in; or without files, after. -/
def CompactionHolds (K : IndexCodec) (v : Vault) : Pc → Prop
  | .compacting _ => True
  | .appendedIndex _ _ | .writingHeader _ _ =>
    v.files = [] ∧ (v.indexRange.length = 0 ∨ v.indexRange = firstIndexRange K)
  | .wroteHeader _ _ | .parsing _ _ | .done => v.files = []
  | _ => v.files = [] ∧ v.indexRange.length = 0

/-- A record could be taken for a header, or a file has the id that an
assignment does not list. -/
def Mistakable (v : Vault) : Prop :=
  (v.files.get "__proto__").isSome ∨ ∃ fileId entry, v.files.get fileId = some entry
    ∧ (pread v.disk entry.offset entry.length).take 8 = VAULT_MAGIC

variable {C : WebCrypto} {K : IndexCodec} {password : Bytes} {keys : VaultSession}
variable {v v' v'' : Vault} {pc pc' : Pc} {d : Contents} {disk header : Bytes} {files : Files}

/-! ## A vault without files -/

theorem IndexAt.length_ge (hC : C.aesGcm.Correct) {range : Entry}
    (h : IndexAt C K keys disk range files) : (K.stringify []).length + 28 ≤ range.length := by
  obtain ⟨blob, files', hread, hdec, _⟩ := h
  rw [decryptVaultContainerIndex, Option.bind_eq_some_iff] at hdec
  obtain ⟨text, htext, hparse⟩ := hdec
  have hshort := K.shortest text files' hparse
  have hlen := aesGcmDecryptRaw_length hC htext
  rw [readBytesOf] at hread
  split at hread
  · cases hread
  · rename_i hok
    have hblob := congrArg List.length (Option.some.inj hread)
    rw [pread_length_of_le (by omega)] at hblob
    omega

theorem Names.of_short (hlen : disk.length = HEADER_SIZE)
    (habove : HEADER_SIZE ≤ (activeRange header).offset) (h : Names C K keys disk header files) :
    (activeRange header).length = 0 := by
  rw [Names] at h
  split at h
  · assumption
  · have hin := h.le_length
    omega

/-- A header and the first index behind it name that index or none. -/
theorem Names.of_first (hC : C.aesGcm.Correct)
    (hlen : disk.length = HEADER_SIZE + (firstIndexRange K).length)
    (habove : HEADER_SIZE ≤ (activeRange header).offset) (h : Names C K keys disk header files) :
    (activeRange header).length = 0 ∨ activeRange header = firstIndexRange K := by
  rw [Names] at h
  split at h
  · exact .inl ‹_›
  · have hin := h.le_length
    have hge := h.length_ge hC
    rw [firstIndexRange] at hlen ⊢
    generalize activeRange header = range at hin hge habove
    obtain ⟨offset, length⟩ := range
    refine .inr ?_
    simp only at hin hge habove hlen
    rw [Entry.mk.injEq]
    omega

theorem Committed.survives (h : Committed C K keys disk files) : Survives C K keys disk [] d :=
  ⟨files, h, fun _ hsome => (by cases hsome), fun _ _ _ hsome => (by cases hsome)⟩

/-- Where a compaction without files is, after its rewriting. -/
def Emptied (C : WebCrypto) (K : IndexCodec) (keys : VaultSession) (header : Bytes) (v : Vault) :
    Pc → Prop
  | .compacted newOffsets => v.disk = header ∧ newOffsets = []
  | .fetchingHeader | .fetchedHeader _ | .parsingFresh _ => v.disk = header
  | .appendingIndex snap blob => v.disk = header ∧ snap.files = []
      ∧ ∀ b, blob = some b → b.bytes.length = (firstIndexRange K).length
  | .appendedIndex snap range => v.disk.take HEADER_SIZE = header ∧ snap.files = []
      ∧ range = firstIndexRange K ∧ v.disk.length = HEADER_SIZE + (firstIndexRange K).length
  | .writingHeader snap _ => v.disk.take HEADER_SIZE = header ∧ snap.files = []
      ∧ IndexAt C K keys v.disk (firstIndexRange K) []
      ∧ v.disk.length = HEADER_SIZE + (firstIndexRange K).length
  | .wroteHeader _ _ | .parsing _ _ | .done => Committed C K keys v.disk []
  | .threw => True
  | _ => False

/-- What holds of a compaction without files after its rewriting. -/
structure Emptying (C : WebCrypto) (K : IndexCodec) (password : Bytes) (keys : VaultSession)
    (header : Bytes) (v : Vault) (pc : Pc) : Prop where
  ok : VaultOk C password keys v
  call : CallSound C K password keys v.disk pc
  session : v.session = keys
  files : v.files = []
  emptied : Emptied C K keys header v pc

theorem Emptied.step (hC : C.aesGcm.Correct) (hv : VaultOk C password keys v)
    (hfiles : v.files = []) (hcall : CallSound C K password keys v.disk pc) (hlen : header.length = HEADER_SIZE)
    (h : Emptied C K keys header v pc) (hstep : CallStep C K v pc v' pc')
    (hok' : VaultOk C password keys v') :
    Emptied C K keys header v' pc' ∧ v'.files = [] := by
  have hlong := hv.headerOnDisk.long
  cases hstep with
  | relocate =>
    obtain ⟨hdisk, rfl⟩ := h
    refine ⟨hdisk, ?_⟩
    show relocate v.files [] = []
    rw [hfiles]
    rfl
  | fetch heff => exact ⟨h, hfiles⟩
  | refresh => exact ⟨h, hfiles⟩
  | reseal iv hparse =>
    refine ⟨⟨h, hfiles, fun b hb => ?_⟩, hfiles⟩
    rw [Option.map_eq_some_iff] at hb
    obtain ⟨bytes, henc, rfl⟩ := hb
    rw [hfiles] at henc
    exact aesGcmEncryptRaw_length hC henc
  | index heff =>
    obtain ⟨hdisk, hsnap, hblob⟩ := h
    obtain ⟨_, htake, _⟩ := appendOf_spec hlong heff
    have hrange := appendOf_range heff
    have hsize := appendOf_length heff
    rw [hblob _ rfl, hdisk, hlen] at hrange hsize
    have hhdr : header.take HEADER_SIZE = header := List.take_of_length_le hlen.le
    rw [hdisk, hhdr] at htake
    exact ⟨⟨htake, hsnap, hrange, hsize⟩, hfiles⟩
  | commit =>
    obtain ⟨htake, hsnap, hrange, hsize⟩ := h
    obtain ⟨_, hat⟩ := hcall
    rw [hrange, hsnap] at hat
    exact ⟨⟨htake, hsnap, hat, hsize⟩, hfiles⟩
  | header heff =>
    have hnames := (CallStep.header (C := C) (K := K) heff).written hlong hcall
    rw [h.2.1] at hnames
    exact ⟨⟨_, hok'.headerOnDisk.readHeaderOf, hnames⟩, hfiles⟩
  | cache => exact ⟨h, hfiles⟩
  | finish hparse => exact ⟨h, hfiles⟩
  | throws hend => exact ⟨trivial, hfiles⟩
  | compact => exact h.elim
  | allow iv => exact h.elim
  | record heff => exact h.elim
  | list createdAt modifiedAt iv => exact h.elim

theorem Emptying.step (hC : C.aesGcm.Correct) (hlen : header.length = HEADER_SIZE)
    (h : Emptying C K password keys header v pc) (hstep : CallStep C K v pc v' pc') :
    Emptying C K password keys header v' pc' := by
  obtain ⟨_, hok, hcall⟩ := hstep.ok hC h.ok h.call (fun _ => h.session)
    (by rintro activeFiles rfl; exact h.emptied)
    (by
      rintro snap range rfl
      rw [h.emptied.2.2.1]
      show HEADER_SIZE < 2 ^ 32
      decide)
  obtain ⟨hemptied, hfiles⟩ := h.emptied.step hC h.ok h.files h.call hlen hstep hok
  exact ⟨hok, hcall, hstep.session_eq.trans h.session, hfiles, hemptied⟩

/-- **A compaction without files**: before its rewriting nothing has
changed; after it, `Emptying` holds. -/
theorem CallRun.emptying (hC : C.aesGcm.Correct) (hv : Healthy C K password keys v d)
    (hnil : v.files = []) (hrun : CallRun C K .compactVault v v' pc) :
    (v' = v ∧ pc = .compacting []) ∨ Emptying C K password keys (v.disk.take HEADER_SIZE) v' pc
      ∨ v' = v ∧ pc = .threw := by
  have hlen := hv.sound.headerOnDisk.header.web.length
  induction hrun with
  | start hbegin =>
    cases hbegin with
    | notUnlocked _ hinactive => rw [hv.active] at hinactive; cases hinactive
    | compactVault hactive =>
      rw [hnil]
      exact .inl ⟨rfl, rfl⟩
  | step _ hstep ih =>
    rcases ih with ⟨rfl, rfl⟩ | hempty | ⟨rfl, rfl⟩
    · cases hstep with
      | compact =>
        refine .inr (.inl ⟨(hv.sound.toVaultOk.compact_empty).1, trivial, hv.session, hnil, ?_,
          rfl⟩)
        exact compactedFile_nil hv.sound.headerOnDisk.long
      | throws hend => exact .inr (.inr ⟨rfl, rfl⟩)
    · exact .inr (.inl (hempty.step hC hlen hstep))
    · cases hstep with
      | throws hend => cases hend

/-- Without files to list, an index that decrypts is all that is asked. -/
theorem survives_nil_iff (hon : HeaderOnDisk C password keys disk) :
    Survives C K keys disk [] d ↔ ∃ files', Names C K keys disk (disk.take HEADER_SIZE) files' := by
  constructor
  · rintro ⟨files', ⟨header, hread, hnames⟩, _⟩
    rw [hon.readHeaderOf] at hread
    cases hread
    exact ⟨files', hnames⟩
  · rintro ⟨files', hnames⟩
    exact Committed.survives ⟨_, hon.readHeaderOf, hnames⟩

theorem names_of_length_zero (h : (activeRange header).length = 0) :
    Names C K keys disk header [] := by
  rw [Names, if_pos h]
  exact SameMap.refl []

/-- At the positions of `CompactionHolds` the empty index is committed. -/
theorem Emptying.committed (h : Emptying C K password keys (v.disk.take HEADER_SIZE) v' pc)
    (hlive : pc ≠ .threw) (hholds : CompactionHolds K v pc) : Committed C K keys v'.disk [] := by
  have hemptied := h.emptied
  have hread := h.ok.headerOnDisk.readHeaderOf
  have hshort : v'.disk = v.disk.take HEADER_SIZE → v.indexRange.length = 0 →
      Committed C K keys v'.disk [] := by
    intro hdisk hzero
    refine ⟨_, hread, names_of_length_zero ?_⟩
    rw [hdisk, List.take_take, Nat.min_self]
    exact hzero
  have hfirst : v'.disk.take HEADER_SIZE = v.disk.take HEADER_SIZE →
      IndexAt C K keys v'.disk (firstIndexRange K) [] →
      v.indexRange.length = 0 ∨ v.indexRange = firstIndexRange K →
      Committed C K keys v'.disk [] := by
    rintro htake hat (hzero | hrange)
    · exact ⟨_, hread, names_of_length_zero (by rw [htake]; exact hzero)⟩
    · refine ⟨_, hread, IndexAt.names ?_⟩
      rw [Vault.indexRange] at hrange
      rw [htake, hrange]
      exact hat
  cases pc with
  | compacted => exact hshort hemptied.1 hholds.2
  | fetchingHeader => exact hshort hemptied hholds.2
  | fetchedHeader => exact hshort hemptied hholds.2
  | parsingFresh => exact hshort hemptied hholds.2
  | appendingIndex => exact hshort hemptied.1 hholds.2
  | appendedIndex snap range =>
    obtain ⟨htake, hsnap, hrange, _⟩ := hemptied
    have hat := h.call.2
    rw [hrange, hsnap] at hat
    exact hfirst htake hat hholds.2
  | writingHeader => exact hfirst hemptied.1 hemptied.2.2.1 hholds.2
  | wroteHeader => exact hemptied
  | parsing => exact hemptied
  | done => exact hemptied
  | threw => exact absurd rfl hlive
  | compacting => exact hemptied.elim
  | checkingCapacity => exact hemptied.elim
  | appendingRecord => exact hemptied.elim
  | appendedRecord => exact hemptied.elim

theorem Emptying.holds (hC : C.aesGcm.Correct) (habove : HEADER_SIZE ≤ v.indexRange.offset)
    (hlen : (v.disk.take HEADER_SIZE).length = HEADER_SIZE) (hnil : v.files = [])
    (h : Emptying C K password keys (v.disk.take HEADER_SIZE) v' pc) (hlive : pc ≠ .threw)
    (hsurvives : Survives C K keys v'.disk [] d) : CompactionHolds K v pc := by
  have hemptied := h.emptied
  rw [survives_nil_iff h.ok.headerOnDisk] at hsurvives
  obtain ⟨files', hnames⟩ := hsurvives
  have hshort : v'.disk = v.disk.take HEADER_SIZE → v.files = [] ∧ v.indexRange.length = 0 := by
    intro hdisk
    refine ⟨hnil, ?_⟩
    rw [hdisk, List.take_take, Nat.min_self] at hnames
    exact hnames.of_short hlen habove
  have hfirst : v'.disk.take HEADER_SIZE = v.disk.take HEADER_SIZE →
      v'.disk.length = HEADER_SIZE + (firstIndexRange K).length →
      v.files = [] ∧ (v.indexRange.length = 0 ∨ v.indexRange = firstIndexRange K) := by
    intro htake hsize
    rw [htake] at hnames
    exact ⟨hnil, hnames.of_first hC hsize habove⟩
  cases pc with
  | compacting => trivial
  | compacted => exact hshort hemptied.1
  | fetchingHeader => exact hshort hemptied
  | fetchedHeader => exact hshort hemptied
  | parsingFresh => exact hshort hemptied
  | appendingIndex => exact hshort hemptied.1
  | appendedIndex => exact hfirst hemptied.1 hemptied.2.2.2
  | writingHeader => exact hfirst hemptied.1 hemptied.2.2.2
  | wroteHeader => exact hnil
  | parsing => exact hnil
  | done => exact hnil
  | threw => exact absurd rfl hlive
  | checkingCapacity => exact hemptied.elim
  | appendingRecord => exact hemptied.elim
  | appendedRecord => exact hemptied.elim

/-! ## A vault with files -/

theorem mem_activeFilesOf {fileId : String} {range : Entry}
    (h : (fileId, range) ∈ activeFilesOf files) :
    ∃ entry, (fileId, entry) ∈ files ∧ range = entry.range := by
  have hall : ∀ (l : Files) (o : Obj Entry),
      (∀ p ∈ o, ∃ entry, (p.1, entry) ∈ files ∧ p.2 = entry.range) → l ⊆ files →
      ∀ p ∈ l.foldl (fun o p => if p.2.offset ≠ 0 ∧ 0 < p.2.length then
        o.assign p.1 p.2.range else o) o, ∃ entry, (p.1, entry) ∈ files ∧ p.2 = entry.range := by
    intro l
    induction l with
    | nil => intro o ho _; exact ho
    | cons q l ih =>
      intro o ho hsub
      rw [List.foldl_cons]
      refine ih _ ?_ fun p hp => hsub (List.mem_cons_of_mem _ hp)
      split
      · intro p hp
        rcases Obj.mem_assign hp with hold | rfl
        · exact ho p hold
        · exact ⟨q.2, hsub List.mem_cons_self, rfl⟩
      · exact ho
  exact hall files.entries [] (fun p hp => by cases hp) (files.entries_perm.subset) _ h

theorem activeFilesOf_ne_nil {fileId : String} {entry : VaultIndexEntry}
    (hmem : (fileId, entry) ∈ files) (hid : fileId ≠ "__proto__") (hoff : entry.offset ≠ 0)
    (hlen : 0 < entry.length) : activeFilesOf files ≠ [] := by
  have hall : ∀ (l : Files) (o : Obj Entry), o ≠ [] ∨ (fileId, entry) ∈ l →
      l.foldl (fun o p => if p.2.offset ≠ 0 ∧ 0 < p.2.length then
        o.assign p.1 p.2.range else o) o ≠ [] := by
    intro l
    induction l with
    | nil =>
      intro o ho
      exact ho.resolve_right fun h => by cases h
    | cons q l ih =>
      intro o ho
      rw [List.foldl_cons]
      apply ih
      rcases ho with hne | hin
      · left
        split
        · exact Obj.assign_ne_nil _ _ (.inl hne)
        · exact hne
      rcases List.mem_cons.mp hin with rfl | hrest
      · left
        rw [if_pos ⟨hoff, hlen⟩]
        exact Obj.assign_ne_nil _ _ (.inr hid)
      · exact .inr hrest
  exact hall files.entries [] (.inr (files.entries_perm.symm.subset hmem))

theorem RecordAt.readable (hC : C.aesGcm.Correct) {range : Entry} {data : Bytes}
    (h : RecordAt C keys disk range data) :
    28 ≤ range.length ∧ range.length ≤ MAX_IO_SIZE ∧ range.offset + range.length ≤ disk.length := by
  obtain ⟨bytes, r, hread, hdec, _⟩ := h
  rw [decryptFileRecord, Option.bind_eq_some_iff] at hdec
  obtain ⟨plaintext, hplain, _⟩ := hdec
  have hlen := aesGcmDecryptRaw_length hC hplain
  rw [readBytesOf] at hread
  split at hread
  · cases hread
  · rename_i hok
    have hbytes := congrArg List.length (Option.some.inj hread)
    rw [pread_length_of_le (by omega)] at hbytes
    omega

/-- **With a file to carry over, the rewritten container has no header.** -/
theorem compact_destroys (hC : C.aesGcm.Correct) (hv : Healthy C K password keys v d)
    (hfiles : v.files ≠ []) (hclear : ¬Mistakable v) :
    readHeaderOf (compactOf v.disk (activeFilesOf v.files)).2 = none := by
  rw [Mistakable, not_or] at hclear
  obtain ⟨hproto, hmagic⟩ := hclear
  have hlisted : ∀ fileId entry, (fileId, entry) ∈ v.files →
      v.files.get fileId = some entry ∧ HEADER_SIZE ≤ entry.offset
        ∧ RecordAt C keys v.disk entry.range (d fileId) := by
    intro fileId entry hmem
    have hget := Obj.get_of_mem hv.sound.nodup hmem
    exact ⟨hget, hv.data fileId entry hget⟩
  have hpositive : 0 < HEADER_SIZE := by decide
  have hne : activeFilesOf v.files ≠ [] := by
    obtain ⟨⟨fileId, entry⟩, hmem⟩ := List.exists_mem_of_ne_nil _ hfiles
    obtain ⟨hget, hoff, hat⟩ := hlisted fileId entry hmem
    obtain ⟨hlen, _, _⟩ := hat.readable hC
    refine activeFilesOf_ne_nil hmem ?_ (by omega) (Nat.lt_of_lt_of_le (by decide) hlen)
    rintro rfl
    rw [hget] at hproto
    exact hproto rfl
  cases hentries : (activeFilesOf v.files).entries with
  | nil =>
    have hperm := (activeFilesOf v.files).entries_perm
    rw [hentries] at hperm
    exact absurd hperm.nil_eq.symm hne
  | cons p rest =>
    obtain ⟨fileId, range⟩ := p
    have hactive : (fileId, range) ∈ activeFilesOf v.files := by
      apply (activeFilesOf v.files).entries_perm.subset
      rw [hentries]
      exact List.mem_cons_self
    obtain ⟨entry, hmem, rfl⟩ := mem_activeFilesOf hactive
    obtain ⟨hget, hoff, hat⟩ := hlisted fileId entry hmem
    obtain ⟨hlen, hmax, hin⟩ := hat.readable hC
    have hkeep : ¬skipped v.disk entry.range := by
      rw [skipped]
      simp only [VaultIndexEntry.range] at hlen hmax hin ⊢
      omega
    have htake := compactedFile_take hentries hkeep (n := 8) (by omega)
    rw [readHeaderOf]
    split
    · rfl
    · rw [if_pos]
      intro heq
      exact hmagic ⟨fileId, entry, hget, htake.symm.trans heq⟩

/-- **A compaction with files** goes no further than its rewriting. -/
theorem CallRun.destroyed (hC : C.aesGcm.Correct) (hv : Healthy C K password keys v d)
    (hfiles : v.files ≠ []) (hclear : ¬Mistakable v) (hrun : CallRun C K .compactVault v v' pc) :
    (v' = v ∧ pc = .compacting (activeFilesOf v.files)) ∨ pc = .threw
      ∨ readHeaderOf v'.disk = none ∧ ((∃ newOffsets, pc = .compacted newOffsets) ∨ pc = .fetchingHeader) := by
  induction hrun with
  | start hbegin =>
    cases hbegin with
    | notUnlocked _ hinactive => rw [hv.active] at hinactive; cases hinactive
    | compactVault hactive => exact .inl ⟨rfl, rfl⟩
  | step _ hstep ih =>
    rcases ih with ⟨rfl, rfl⟩ | rfl | ⟨hnone, ⟨newOffsets, rfl⟩ | rfl⟩
    · cases hstep with
      | compact => exact .inr (.inr ⟨compact_destroys hC hv hfiles hclear, .inl ⟨_, rfl⟩⟩)
      | throws hend => exact .inr (.inl rfl)
    · cases hstep with
      | throws hend => cases hend
    · cases hstep with
      | relocate => exact .inr (.inr ⟨hnone, .inr rfl⟩)
      | throws hend => exact .inr (.inl rfl)
    · cases hstep with
      | fetch heff => rw [hnone] at heff; cases heff
      | throws hend => exact .inr (.inl rfl)

/-! ## The stop -/

theorem CallRun.before_compaction {activeFiles : Obj Entry}
    (hrun : CallRun C K .compactVault v v' (.compacting activeFiles)) : v' = v := by
  cases hrun with
  | start hbegin => cases hbegin; rfl
  | step hrun hstep => cases hstep

theorem CompactionHolds.of_files (h : CompactionHolds K v pc) (hfiles : v.files ≠ []) :
    ∃ activeFiles, pc = .compacting activeFiles := by
  cases pc with
  | compacting activeFiles => exact ⟨activeFiles, rfl⟩
  | wroteHeader => exact absurd h hfiles
  | parsing => exact absurd h hfiles
  | done => exact absurd h hfiles
  | _ => exact absurd h.1 hfiles

theorem Healthy.survives (hv : Healthy C K password keys v d) :
    Survives C K keys v.disk v.files d :=
  ⟨v.files, hv.sound.onDisk.committed, fun _ h => h, fun fileId entry hget _ =>
    (hv.data fileId entry hget).2⟩

/-- **A stopped compaction** loses nothing at the positions of
`CompactionHolds`, and at those only, unless a record could be taken for
a header. -/
theorem compaction_survives_iff (hC : C.aesGcm.Correct) (hv : Healthy C K password keys v d)
    (hstop : StopsAt C K .compactVault v pc v') :
    (CompactionHolds K v pc → Survives C K keys v'.disk v.files d)
      ∧ (¬Mistakable v → Survives C K keys v'.disk v.files d → CompactionHolds K v pc) := by
  obtain ⟨hrun, hlive⟩ := hstop.run
  by_cases hnil : v.files = []
  · rcases hrun.emptying hC hv hnil with ⟨rfl, rfl⟩ | hempty | ⟨rfl, rfl⟩
    · exact ⟨fun _ => hv.survives, fun _ _ => trivial⟩
    · rw [hnil]
      exact ⟨fun hholds => (hempty.committed hlive hholds).survives,
        fun _ => hempty.holds hC hv.sound.headerOnDisk.above
          hv.sound.headerOnDisk.header.web.length hnil hlive⟩
    · exact absurd rfl hlive
  · constructor
    · intro hholds
      obtain ⟨activeFiles, rfl⟩ := hholds.of_files hnil
      rw [hrun.before_compaction]
      exact hv.survives
    · intro hclear hsurvives
      obtain ⟨files', ⟨header, hread, _⟩, _⟩ := hsurvives
      rcases hrun.destroyed hC hv hnil hclear with ⟨rfl, rfl⟩ | hthrew | ⟨hnone, _⟩
      · trivial
      · exact absurd hthrew hlive
      · rw [hnone] at hread
        cases hread

theorem sampleVault_healthy : ∃ u info,
    unlock transparentCrypto indexJson sampleDisk samplePassword = some u
      ∧ parseVaultHeader u.headerBytes = .ok info ∧ u.files = []
      ∧ (u.vault info).indexRange.length = 40 ∧ u.disk.length = HEADER_SIZE + 80
      ∧ ∀ d, Healthy transparentCrypto indexJson samplePassword u.session (u.vault info) d := by
  obtain ⟨u, info, hvault, _, hfiles, hdisk, hrange⟩ := sampleVault_intact fun _ => []
  refine ⟨u, info, hvault.opens, hvault.parsed, hfiles, hrange, hdisk, fun d => ?_⟩
  refine ⟨(Between.opened hvault).sound, rfl, rfl, Nat.le_refl _, ?_⟩
  intro fileId entry hget
  rw [show (u.vault info).files = [] from hfiles] at hget
  cases hget

theorem sampleVault_compacts {u : Opened} (info : VaultHeaderInfo) (hfiles : u.files = []) :
    ∃ v', StopsAt transparentCrypto indexJson .compactVault (u.vault info) (.compacted []) v' := by
  have hbegin : Begin transparentCrypto indexJson .compactVault (u.vault info) (u.vault info)
      (.compacting []) := by
    have hactive : activeFilesOf (u.vault info).files = [] := by
      rw [show (u.vault info).files = [] from hfiles]
      rfl
    rw [← hactive]
    exact .compactVault rfl
  exact ⟨_, .stopped ((CallRun.start hbegin).step .compact) nofun⟩

theorem compaction_survives_iff_sample : ∃ u info v',
    unlock transparentCrypto indexJson sampleDisk samplePassword = some u
      ∧ StopsAt transparentCrypto indexJson .compactVault (u.vault info) (.compacted []) v'
      ∧ (CompactionHolds indexJson (u.vault info) (.compacted []) →
          Survives transparentCrypto indexJson u.session v'.disk (u.vault info).files fun _ => [])
      ∧ (¬Mistakable (u.vault info) →
          Survives transparentCrypto indexJson u.session v'.disk (u.vault info).files (fun _ => []) →
          CompactionHolds indexJson (u.vault info) (.compacted [])) := by
  obtain ⟨u, info, hopens, _, hfiles, _, _, hhealthy⟩ := sampleVault_healthy
  obtain ⟨v', hstop⟩ := sampleVault_compacts info hfiles
  exact ⟨u, info, v', hopens, hstop,
    compaction_survives_iff (transparentAead_correct 12) (hhealthy fun _ => []) hstop⟩

/-- **A stop after the rewriting loses the index**: the header of the
sample vault names a range the compaction has cut off. -/
theorem stopped_compaction_loses_index : ∃ u info v',
    unlock transparentCrypto indexJson sampleDisk samplePassword = some u
      ∧ parseVaultHeader u.headerBytes = .ok info
      ∧ StopsAt transparentCrypto indexJson .compactVault (u.vault info) (.compacted []) v'
      ∧ ¬Survives transparentCrypto indexJson u.session v'.disk (u.vault info).files
          fun _ => [] := by
  obtain ⟨u, info, hopens, hparse, hfiles, hrange, _, hhealthy⟩ := sampleVault_healthy
  obtain ⟨v', hstop⟩ := sampleVault_compacts info hfiles
  have hv := hhealthy fun _ => []
  refine ⟨u, info, v', hopens, hparse, hstop, fun hsurvives => ?_⟩
  obtain ⟨hrun, hlive⟩ := hstop.run
  rw [show (u.vault info).files = [] from hfiles] at hsurvives
  rcases hrun.emptying (transparentAead_correct 12) hv hfiles with ⟨_, hpc⟩ | hempty | ⟨_, hpc⟩
  · cases hpc
  · obtain ⟨_, hzero⟩ := hempty.holds (transparentAead_correct 12) hv.sound.headerOnDisk.above
      hv.sound.headerOnDisk.header.web.length hfiles hlive hsurvives
    rw [hrange] at hzero
    cases hzero
  · cases hpc

end UsbVault.App
