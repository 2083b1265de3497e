import UsbVault.Companion.Mutators

/-!
# Compaction of the container

What `compactVault` leaves in `VAULT.bin`. The header goes to offset 0 by
a positional write, which does not move the position of the handle; the
records follow by sequential writes, which start at the position, that
is at offset 0 again. So the records land on the header
(`compactedFile`), and the offsets the companion returns point
`HEADER_SIZE` bytes too far.
-/

namespace UsbVault.Companion

open Wire Effect Prog FsOp

/-! ## The result as a function of the old file -/

/-- The conditions under which the loop passes over a record. -/
def skipped (f : Bytes) (entry : Entry) : Prop :=
  entry.offset = 0 ∨ entry.length = 0 ∨ MAX_IO_SIZE < entry.length
    ∨ f.length < entry.offset + entry.length

instance (f : Bytes) (entry : Entry) : Decidable (skipped f entry) :=
  inferInstanceAs (Decidable (_ ∨ _ ∨ _ ∨ _))

/-- What the loop gathers from the file `f`. -/
def gather (f : Bytes) : Js.Obj Entry → Gathered → Gathered
  | [], acc => acc
  | (fileId, entry) :: rest, acc =>
    if skipped f entry then gather f rest acc
    else gather f rest (acc.push fileId entry (pread f entry.offset entry.length))

def gathered (f : Bytes) (activeFiles : Js.Obj Entry) : Gathered :=
  gather f activeFiles.entries .start

/-- The header the compaction reads. -/
def oldHeader (f : Bytes) : Bytes := headerBuffer (pread f 0 HEADER_SIZE)

/-- The new content of `VAULT.bin`: header and records both written from
offset 0. -/
def compactedFile (f : Bytes) (activeFiles : Js.Obj Entry) : Bytes :=
  pwrite (oldHeader f) 0 (gathered f activeFiles).records.flatten

/-- What the call returns. -/
def compactedResult (f : Bytes) (activeFiles : Js.Obj Entry) : Compacted :=
  ⟨(gathered f activeFiles).newOffsets, f.length, (gathered f activeFiles).writeOffset⟩

@[simp] theorem oldHeader_length (f : Bytes) : (oldHeader f).length = HEADER_SIZE := by
  rw [oldHeader, headerBuffer, List.length_append, zeros_length, pread_length]
  omega

theorem oldHeader_of_le {f : Bytes} (h : HEADER_SIZE ≤ f.length) :
    oldHeader f = f.take HEADER_SIZE := by
  have hlen : (f.take HEADER_SIZE).length = HEADER_SIZE := by
    rw [List.length_take]
    omega
  rw [oldHeader, headerBuffer, pread, List.drop_zero, hlen, Nat.sub_self]
  exact List.append_nil _

theorem compactedFile_length (f : Bytes) (activeFiles : Js.Obj Entry) :
    (compactedFile f activeFiles).length
      = max HEADER_SIZE (gathered f activeFiles).records.flatten.length := by
  rw [compactedFile, pwrite_length _ (Nat.zero_le _), oldHeader_length, Nat.zero_add]

/-! ## The two loops -/

variable {I : Fs → Prop} {fs : Fs} {f : Bytes}

theorem completes_readRecords {readFd : Nat} (hopen : Opened f readFd fs) (hs : I fs)
    (entries : Js.Obj Entry) :
    ∀ acc, Completes Io I (fun acc' t => acc' = gather f entries acc ∧ t = fs)
      (readRecords readFd entries acc) fs := by
  induction entries with
  | nil => intro acc; exact completes_done hs ⟨rfl, rfl⟩
  | cons p entries ih =>
    intro acc
    obtain ⟨fileId, entry⟩ := p
    rw [readRecords, gather]
    by_cases hzero : entry.offset = 0 ∨ entry.length = 0
    · have hskip : skipped f entry := by
        rcases hzero with h | h
        · exact .inl h
        · exact .inr (.inl h)
      rw [if_pos hzero, if_pos hskip]
      exact ih acc
    by_cases hbig : MAX_IO_SIZE < entry.length
    · have hskip : skipped f entry := .inr (.inr (.inl hbig))
      rw [if_neg hzero, if_pos hbig, if_pos hskip]
      exact ih acc
    rw [if_neg hzero, if_neg hbig]
    refine completes_bind (hopen.completes_read hs entry.length entry.offset) ?_
    rintro _ _ _ ⟨rfl, rfl⟩
    -- a short read passes over the record too
    by_cases hshort : (pread f entry.offset entry.length).length < entry.length
    · have hskip : skipped f entry := by
        rw [pread_length] at hshort
        exact .inr (.inr (.inr (by omega)))
      rw [if_pos hshort, if_pos hskip]
      exact ih acc
    · have hkeep : ¬skipped f entry := by
        rw [pread_length] at hshort
        rw [skipped]
        omega
      rw [if_neg hshort, if_neg hkeep]
      exact ih _

/-- Sequential writes write the concatenation at the handle's position. -/
theorem completes_writeRecords (writeFd : Nat) (hI : ∀ t, t.vaultBin = some f → I t)
    (records : List Bytes) :
    ∀ (fs : Fs) (pos : Nat) (g : Bytes), fs.vaultBin = some f →
      fs.handles[writeFd]? = some (.compact, pos) → fs.compact = some g →
      pos ≤ g.length →
      Completes Io I (fun _ t => t.vaultBin = some f
        ∧ t.compact = some (pwrite g pos records.flatten))
        (writeRecords writeFd records) fs := by
  induction records with
  | nil =>
    intro fs pos g hf _ hg _
    exact completes_done (hI fs hf) ⟨hf, by simpa using hg⟩
  | cons buf records ih =>
    intro fs pos g hf hfd hg hpos
    refine completes_bind (M := fun _ t => t.vaultBin = some f
      ∧ t.handles[writeFd]? = some (.compact, pos + buf.length)
      ∧ t.compact = some (pwrite g pos buf)) ?_ ?_
    · refine completes_write hfd hg (hI fs hf) (fun n => hI _ hf) ⟨hf, ?_, rfl⟩
      have hlt : writeFd < fs.handles.length := by
        rw [List.getElem?_eq_some_iff] at hfd
        exact hfd.1
      simp [Fs.written, hlt]
    · rintro _ t _ ⟨htf, htfd, htg⟩
      have hfit : pos + buf.length ≤ (pwrite g pos buf).length := by
        rw [pwrite_length buf hpos]
        omega
      have hrest := ih t (pos + buf.length) (pwrite g pos buf) htf htfd htg hfit
      rwa [pwrite_pwrite buf records.flatten hpos, ← List.flatten_cons] at hrest

/-! ## The whole call -/

/-- `VAULT.bin` is the old file or the compacted one. -/
def Swapped (f : Bytes) (activeFiles : Js.Obj Entry) (fs : Fs) : Prop :=
  fs.vaultBin = some f ∨ fs.vaultBin = some (compactedFile f activeFiles)

/-- The header is read from `VAULT.bin`. -/
theorem completes_readHeader (hI : ∀ t, t.vaultBin = some f → I t) {fd : Nat}
    (hopen : Opened f fd fs) :
    Completes Io I (fun header t => header = oldHeader f ∧ t.vaultBin = some f)
      (ensuring (do
        let got ← perform (read fd HEADER_SIZE 0)
        pure (headerBuffer got)) (perform (close fd))) fs := by
  refine completes_finally_close fd ?_
  refine completes_bind (hopen.completes_read (hI fs hopen.1) HEADER_SIZE 0) ?_
  rintro _ _ hs ⟨rfl, rfl⟩
  exact completes_done hs ⟨rfl, hopen.1⟩

theorem completes_writeCompact (hI : ∀ t, t.vaultBin = some f → I t) {writeFd : Nat}
    (header : Bytes) (records : List Bytes) (hf : fs.vaultBin = some f)
    (hc : fs.compact = some []) (hfd : fs.handles[writeFd]? = some (.compact, 0)) :
    Completes Io I (fun _ t => t.vaultBin = some f
        ∧ t.compact = some (pwrite header 0 records.flatten))
      (ensuring (do
        perform (write writeFd header (some 0))
        writeRecords writeFd records
        perform (datasync writeFd)) (perform (close writeFd))) fs := by
  refine completes_finally_close writeFd ?_
  refine completes_bind (M := fun _ t => t.vaultBin = some f
    ∧ t.handles[writeFd]? = some (.compact, 0) ∧ t.compact = some header) ?_ ?_
  · refine completes_write hfd hc (hI fs hf) (fun n => hI _ hf) ⟨hf, hfd, ?_⟩
    exact congrArg some (pwrite_end [] header)
  rintro _ t _ ⟨htf, htfd, htc⟩
  refine completes_bind (completes_writeRecords writeFd hI records t 0 header htf htfd htc
    (Nat.zero_le _)) ?_
  intro _ u hu huc
  exact completes_readOnly rfl rfl hu rfl huc

/-- **`VAULT.bin` is replaced in one step**: at every point it is the old
file or the compacted one, and the compacted one once the call returns. -/
theorem completes_compactVault {mountPoint : String} (activeFiles : Js.Obj Entry)
    (hmount : validateMountPoint mountPoint = pure ()) (hf : fs.vaultBin = some f) :
    Completes Io (Swapped f activeFiles)
      (fun r t => r = compactedResult f activeFiles
        ∧ t.vaultBin = some (compactedFile f activeFiles))
      (compactVaultImpl mountPoint activeFiles) fs := by
  have hI : ∀ t, t.vaultBin = some f → Swapped f activeFiles t := fun t ht => .inl ht
  have hpath : vaultBinPath mountPoint = pure .vaultBin := by
    rw [vaultBinPath, hmount]
    rfl
  have hstat : (stat .vaultBin).effect fs = some (f.length, fs) := by
    simp only [FsOp.effect, Fs.content, hf, Option.map_some]
  rw [compactVaultImpl, hpath]
  refine completes_bind (M := fun n t => n = f.length ∧ t = fs) ?_ ?_
  · exact completes_readOnly rfl rfl (hI fs hf) hstat ⟨rfl, rfl⟩
  rintro _ _ _ ⟨rfl, rfl⟩
  -- the header
  refine completes_bind (completes_openVaultBin (by simp) hf hI) ?_
  intro fd t _ hopen
  refine completes_bind (completes_readHeader hI hopen) ?_
  rintro _ u _ ⟨rfl, huf⟩
  -- the records
  refine completes_bind (completes_openVaultBin (by simp) huf hI) ?_
  intro readFd v hv hread
  refine completes_bind (M := fun acc w => acc = gathered f activeFiles
    ∧ w.vaultBin = some f) ?_ ?_
  · refine completes_finally_close readFd ?_
    have hloop := completes_readRecords hread hv activeFiles.entries .start
    exact ⟨hloop.1.mono fun acc w _ h => ⟨h.1, by rw [h.2]; exact hread.1⟩, hloop.2⟩
  rintro _ w _ ⟨rfl, hwf⟩
  -- the temporary file
  refine completes_bind (completes_openCompact fun x hx => hI x (hx.trans hwf)) ?_
  rintro writeFd x hx ⟨hxf, hxc, hwriteFd⟩
  refine completes_bind (completes_writeCompact hI (oldHeader f)
    (gathered f activeFiles).records (hxf.trans hwf) hxc hwriteFd) ?_
  rintro _ y hy ⟨-, hyc⟩
  refine completes_bind (completes_rename hyc hy fun z hz => .inr hz) ?_
  exact fun _ z hz hq => completes_done hz ⟨rfl, hq⟩

/-! ## Short reads and writes -/

variable {Short : FsOp → Fs → Prop}

/-- `VAULT.bin` has a whole header at least. -/
def Long (fs : Fs) : Prop := ∃ f, fs.vaultBin = some f ∧ HEADER_SIZE ≤ f.length

/-- The temporary file has a whole header, and the handle stands in it. -/
def Begun (f : Bytes) (writeFd : Nat) (fs : Fs) : Prop :=
  fs.vaultBin = some f ∧ ∃ pos g, fs.handles[writeFd]? = some (.compact, pos)
    ∧ fs.compact = some g ∧ pos ≤ g.length ∧ HEADER_SIZE ≤ g.length

theorem headerBuffer_length (got : Bytes) : HEADER_SIZE ≤ (headerBuffer got).length := by
  rw [headerBuffer, List.length_append, zeros_length]
  omega

theorem returns_readRecords {readFd : Nat} (hs : I fs) (entries : Js.Obj Entry) :
    ∀ acc, Returns (FileIo Short) I (fun _ t => t = fs) (readRecords readFd entries acc) fs := by
  induction entries with
  | nil => intro acc; exact returns_done hs rfl
  | cons p entries ih =>
    intro acc
    obtain ⟨fileId, entry⟩ := p
    rw [readRecords]
    split
    · exact ih acc
    split
    · exact ih acc
    refine returns_bind (returns_read hs) ?_
    rintro got _ _ rfl
    split
    · exact ih acc
    · exact ih _

/-- However little of it is written, a record keeps the header in place. -/
theorem Begun.write {writeFd : Nat} (h : Begun f writeFd fs) (hI : ∀ t, t.vaultBin = some f → I t)
    (buf : Bytes) :
    Returns (FileIo Short) I (fun _ t => Begun f writeFd t) (perform (write writeFd buf none)) fs := by
  obtain ⟨hf, pos, g, hfd, hg, hpos, hlen⟩ := h
  have hafter : ∀ b, Begun f writeFd (fs.written writeFd .compact pos g none b) := by
    intro b
    have hlt : writeFd < fs.handles.length := (List.getElem?_eq_some_iff.mp hfd).1
    refine ⟨hf, pos + b.length, pwrite g pos b, ?_, rfl, ?_, ?_⟩
    · simp [Fs.written, hlt]
    · rw [pwrite_length b hpos]
      exact Nat.le_max_right _ _
    · rw [pwrite_length b hpos]
      exact Nat.le_trans hlen (Nat.le_max_left _ _)
  exact returns_write hfd hg (hI fs hf) (fun n => hI _ hf) (hafter buf) fun _ n => hafter _

theorem returns_writeRecords {writeFd : Nat} (hI : ∀ t, t.vaultBin = some f → I t)
    (records : List Bytes) :
    ∀ fs, Begun f writeFd fs →
      Returns (FileIo Short) I (fun _ t => Begun f writeFd t) (writeRecords writeFd records) fs := by
  induction records with
  | nil => exact fun fs h => returns_done (hI fs h.1) h
  | cons buf records ih =>
    intro fs h
    exact returns_bind (h.write hI buf) fun _ t _ ht => ih t ht

/-- **A whole header is kept** by a compaction whose header write is not
short, however its reads and its other writes come out. -/
theorem returns_compactVault (mountPoint : String) (activeFiles : Js.Obj Entry)
    (hf : fs.vaultBin = some f) (hlen : HEADER_SIZE ≤ f.length)
    (hwhole : ∀ fd t buf, t.handles[fd]? = some (.compact, 0) → ¬Short (write fd buf (some 0)) t) :
    Returns (FileIo Short) Long (fun _ _ => True) (compactVaultImpl mountPoint activeFiles) fs := by
  have hI : ∀ t, t.vaultBin = some f → Long t := fun t ht => ⟨f, ht, hlen⟩
  rw [compactVaultImpl]
  refine returns_bind (returns_vaultBinPath mountPoint (hI fs hf)) ?_
  rintro _ _ _ ⟨rfl, rfl⟩
  refine returns_bind (M := fun _ t => t.vaultBin = some f) ?_ ?_
  · exact returns_readOnly (o := stat .vaultBin) rfl rfl (hI _ hf) fun _ _ => hf
  intro oldSize s _ hs
  -- the header
  refine returns_bind (completes_openVaultBin (by simp) hs hI).1 ?_
  intro fd t ht hopen
  refine returns_bind (M := fun header u => HEADER_SIZE ≤ header.length ∧ u = t) ?_ ?_
  · refine returns_finally_close fd (returns_bind (returns_read ht) ?_)
    rintro got _ hu rfl
    exact returns_done hu ⟨headerBuffer_length got, rfl⟩
  rintro header _ _ ⟨hheader, rfl⟩
  -- the records
  refine returns_bind (completes_openVaultBin (by simp) hopen.1 hI).1 ?_
  intro readFd u hu hread
  refine returns_bind (returns_finally_close readFd
    (returns_readRecords hu activeFiles.entries .start)) ?_
  rintro gathered _ _ rfl
  -- the temporary file
  refine returns_bind (completes_openCompact fun x hx => hI x (hx.trans hread.1)).1 ?_
  rintro writeFd x hx ⟨hxf, hxc, hwriteFd⟩
  refine returns_bind (M := fun _ y => Begun f writeFd y) ?_ ?_
  · refine returns_finally_close writeFd (returns_bind (M := fun _ y => Begun f writeFd y) ?_ ?_)
    · refine returns_write hwriteFd hxc hx (fun n => hI _ (hxf.trans hread.1)) ?_
        fun hshort => absurd hshort (hwhole writeFd x header hwriteFd)
      refine ⟨hxf.trans hread.1, 0, header, hwriteFd, ?_, Nat.zero_le _, hheader⟩
      exact congrArg some (pwrite_end [] header)
    · intro _ y _ hy
      refine returns_bind (returns_writeRecords hI gathered.records y hy) ?_
      intro _ z hz hbegun
      exact returns_readOnly rfl rfl hz fun _ _ => hbegun
  rintro _ y hy ⟨-, pos, g, -, hg, -, hlong⟩
  exact returns_bind (completes_rename hg hy fun z hz => ⟨g, hz, hlong⟩).1
    fun _ z hz _ => returns_done hz trivial

/-! ## What a compaction should keep, and when it does -/

/-- The new file and the returned offsets carry every active record of
the old file over. -/
structure CompactionPreserves (old : Bytes) (activeFiles : Js.Obj Entry)
    (new : Bytes) (newOffsets : Js.Obj Entry) : Prop where
  header : new.take HEADER_SIZE = old.take HEADER_SIZE
  kept : ∀ fileId entry, (fileId, entry) ∈ activeFiles →
    ∃ entry', newOffsets.get fileId = some entry'
      ∧ pread new entry'.offset entry'.length = pread old entry.offset entry.length
  above : ∀ fileId entry, newOffsets.get fileId = some entry →
    HEADER_SIZE ≤ entry.offset
  disjoint : ∀ a b entryA entryB, a ≠ b → newOffsets.get a = some entryA →
    newOffsets.get b = some entryB →
    entryA.offset + entryA.length ≤ entryB.offset
      ∨ entryB.offset + entryB.length ≤ entryA.offset

theorem gather_writeOffset (f : Bytes) (entries : Js.Obj Entry) :
    ∀ acc, acc.writeOffset = HEADER_SIZE + acc.records.flatten.length →
      (gather f entries acc).writeOffset
        = HEADER_SIZE + (gather f entries acc).records.flatten.length := by
  induction entries with
  | nil => intro acc h; exact h
  | cons p entries ih =>
    intro acc h
    obtain ⟨fileId, entry⟩ := p
    rw [gather]
    by_cases hskip : skipped f entry
    · rw [if_pos hskip]
      exact ih acc h
    · rw [if_neg hskip]
      apply ih
      have hfull : (pread f entry.offset entry.length).length = entry.length := by
        rw [skipped] at hskip
        exact pread_length_of_le (by omega)
      simp only [Gathered.push, List.flatten_append, List.length_append, h,
        List.flatten_cons, List.flatten_nil, List.length_nil, hfull]
      omega

theorem gather_records (f : Bytes) (entries : Js.Obj Entry) :
    ∀ acc, ∃ more, (gather f entries acc).records = acc.records ++ more := by
  induction entries with
  | nil => intro acc; exact ⟨[], (List.append_nil _).symm⟩
  | cons p entries ih =>
    intro acc
    obtain ⟨fileId, entry⟩ := p
    rw [gather]
    split
    · exact ih acc
    · obtain ⟨more, hmore⟩ := ih (acc.push fileId entry (pread f entry.offset entry.length))
      exact ⟨pread f entry.offset entry.length :: more, by
        rw [hmore, Gathered.push, List.append_assoc, List.singleton_append]⟩

/-- **The first record lands on the header.** -/
theorem compactedFile_take {f : Bytes} {activeFiles : Js.Obj Entry} {fileId : String}
    {entry : Entry} {rest : Js.Obj Entry} (hentries : activeFiles.entries = (fileId, entry) :: rest)
    (hkeep : ¬skipped f entry) {n : Nat} (hn : n ≤ entry.length) :
    (compactedFile f activeFiles).take n = (pread f entry.offset entry.length).take n := by
  obtain ⟨more, hmore⟩ := gather_records f rest
    (Gathered.start.push fileId entry (pread f entry.offset entry.length))
  have hrecords : (gathered f activeFiles).records
      = pread f entry.offset entry.length :: more := by
    rw [gathered, hentries, gather, if_neg hkeep, hmore]
    rfl
  have hlen : (pread f entry.offset entry.length).length = entry.length := by
    rw [skipped] at hkeep
    exact pread_length_of_le (by omega)
  rw [compactedFile, pwrite_of_le _ (Nat.zero_le _), List.take_zero, List.nil_append, hrecords,
    List.flatten_cons, List.append_assoc, List.take_append_of_le_length (by omega)]

/-- The loop gathers nothing, or the last record it gathers ends at the
final offset. -/
theorem gather_last (f : Bytes) (entries : Js.Obj Entry)
    (hproto : "__proto__" ∉ entries.keys) :
    ∀ acc, gather f entries acc = acc ∨
      ∃ fileId entry w, (fileId, entry) ∈ entries ∧ 0 < entry.length
        ∧ (gather f entries acc).newOffsets.get fileId = some ⟨w, entry.length⟩
        ∧ w + entry.length = (gather f entries acc).writeOffset := by
  induction entries with
  | nil => intro acc; exact .inl rfl
  | cons p entries ih =>
    intro acc
    obtain ⟨fileId, entry⟩ := p
    have hrest : "__proto__" ∉ Js.Obj.keys entries := fun h =>
      hproto (List.mem_cons_of_mem _ h)
    rw [gather]
    by_cases hskip : skipped f entry
    · rw [if_pos hskip]
      rcases ih hrest acc with hnone | ⟨id, e, w, hmem, hlast⟩
      · exact .inl hnone
      · exact .inr ⟨id, e, w, List.mem_cons_of_mem _ hmem, hlast⟩
    rw [if_neg hskip]
    rcases ih hrest (acc.push fileId entry (pread f entry.offset entry.length))
      with hnone | ⟨id, e, w, hmem, hlast⟩
    · have hid : fileId ≠ "__proto__" := by
        rintro rfl
        exact hproto List.mem_cons_self
      refine .inr ⟨fileId, entry, acc.writeOffset, List.mem_cons_self, ?_, ?_, ?_⟩
      · rw [skipped] at hskip
        omega
      · rw [hnone, Gathered.push, Js.Obj.get_assign hid, if_pos rfl]
      · rw [hnone, Gathered.push]
    · exact .inr ⟨id, e, w, List.mem_cons_of_mem _ hmem, hlast⟩

theorem gather_get_proto (f : Bytes) (entries : Js.Obj Entry) :
    ∀ acc, acc.newOffsets.get "__proto__" = none →
      (gather f entries acc).newOffsets.get "__proto__" = none := by
  induction entries with
  | nil => intro acc h; exact h
  | cons p entries ih =>
    intro acc h
    obtain ⟨fileId, entry⟩ := p
    rw [gather]
    split
    · exact ih acc h
    · apply ih
      rw [Gathered.push]
      by_cases hid : fileId = "__proto__"
      · rw [hid, Js.Obj.assign_proto h]
        exact h
      · rw [Js.Obj.get_assign hid, if_neg (Ne.symm hid)]
        exact h

theorem compactedFile_nil {old : Bytes} (hold : HEADER_SIZE ≤ old.length) :
    compactedFile old [] = old.take HEADER_SIZE := by
  have hnone : (gathered old []).records = [] := rfl
  rw [compactedFile, hnone, List.flatten_nil, pwrite_nil, oldHeader_of_le hold]

/-- With no active file the header is all that remains, and all that
should. -/
theorem preserves_of_empty {old : Bytes} (hold : HEADER_SIZE ≤ old.length) :
    CompactionPreserves old [] (compactedFile old []) (compactedResult old []).newOffsets := by
  have hfile := compactedFile_nil hold
  have hoffsets : (compactedResult old []).newOffsets = [] := rfl
  rw [hfile, hoffsets]
  exact {
    header := by rw [List.take_take, Nat.min_self]
    kept := fun fileId entry h => by cases h
    above := fun fileId entry h => by cases h
    disjoint := fun a b entryA entryB _ h => by cases h }

/-- With an active file, the range returned for the last record runs past
the end of the new file. -/
theorem not_preserves_of_ne_nil {old : Bytes} {activeFiles : Js.Obj Entry}
    (hin : ∀ p ∈ activeFiles, p.2.offset + p.2.length ≤ old.length)
    (hne : activeFiles ≠ []) :
    ¬CompactionPreserves old activeFiles (compactedFile old activeFiles)
      (compactedResult old activeFiles).newOffsets := by
  intro h
  have hperm := activeFiles.entries_perm
  have hproto : "__proto__" ∉ activeFiles.entries.keys := by
    intro hmem
    obtain ⟨⟨_, entry⟩, hp, rfl⟩ := List.mem_map.mp hmem
    obtain ⟨entry', hget, -⟩ := h.kept _ _ (hperm.mem_iff.mp hp)
    have hnone : (gathered old activeFiles).newOffsets.get "__proto__" = none :=
      gather_get_proto old activeFiles.entries .start rfl
    rw [compactedResult, hnone] at hget
    cases hget
  rcases gather_last old activeFiles.entries hproto .start
    with hnone | ⟨fileId, entry, w, hmem, hpos, hget, hend⟩
  · -- nothing was gathered, yet some file must occur
    obtain ⟨p, hp⟩ := List.exists_mem_of_ne_nil activeFiles hne
    obtain ⟨entry', hget, -⟩ := h.kept p.1 p.2 hp
    rw [compactedResult, gathered, hnone] at hget
    cases hget
  · have hactive := hperm.mem_iff.mp hmem
    obtain ⟨entry', hget', hread⟩ := h.kept fileId entry hactive
    have habove := h.above fileId entry' hget'
    have hentry' : entry' = ⟨w, entry.length⟩ :=
      Option.some.inj (hget'.symm.trans hget)
    have htotal := gather_writeOffset old activeFiles.entries .start rfl
    have hlen := congrArg List.length hread
    rw [hentry'] at habove hlen
    rw [pread_length, pread_length_of_le (hin _ hactive), compactedFile_length,
      gathered] at hlen
    simp only at habove hlen
    have hheader : 0 < HEADER_SIZE := by decide
    omega

/-- **A compaction keeps the data exactly when there is none to keep.** -/
theorem compactVault_preserves_iff {mountPoint : String} {old : Bytes}
    {activeFiles : Js.Obj Entry} {fs : Fs}
    (hmount : validateMountPoint mountPoint = pure ())
    (hf : fs.vaultBin = some old) (hold : HEADER_SIZE ≤ old.length)
    (hin : ∀ p ∈ activeFiles, HEADER_SIZE ≤ p.2.offset ∧ 0 < p.2.length
      ∧ p.2.offset + p.2.length ≤ old.length) :
    (∀ r fs', Runs Io (compactVaultImpl mountPoint activeFiles) fs (.ok r) fs' →
      ∃ new, fs'.vaultBin = some new
        ∧ CompactionPreserves old activeFiles new r.newOffsets)
      ↔ activeFiles = [] := by
  obtain ⟨hret, r, fs', hrun⟩ := completes_compactVault activeFiles hmount hf
  constructor
  · intro h
    by_contra hne
    obtain ⟨new, hnew, hkeeps⟩ := h r fs' hrun
    obtain ⟨hr, hfile⟩ := hret.runs hrun
    rw [hnew] at hfile
    cases hfile
    rw [hr] at hkeeps
    exact not_preserves_of_ne_nil (fun p hp => (hin p hp).2.2) hne hkeeps
  · rintro rfl r fs' hrun
    obtain ⟨rfl, hfile⟩ := hret.runs hrun
    exact ⟨_, hfile, preserves_of_empty hold⟩

/-! ## A vault with one record -/

/-- A header of a fresh vault followed by one record of one byte. -/
def oneRecordFile : Bytes := VAULT_MAGIC ++ zeros (HEADER_SIZE - 8) ++ [7]

def oneRecord : Js.Obj Entry := [("photo", ⟨HEADER_SIZE, 1⟩)]

def oneRecordFs : Fs := ⟨some oneRecordFile, none, [], 1000, 4096⟩

theorem oneRecordFile_length : oneRecordFile.length = HEADER_SIZE + 1 := by
  have hmagic : VAULT_MAGIC.length = 8 := rfl
  have hle : 8 ≤ HEADER_SIZE := by decide
  rw [oneRecordFile, List.length_append, List.length_append, zeros_length, hmagic,
    List.length_singleton]
  omega

theorem oneRecord_inFile : ∀ p ∈ oneRecord, HEADER_SIZE ≤ p.2.offset ∧ 0 < p.2.length
    ∧ p.2.offset + p.2.length ≤ oneRecordFile.length := by
  intro p hp
  rw [oneRecord, List.mem_singleton] at hp
  subst hp
  rw [oneRecordFile_length]
  exact ⟨Nat.le_refl _, by decide, Nat.le_refl _⟩

theorem volumes_valid : validateMountPoint "/Volumes/SECURE" = pure () := by
  rw [validateMountPoint, if_pos (by decide)]

theorem compactVault_preserves_iff_oneRecord :
    (∀ r fs', Runs Io (compactVaultImpl "/Volumes/SECURE" oneRecord) oneRecordFs
      (.ok r) fs' → ∃ new, fs'.vaultBin = some new
        ∧ CompactionPreserves oneRecordFile oneRecord new r.newOffsets)
      ↔ oneRecord = [] :=
  compactVault_preserves_iff volumes_valid rfl
    (by rw [oneRecordFile_length]; omega) oneRecord_inFile

/-- Compacting a vault with one record succeeds and loses the record. -/
theorem compactVault_loses_record :
    ∃ r fs', Runs Io (compactVaultImpl "/Volumes/SECURE" oneRecord) oneRecordFs
      (.ok r) fs' ∧ ¬∃ new, fs'.vaultBin = some new
        ∧ CompactionPreserves oneRecordFile oneRecord new r.newOffsets := by
  have hf : oneRecordFs.vaultBin = some oneRecordFile := rfl
  obtain ⟨hret, r, fs', hrun⟩ := completes_compactVault oneRecord volumes_valid hf
  refine ⟨r, fs', hrun, ?_⟩
  rintro ⟨new, hnew, hkeeps⟩
  obtain ⟨hr, hfile⟩ := hret.runs hrun
  rw [hr, Option.some.inj (hnew.symm.trans hfile)] at hkeeps
  exact not_preserves_of_ne_nil (fun p hp => (oneRecord_inFile p hp).2.2)
    (by simp [oneRecord]) hkeeps

end UsbVault.Companion
