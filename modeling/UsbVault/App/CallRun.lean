import UsbVault.App.Unlocked

/-!
# The run of one add or remove

What an `addFile` or `removeFile` has done at each of its positions, when
no other call is in flight: nothing to the index before its change
(`Unchanged`), then one change (`Changed`), which the header on disk
commits at the header write and not before. `During` joins this
bookkeeping to the assertions about the container and is kept by every
step (`During.step`).
-/

namespace UsbVault.App

open Wire Js Companion

/-! ## Runs -/

section Runs

variable (C : WebCrypto) (K : IndexCodec)

/-- The states a call passes through when no other call is in flight. -/
inductive CallRun (c : Call) (v : Vault) : Vault → Pc → Prop
  | start {v' : Vault} {pc : Pc} (h : Begin C K c v v' pc) : CallRun c v v' pc
  | step {v' v'' : Vault} {pc pc' : Pc} (h : CallRun c v v' pc)
      (hstep : CallStep C K v' pc v'' pc') : CallRun c v v'' pc'

/-- The vault a call leaves when it stops at a position, or throws there. -/
inductive StopsAt (c : Call) (v : Vault) (pc : Pc) : Vault → Prop
  | stopped {v' : Vault} (h : CallRun C K c v v' pc) (hlive : pc ≠ .threw) : StopsAt c v pc v'
  | threw {v' v'' : Vault} (h : CallRun C K c v v' pc) (hstep : CallStep C K v' pc v'' .threw) :
      StopsAt c v pc v''

end Runs

/-- The call adds or removes a file. -/
def Call.updates : Call → Bool
  | .addFile _ _ _ | .removeFile _ => true
  | .compactVault => false

/-- The change a call makes to the index of the vault it found. A file is
listed with a range behind the old end of the container. -/
inductive Call.Changes : Call → Vault → Files → Prop
  | addFile {v : Vault} (fileId filename : String) (data : Bytes) (entry : VaultIndexEntry)
      (hname : entry.name = filename) (hsize : entry.size = data.length)
      (hfresh : v.disk.length ≤ entry.offset) :
      Changes (.addFile fileId filename data) v (v.files.assign fileId entry)
  | removeFile {v : Vault} (fileId : String) :
      Changes (.removeFile fileId) v (v.files.delete fileId)

/-- The data last added under each file id. -/
abbrev Contents := String → Bytes

/-- The data last added, after the call. -/
def Call.lastAdded : Call → Contents → Contents
  | .addFile fileId _ data, d => fun k => if k = fileId then data else d k
  | _, d => d

/-! ## What a call has done -/

/-- The call has not changed the index. -/
structure Unchanged (v v' : Vault) : Prop where
  files : v'.files = v.files
  mutations : v'.mutations = v.mutations
  lastWritten : v'.lastWritten = v.lastWritten
  grown : v.disk.length ≤ v'.disk.length

/-- The call has changed the index. -/
structure Changed (c : Call) (v v' : Vault) : Prop where
  files : c.Changes v v'.files
  mutations : v'.mutations = v.mutations + 1

/-- What an add or remove that found `v` has done at a position. -/
def Progress (c : Call) (v v' : Vault) : Pc → Prop
  | .checkingCapacity fileId filename data => c = .addFile fileId filename data ∧ Unchanged v v'
  | .appendingRecord fileId filename data _ => c = .addFile fileId filename data ∧ Unchanged v v'
  | .appendedRecord fileId filename data range => c = .addFile fileId filename data
      ∧ Unchanged v v' ∧ v.disk.length ≤ range.offset
  | .appendingIndex snap _ | .appendedIndex snap _ | .writingHeader snap _ =>
    snap = ⟨v'.files, v'.mutations⟩ ∧ Changed c v v' ∧ v'.lastWritten = v.lastWritten
  | .wroteHeader _ _ | .parsing _ _ | .done => Changed c v v' ∧ v'.lastWritten = v'.mutations
  | .threw => Unchanged v v'
      ∨ Changed c v v' ∧ (v'.lastWritten = v.lastWritten ∨ v'.lastWritten = v'.mutations)
  | _ => False

variable {C : WebCrypto} {K : IndexCodec} {password : Bytes} {keys : VaultSession}
variable {c : Call} {v v' v'' : Vault} {pc pc' : Pc} {files : Files} {d : Contents}

theorem Begin.progress (hbegin : Begin C K c v v' pc) (hc : c.updates) : Progress c v v' pc := by
  cases hbegin with
  | notUnlocked => exact .inl ⟨rfl, rfl, rfl, Nat.le_refl _⟩
  | addFile => exact ⟨rfl, rfl, rfl, rfl, Nat.le_refl _⟩
  | removeFile fileId iv h hlisted => exact ⟨rfl, ⟨.removeFile fileId, rfl⟩, rfl⟩
  | removeMissing => exact .inl ⟨rfl, rfl, rfl, Nat.le_refl _⟩
  | removeInherited fileId iv h hmissing hname => exact ⟨rfl, ⟨.removeFile fileId, rfl⟩, rfl⟩
  | compactVault => cases hc

theorem Progress.threw (h : Progress c v v' pc) : Progress c v v' .threw := by
  cases pc with
  | checkingCapacity => exact .inl h.2
  | appendingRecord => exact .inl h.2
  | appendedRecord => exact .inl h.2.1
  | appendingIndex => exact .inr ⟨h.2.1, .inl h.2.2⟩
  | appendedIndex => exact .inr ⟨h.2.1, .inl h.2.2⟩
  | writingHeader => exact .inr ⟨h.2.1, .inl h.2.2⟩
  | wroteHeader => exact .inr ⟨h.1, .inr h.2⟩
  | parsing => exact .inr ⟨h.1, .inr h.2⟩
  | done => exact .inr ⟨h.1, .inr h.2⟩
  | threw => exact h
  | compacting => exact h.elim
  | compacted => exact h.elim
  | fetchingHeader => exact h.elim
  | fetchedHeader => exact h.elim
  | parsingFresh => exact h.elim

theorem CallStep.progress (hstep : CallStep C K v' pc v'' pc') (h : Progress c v v' pc) :
    Progress c v v'' pc' := by
  cases hstep with
  | allow iv => exact h
  | record heff =>
    obtain ⟨hc, hsame⟩ := h
    have hlen := appendOf_length heff
    have hgrown := hsame.grown
    refine ⟨hc, ⟨hsame.files, hsame.mutations, hsame.lastWritten, ?_⟩, ?_⟩
    · exact hgrown.trans ((Nat.le_add_right _ _).trans hlen.ge)
    · rw [appendOf_range heff]
      exact hgrown
  | list createdAt modifiedAt iv =>
    obtain ⟨rfl, hsame, hfresh⟩ := h
    refine ⟨rfl, ⟨?_, congrArg (· + 1) hsame.mutations⟩, hsame.lastWritten⟩
    show Call.Changes _ v (v'.files.assign _ _)
    rw [hsame.files]
    exact .addFile _ _ _ _ rfl rfl hfresh
  | index heff => exact ⟨h.1, ⟨h.2.1.files, h.2.1.mutations⟩, h.2.2⟩
  | commit => exact h
  | header heff =>
    obtain ⟨rfl, hchanged, _⟩ := h
    exact ⟨⟨hchanged.files, hchanged.mutations⟩, rfl⟩
  | cache => exact ⟨⟨h.1.files, h.1.mutations⟩, h.2⟩
  | finish hparse => exact ⟨⟨h.1.files, h.1.mutations⟩, h.2⟩
  | throws hend => exact h.threw
  | compact => exact h.elim
  | relocate => exact h.elim
  | fetch heff => exact h.elim
  | refresh => exact h.elim
  | reseal iv hparse => exact h.elim

theorem CallStep.throws_eq (hstep : CallStep C K v pc v' .threw) : v' = v ∧ pc ≠ .threw := by
  cases hstep with
  | throws h => exact ⟨rfl, fun heq => by rw [heq] at h; cases h⟩

theorem StopsAt.run (h : StopsAt C K c v pc v') : CallRun C K c v v' pc ∧ pc ≠ .threw := by
  cases h with
  | stopped hrun hlive => exact ⟨hrun, hlive⟩
  | threw hrun hstep =>
    obtain ⟨rfl, hlive⟩ := hstep.throws_eq
    exact ⟨hrun, hlive⟩

theorem CallRun.progress (hrun : CallRun C K c v v' pc) (hc : c.updates) :
    Progress c v v' pc := by
  induction hrun with
  | start hbegin => exact hbegin.progress hc
  | step _ hstep ih => exact hstep.progress ih

theorem Progress.not_compacting (h : Progress c v v' pc) (activeFiles : Obj Entry) :
    pc ≠ .compacting activeFiles := by
  rintro rfl
  exact h

/-! ## The size of the container -/

theorem CallStep.length_le (hstep : CallStep C K v pc v' pc')
    (hcompact : ∀ activeFiles, pc ≠ .compacting activeFiles) :
    v.disk.length ≤ v'.disk.length := by
  cases hstep with
  | record heff => exact (Nat.le_add_right _ _).trans (appendOf_length heff).ge
  | index heff => exact (Nat.le_add_right _ _).trans (appendOf_length heff).ge
  | header heff => exact (le_max_right _ _).trans (writeHeaderOf_length heff).ge
  | compact => exact absurd rfl (hcompact _)
  | _ => exact Nat.le_refl _

theorem Begin.disk_eq (hbegin : Begin C K c v v' pc) : v'.disk = v.disk := by
  cases hbegin <;> rfl

theorem CallRun.length_le (hrun : CallRun C K c v v' pc) (hc : c.updates) :
    v.disk.length ≤ v'.disk.length := by
  induction hrun with
  | start hbegin => rw [hbegin.disk_eq]
  | step hrun hstep ih => exact ih.trans (hstep.length_le (hrun.progress hc).not_compacting)

/-! ## The invariant of a run -/

section During

variable (C : WebCrypto) (K : IndexCodec) (password : Bytes) (keys : VaultSession)

/-- Every listed file decrypts to the data given for its id. -/
def Holds (disk : Bytes) (files : Files) (d : Contents) : Prop :=
  ∀ fileId entry, files.get fileId = some entry →
    HEADER_SIZE ≤ entry.offset ∧ RecordAt C keys disk entry.range (d fileId)

/-- The map committed on disk, when it was `files` before the call. -/
def committedOf (files : Files) (v v' : Vault) : Files :=
  if v'.lastWritten = v.lastWritten then files else v'.files

/-- The data last added, when it was `d` before the call. -/
def lastAddedOf (c : Call) (d : Contents) (v v' : Vault) : Contents :=
  if v'.mutations = v.mutations then d else c.lastAdded d

/-- An add or remove that found the vault `v` with the committed map
`files` and the data `d`, when it has come to `v'` and `pc`. -/
structure During (c : Call) (v : Vault) (files : Files) (d : Contents) (v' : Vault) (pc : Pc) :
    Prop where
  progress : Progress c v v' pc
  grows : Extends v.disk v'.disk
  sound : VaultSound C K password keys v' (committedOf files v v')
  call : CallSound C K password keys v'.disk pc
  session : v'.session = keys
  data : Holds C keys v'.disk v'.files (lastAddedOf c d v v')

end During

theorem committedOf_of_eq (h : v'.lastWritten = v.lastWritten) :
    committedOf files v v' = files := if_pos h

theorem committedOf_of_ne (h : v'.lastWritten ≠ v.lastWritten) :
    committedOf files v v' = v'.files := if_neg h

theorem lastAddedOf_of_eq (h : v'.mutations = v.mutations) : lastAddedOf c d v v' = d :=
  if_pos h

theorem lastAddedOf_of_ne (h : v'.mutations ≠ v.mutations) :
    lastAddedOf c d v v' = c.lastAdded d := if_neg h

theorem Holds.mono {disk disk' : Bytes} (h : Extends disk disk')
    (hd : Holds C keys disk files d) : Holds C keys disk' files d := by
  intro fileId entry hget
  obtain ⟨hoff, hat⟩ := hd fileId entry hget
  exact ⟨hoff, hat.mono h hoff⟩

theorem Holds.delete {disk : Bytes} (fileId : String) (hd : Holds C keys disk files d) :
    Holds C keys disk (files.delete fileId) d := by
  intro k entry hget
  rw [Obj.get_delete] at hget
  split at hget
  · cases hget
  · exact hd k entry hget

/-- A file listed with the range of a record holds the record's data. -/
theorem Holds.assign {disk : Bytes} {fileId : String} {entry : VaultIndexEntry} {data : Bytes}
    (hd : Holds C keys disk files d) (hoff : HEADER_SIZE ≤ entry.offset)
    (hat : RecordAt C keys disk entry.range data) :
    Holds C keys disk (files.assign fileId entry) fun k => if k = fileId then data else d k := by
  by_cases hown : fileId ≠ "__proto__" ∨ (files.get fileId).isSome
  · intro k e hget
    rw [Obj.get_assign_of hown] at hget
    by_cases hk : k = fileId
    · rw [if_pos hk] at hget
      cases hget
      simp only [if_pos hk]
      exact ⟨hoff, hat⟩
    · rw [if_neg hk] at hget
      simp only [if_neg hk]
      exact hd k e hget
  · rw [not_or, not_not] at hown
    obtain ⟨rfl, hnone⟩ := hown
    have hget : files.get "__proto__" = none := by simpa using hnone
    rw [Obj.assign_proto hget]
    intro k e hk
    have hne : k ≠ "__proto__" := by
      rintro rfl
      rw [hget] at hk
      cases hk
    simp only [if_neg hne]
    exact hd k e hk

/-- A step other than the header write leaves the committed map alone. -/
theorem CallStep.committed_eq (hstep : CallStep C K v' pc v'' pc') (h : Progress c v v' pc)
    (hle : v.lastWritten ≤ v.mutations) :
    pc'.committed (committedOf files v v') = committedOf files v v'' := by
  cases hstep with
  | list createdAt modifiedAt iv =>
    have hafter : ∀ files', (v'.setFiles files').lastWritten = v.lastWritten :=
      fun _ => h.2.1.lastWritten
    rw [committedOf_of_eq h.2.1.lastWritten, committedOf_of_eq (hafter _)]
    rfl
  | header heff =>
    obtain ⟨rfl, hchanged, _⟩ := h
    have hne : ∀ disk key, (v'.writeHeader disk key v'.mutations).lastWritten ≠ v.lastWritten := by
      intro disk key
      show v'.mutations ≠ v.lastWritten
      rw [hchanged.mutations]
      omega
    rw [committedOf_of_ne (hne _ _)]
    rfl
  | relocate => exact h.elim
  | _ => rfl

theorem CallStep.holds (hstep : CallStep C K v' pc v'' pc') (h : Progress c v v' pc)
    (hext : Extends v'.disk v''.disk) (hcall : CallSound C K password keys v'.disk pc)
    (hd : Holds C keys v'.disk v'.files (lastAddedOf c d v v')) :
    Holds C keys v''.disk v''.files (lastAddedOf c d v v'') := by
  cases hstep with
  | list createdAt modifiedAt iv =>
    obtain ⟨rfl, hsame, _⟩ := h
    rw [lastAddedOf_of_eq hsame.mutations] at hd
    have hne : v'.mutations + 1 ≠ v.mutations := by
      rw [hsame.mutations]
      omega
    rw [lastAddedOf_of_ne hne]
    exact hd.assign hcall.1 hcall.2
  | record heff => exact hd.mono hext
  | index heff => exact hd.mono hext
  | header heff => exact hd.mono hext
  | compact => exact h.elim
  | relocate => exact h.elim
  | _ => exact hd

/-- **One step of an add or remove keeps the invariant**, in a container
below 4 GiB. -/
theorem During.step (hC : C.aesGcm.Correct) (hle : v.lastWritten ≤ v.mutations)
    (h : During C K password keys c v files d v' pc) (hstep : CallStep C K v' pc v'' pc')
    (hsize : v'.disk.length < 2 ^ 32) : During C K password keys c v files d v'' pc' := by
  obtain ⟨hext, hsound, hcall⟩ := hstep.sound hC h.sound h.call (fun _ => h.session)
    h.progress.not_compacting (by
      rintro snap range rfl
      have hin := h.call.2.le_length
      omega)
  exact {
    progress := hstep.progress h.progress
    grows := h.grows.trans hext
    sound := by
      rw [← hstep.committed_eq h.progress hle]
      exact hsound
    call := hcall
    session := hstep.session_eq.trans h.session
    data := hstep.holds h.progress hext h.call h.data }

theorem During.start (hC : C.aesGcm.Correct) (hc : c.updates)
    (hv : VaultSound C K password keys v files) (hkeys : v.session = keys)
    (hd : Holds C keys v.disk v.files d) (hbegin : Begin C K c v v' pc) :
    During C K password keys c v files d v' pc := by
  obtain ⟨hdisk, hsound, hcall⟩ := hbegin.sound hC hv fun _ => hkeys
  exact {
    progress := hbegin.progress hc
    grows := by
      rw [hdisk]
      exact Extends.refl hv.headerOnDisk.long
    sound := by
      have hkeep : committedOf files v v' = files := by
        cases hbegin <;> exact committedOf_of_eq rfl
      rw [hkeep]
      exact hsound
    call := hcall
    session := by cases hbegin <;> exact hkeys
    data := by
      cases hbegin with
      | removeFile fileId iv h hlisted =>
        rw [lastAddedOf_of_ne (Nat.succ_ne_self v.mutations)]
        exact hd.delete fileId
      | removeInherited fileId iv h hmissing hname =>
        rw [lastAddedOf_of_ne (Nat.succ_ne_self v.mutations)]
        exact hd.delete fileId
      | compactVault => cases hc
      | _ =>
        rw [lastAddedOf_of_eq rfl]
        exact hd }

/-- **The invariant along a run.** -/
theorem CallRun.during (hC : C.aesGcm.Correct) (hc : c.updates)
    (hv : VaultSound C K password keys v files) (hkeys : v.session = keys)
    (hle : v.lastWritten ≤ v.mutations) (hd : Holds C keys v.disk v.files d)
    (hrun : CallRun C K c v v' pc) (hsize : v'.disk.length < 2 ^ 32) :
    During C K password keys c v files d v' pc := by
  induction hrun with
  | start hbegin => exact .start hC hc hv hkeys hd hbegin
  | step hrun hstep ih =>
    have hgrow := hstep.length_le (hrun.progress hc).not_compacting
    exact (ih (by omega)).step hC hle hstep (by omega)

end UsbVault.App
