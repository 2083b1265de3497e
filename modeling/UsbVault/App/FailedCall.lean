import UsbVault.App.CompactionCrash

/-!
# A call that throws

The index in memory is changed before the index on disk and never changed
back. A call that throws between the two changes leaves a vault whose
memory and disk differ; a call that throws before the first or after the
second leaves them equal (`failed_call_keeps_index_iff`).
-/

namespace UsbVault.App

open Wire Js Companion

section Definitions

variable (C : WebCrypto) (K : IndexCodec)

/-- The vault a call leaves that throws, with the position it throws from;
a call that throws before its first `await` is at `threw`. -/
inductive Fails (c : Call) (v : Vault) : Pc → Vault → Prop
  | atOnce {v' : Vault} (h : Begin C K c v v' .threw) : Fails c v .threw v'
  | later {v' v'' : Vault} {pc : Pc} (h : CallRun C K c v v' pc)
      (hstep : CallStep C K v' pc v'' .threw) : Fails c v pc v''

end Definitions

/-- The call changes no property of the index. -/
def Call.idle : Call → Files → Prop
  | .addFile fileId _ _, files => fileId = "__proto__" ∧ files.get fileId = none
  | .removeFile fileId, files => files.get fileId = none
  | .compactVault, _ => True

/-- The positions from which an add or remove may throw and leave the index
in memory as it is on disk: before the index is changed; between its
change and the header write, when the call changes nothing; after the
header write, below 4 GiB. -/
def UpdateHolds (c : Call) (v v' : Vault) : Pc → Prop
  | .appendingIndex _ _ | .appendedIndex _ _ | .writingHeader _ _ => c.idle v.files
  | .wroteHeader _ _ | .parsing _ _ => v'.disk.length < 2 ^ 32
  | _ => True

/-- The positions from which a call may throw. A compaction may where it
may stop. -/
def FailureHolds (K : IndexCodec) (v v' : Vault) : Call → Pc → Prop
  | .compactVault, pc => CompactionHolds K v pc
  | c, pc => UpdateHolds c v v' pc

/-- The bytes on disk could be read in a second way: a record as a header,
or an offset that does not fit its field. -/
def Ambiguous (v v' : Vault) : Call → Prop
  | .compactVault => Mistakable v
  | _ => 2 ^ 32 ≤ v'.disk.length

/-- The call has not written its header yet. -/
def Pc.unwritten : Pc → Bool
  | .checkingCapacity _ _ _ | .appendingRecord _ _ _ _ | .appendedRecord _ _ _ _
  | .appendingIndex _ _ | .appendedIndex _ _ | .writingHeader _ _ => true
  | _ => false

variable {C : WebCrypto} {K : IndexCodec} {password : Bytes} {keys : VaultSession}
variable {c : Call} {v v' v'' : Vault} {pc pc' : Pc} {d : Contents} {files' : Files}

/-! ## Before the header write -/

theorem CallStep.unwritten_of (hstep : CallStep C K v' pc v'' pc') (h : Progress c v v' pc)
    (hpc' : pc'.unwritten) : pc.unwritten := by
  cases hstep with
  | allow iv => rfl
  | record heff => rfl
  | list createdAt modifiedAt iv => rfl
  | index heff => rfl
  | commit => rfl
  | reseal iv hparse => exact h.elim
  | compact => exact h.elim
  | relocate => exact h.elim
  | fetch heff => exact h.elim
  | refresh => exact h.elim
  | header heff => cases hpc'
  | cache => cases hpc'
  | finish hparse => cases hpc'
  | throws hend => cases hpc'

/-- Until an add or remove writes its header, the container only grows
behind the old one. -/
theorem CallRun.unwritten (hrun : CallRun C K c v v' pc) (hc : c.updates)
    (hlong : HEADER_SIZE ≤ v.disk.length) (hpc : pc.unwritten) :
    Extends v.disk v'.disk ∧ v'.disk.take HEADER_SIZE = v.disk.take HEADER_SIZE := by
  induction hrun with
  | start hbegin =>
    rw [hbegin.disk_eq]
    exact ⟨Extends.refl hlong, rfl⟩
  | step hrun hstep ih =>
    obtain ⟨hext, htake⟩ := ih (hstep.unwritten_of (hrun.progress hc) hpc)
    obtain ⟨hext', htake'⟩ := hstep.unwritten hext.long' (hrun.progress hc).not_compacting
      (by rintro snap header rfl; cases hpc)
    exact ⟨hext.trans hext', htake'.trans htake⟩

theorem CallRun.committed_iff (hv : Healthy C K password keys v d)
    (hrun : CallRun C K c v v' pc) (hc : c.updates) (hpc : pc.unwritten) :
    Committed C K keys v'.disk files' ↔ SameMap v.files files' := by
  have hon := hv.sound.headerOnDisk
  obtain ⟨hext, htake⟩ := hrun.unwritten hc hon.long hpc
  have hnames := hv.sound.names.grow hext htake hon.above
  exact OnDisk.committed_iff ⟨hon.mono hext htake, hnames⟩

/-- An add or remove leaves the map alone when it changes no property: a
file is listed with a range no listed file has. -/
theorem Call.Changes.same_iff (hC : C.aesGcm.Correct) (hv : Healthy C K password keys v d)
    (h : c.Changes v files') : SameMap v.files files' ↔ c.idle v.files := by
  cases h with
  | addFile fileId filename data entry hname hsize hfresh =>
    constructor
    · intro hsame
      by_cases hown : fileId ≠ "__proto__" ∨ (v.files.get fileId).isSome
      · have hget : v.files.get fileId = some entry := by
          rw [hsame fileId, Obj.get_assign_of hown, if_pos rfl]
        obtain ⟨_, hat⟩ := hv.data fileId entry hget
        obtain ⟨hlen, _, hin⟩ := hat.readable hC
        simp only [VaultIndexEntry.range] at hlen hin
        omega
      · rw [not_or, not_not] at hown
        exact ⟨hown.1, by simpa using hown.2⟩
    · rintro ⟨rfl, hnone⟩
      rw [Obj.assign_proto hnone]
      exact SameMap.refl _
  | removeFile fileId =>
    constructor
    · intro hsame
      show v.files.get fileId = none
      rw [hsame fileId, Obj.get_delete, if_pos rfl]
    · intro hnone k
      rw [Obj.get_delete]
      split
      · rename_i heq
        rw [heq]
        exact hnone
      · rfl

/-! ## The throw -/

theorem Fails.run (h : Fails C K c v pc v') : CallRun C K c v v' pc := by
  cases h with
  | atOnce hbegin => exact .start hbegin
  | later hrun hstep =>
    obtain ⟨rfl, _⟩ := hstep.throws_eq
    exact hrun

theorem Begin.threw_eq (hbegin : Begin C K c v v' pc) (hpc : pc = .threw) : v' = v := by
  cases hbegin with
  | removeFile fileId iv h hlisted => cases hpc
  | removeInherited fileId iv h hmissing hname => cases hpc
  | _ => rfl

theorem Fails.atOnce_eq (h : Fails C K c v .threw v') : v' = v := by
  cases h with
  | atOnce hbegin => exact hbegin.threw_eq rfl
  | later hrun hstep => exact absurd rfl hstep.throws_eq.2

theorem Fails.not_done (h : Fails C K c v .done v') : False := by
  cases h with
  | later hrun hstep =>
    cases hstep with
    | throws hend => cases hend

/-- Before its change an add or remove leaves the committed index in
memory. -/
theorem CallRun.committed_unchanged (hv : Healthy C K password keys v d)
    (hrun : CallRun C K c v v' pc) (hc : c.updates) (hpc : pc.unwritten) (h : Unchanged v v') :
    Committed C K keys v'.disk v'.files := by
  rw [hrun.committed_iff hv hc hpc, h.files]
  exact SameMap.refl _

/-- Between its change and its header write it does so when it changes
nothing. -/
theorem CallRun.committed_changed_iff (hC : C.aesGcm.Correct) (hv : Healthy C K password keys v d)
    (hrun : CallRun C K c v v' pc) (hc : c.updates) (hpc : pc.unwritten) (h : Changed c v v') :
    Committed C K keys v'.disk v'.files ↔ c.idle v.files :=
  (hrun.committed_iff hv hc hpc).trans (h.files.same_iff hC hv)

theorem CallRun.committed_written (hC : C.aesGcm.Correct) (hv : Healthy C K password keys v d)
    (hrun : CallRun C K c v v' pc) (hc : c.updates) (h : Changed c v v')
    (hwritten : v'.lastWritten = v'.mutations) (hsize : v'.disk.length < 2 ^ 32) :
    Committed C K keys v'.disk v'.files := by
  have hsound := (hrun.during hC hc hv.sound hv.session hv.written hv.data hsize).sound
  have hne : v'.lastWritten ≠ v.lastWritten := by
    have hle := hv.written
    have hmut := h.mutations
    omega
  rw [committedOf_of_ne hne] at hsound
  exact hsound.onDisk.committed

theorem Fails.update_iff (hC : C.aesGcm.Correct) (hv : Healthy C K password keys v d)
    (hc : c.updates) (hfail : Fails C K c v pc v') :
    (UpdateHolds c v v' pc → Committed C K keys v'.disk v'.files)
      ∧ (v'.disk.length < 2 ^ 32 → Committed C K keys v'.disk v'.files →
        UpdateHolds c v v' pc) := by
  have hrun := hfail.run
  have hprogress := hrun.progress hc
  cases pc with
  | checkingCapacity =>
    exact ⟨fun _ => hrun.committed_unchanged hv hc rfl hprogress.2, fun _ _ => trivial⟩
  | appendingRecord =>
    exact ⟨fun _ => hrun.committed_unchanged hv hc rfl hprogress.2, fun _ _ => trivial⟩
  | appendedRecord =>
    exact ⟨fun _ => hrun.committed_unchanged hv hc rfl hprogress.2.1, fun _ _ => trivial⟩
  | appendingIndex =>
    have hiff := hrun.committed_changed_iff hC hv hc rfl hprogress.2.1
    exact ⟨hiff.mpr, fun _ => hiff.mp⟩
  | appendedIndex =>
    have hiff := hrun.committed_changed_iff hC hv hc rfl hprogress.2.1
    exact ⟨hiff.mpr, fun _ => hiff.mp⟩
  | writingHeader =>
    have hiff := hrun.committed_changed_iff hC hv hc rfl hprogress.2.1
    exact ⟨hiff.mpr, fun _ => hiff.mp⟩
  | wroteHeader =>
    exact ⟨hrun.committed_written hC hv hc hprogress.1 hprogress.2, fun hsize _ => hsize⟩
  | parsing =>
    exact ⟨hrun.committed_written hC hv hc hprogress.1 hprogress.2, fun hsize _ => hsize⟩
  | threw =>
    rw [hfail.atOnce_eq]
    exact ⟨fun _ => hv.sound.onDisk.committed, fun _ _ => trivial⟩
  | done => exact hfail.not_done.elim
  | compacting => exact hprogress.elim
  | compacted => exact hprogress.elim
  | fetchingHeader => exact hprogress.elim
  | fetchedHeader => exact hprogress.elim
  | parsingFresh => exact hprogress.elim

theorem Fails.compaction_live (h : Fails C K .compactVault v pc v') (hactive : v.active = true) :
    pc ≠ .threw := by
  cases h with
  | atOnce hbegin =>
    cases hbegin with
    | notUnlocked _ hinactive => rw [hactive] at hinactive; cases hinactive
  | later hrun hstep => exact hstep.throws_eq.2

theorem Fails.compaction_iff (hC : C.aesGcm.Correct) (hv : Healthy C K password keys v d)
    (hfail : Fails C K .compactVault v pc v') :
    (CompactionHolds K v pc → Committed C K keys v'.disk v'.files)
      ∧ (¬Mistakable v → Committed C K keys v'.disk v'.files → CompactionHolds K v pc) := by
  have hlive : pc ≠ .threw := hfail.compaction_live hv.active
  by_cases hnil : v.files = []
  · rcases hfail.run.emptying hC hv hnil with ⟨rfl, rfl⟩ | hempty | ⟨rfl, rfl⟩
    · exact ⟨fun _ => hv.sound.onDisk.committed, fun _ _ => trivial⟩
    · rw [hempty.files]
      exact ⟨hempty.committed hlive, fun _ hcommitted =>
        hempty.holds hC hv.sound.headerOnDisk.above hv.sound.headerOnDisk.header.web.length hnil
          hlive (d := d) hcommitted.survives⟩
    · exact absurd rfl hlive
  · refine ⟨fun hholds => ?_, fun hclear hcommitted => ?_⟩
    · obtain ⟨activeFiles, rfl⟩ := hholds.of_files hnil
      rw [hfail.run.before_compaction]
      exact hv.sound.onDisk.committed
    · obtain ⟨header, hread, _⟩ := hcommitted
      rcases hfail.run.destroyed hC hv hnil hclear with ⟨_, rfl⟩ | hthrew | ⟨hnone, _⟩
      · trivial
      · exact absurd hthrew hlive
      · rw [hnone] at hread
        cases hread

/-- **A call that throws leaves the index in memory as it is on disk** at
the positions of `FailureHolds`, and at those only, unless the bytes on
disk are ambiguous. -/
theorem failed_call_keeps_index_iff (hC : C.aesGcm.Correct) (hv : Healthy C K password keys v d)
    (hfail : Fails C K c v pc v') :
    (FailureHolds K v v' c pc → Committed C K keys v'.disk v'.files)
      ∧ (¬Ambiguous v v' c → Committed C K keys v'.disk v'.files → FailureHolds K v v' c pc) := by
  cases c with
  | addFile fileId filename data =>
    obtain ⟨hholds, hexact⟩ := hfail.update_iff hC hv rfl
    exact ⟨hholds, fun hclear => hexact (Nat.lt_of_not_le hclear)⟩
  | removeFile fileId =>
    obtain ⟨hholds, hexact⟩ := hfail.update_iff hC hv rfl
    exact ⟨hholds, fun hclear => hexact (Nat.lt_of_not_le hclear)⟩
  | compactVault => exact hfail.compaction_iff hC hv

theorem sampleVault_fails {u : Opened} {info : VaultHeaderInfo}
    (hhealthy : Healthy transparentCrypto indexJson samplePassword u.session (u.vault info)
      fun _ => []) :
    ∃ v' snap blob, Fails transparentCrypto indexJson (.addFile "photo" "photo.jpg" [1])
        (u.vault info) (.appendingIndex snap blob) v' := by
  obtain ⟨record, v', _, _, hruns, _⟩ := addFile_lists (K := indexJson) (transparentAead_correct 12)
    transparentCrypto_total hhealthy.sound.toVaultOk hhealthy.session [1] (by decide) "photo"
    "photo.jpg" sampleTime sampleTime (zeroVec 12) (zeroVec 12)
  have hrun := (CallRun.start (C := transparentCrypto) (K := indexJson)
    (.addFile "photo" "photo.jpg" [1] rfl)).alone (alone_of_inTurn hruns)
  exact ⟨v', _, _, .later hrun (.throws rfl)⟩

theorem failed_call_keeps_index_iff_sample : ∃ u info v' snap blob,
    unlock transparentCrypto indexJson sampleDisk samplePassword = some u
      ∧ Fails transparentCrypto indexJson (.addFile "photo" "photo.jpg" [1]) (u.vault info)
          (.appendingIndex snap blob) v'
      ∧ (FailureHolds indexJson (u.vault info) v' (.addFile "photo" "photo.jpg" [1])
            (.appendingIndex snap blob) →
          Committed transparentCrypto indexJson u.session v'.disk v'.files)
      ∧ (¬Ambiguous (u.vault info) v' (.addFile "photo" "photo.jpg" [1]) →
          Committed transparentCrypto indexJson u.session v'.disk v'.files →
          FailureHolds indexJson (u.vault info) v' (.addFile "photo" "photo.jpg" [1])
            (.appendingIndex snap blob)) := by
  obtain ⟨u, info, hopens, _, _, _, _, hhealthy⟩ := sampleVault_healthy
  obtain ⟨v', snap, blob, hfails⟩ := sampleVault_fails (hhealthy fun _ => [])
  exact ⟨u, info, v', snap, blob, hopens, hfails, failed_call_keeps_index_iff
    (transparentAead_correct 12) (hhealthy fun _ => []) hfails⟩

/-- **A failed add lists its file in memory only**: it throws when its
index is appended, and the index on disk is not the one in memory. -/
theorem failed_add_lists_file : ∃ u info v' snap blob,
    unlock transparentCrypto indexJson sampleDisk samplePassword = some u
      ∧ parseVaultHeader u.headerBytes = .ok info
      ∧ Fails transparentCrypto indexJson (.addFile "photo" "photo.jpg" [1]) (u.vault info)
          (.appendingIndex snap blob) v'
      ∧ ¬Committed transparentCrypto indexJson u.session v'.disk v'.files := by
  obtain ⟨u, info, hopens, hparse, _, _, _, hhealthy⟩ := sampleVault_healthy
  have hv := hhealthy fun _ => []
  obtain ⟨v', snap, blob, hfails⟩ := sampleVault_fails hv
  refine ⟨u, info, v', snap, blob, hopens, hparse, hfails, fun hcommitted => ?_⟩
  have hrun := hfails.run
  have hidle := (hrun.committed_changed_iff (transparentAead_correct 12) hv rfl rfl
    (hrun.progress rfl).2.1).mp hcommitted
  exact absurd hidle.1 (by decide)

end UsbVault.App
