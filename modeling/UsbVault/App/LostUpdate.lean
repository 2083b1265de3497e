import UsbVault.App.CrashConsistency

/-!
# Concurrent adds and removes

Any number of `addFile` and `removeFile` calls on one open vault. Each
encrypts a snapshot of the shared index and later writes a header that
names it; nothing orders the header writes. While no call writes its
header after the header of a later change, the index on disk is the one in
memory once all calls have returned (`interleaving_commits_index`). Two
calls whose header writes come in the other order lose the later change.
-/

namespace UsbVault.App

open Wire Js Companion Interleave

section Machine

variable (C : WebCrypto) (K : IndexCodec)

/-- An add or remove starts and does not throw. -/
def Starts (v v' : Vault) (pc : Pc) : Prop :=
  ∃ c : Call, c.updates ∧ Begin C K c v v' pc ∧ pc ≠ .threw

end Machine

/-- The index on disk is the one in memory, and the next unlock lists it. -/
def UpToDate (C : WebCrypto) (K : IndexCodec) (password : Bytes) (keys : VaultSession)
    (v : Vault) : Prop :=
  Committed C K keys v.disk v.files
    ∧ ∃ u, unlock C K v.disk password = some u ∧ SameMap u.files v.files

/-! ## Snapshots -/

/-- The snapshot a call is about to commit. -/
def Pc.pending : Pc → Option Snapshot
  | .appendingIndex snap _ | .appendedIndex snap _ | .writingHeader snap _ => some snap
  | _ => none

/-- A snapshot is of a past index, or of the present one. -/
def TicketOk (v : Vault) (pc : Pc) : Prop :=
  ∀ snap, pc.pending = some snap →
    snap.ticket ≤ v.mutations ∧ (snap.ticket = v.mutations → snap.files = v.files)

/-- The call will commit the present index. -/
def Carries (v : Vault) (pc : Pc) : Prop :=
  ∃ snap, pc.pending = some snap ∧ snap.ticket = v.mutations

/-- The position is none of a compaction. -/
def Pc.updating : Pc → Bool
  | .compacting _ | .compacted _ | .fetchingHeader | .fetchedHeader _ | .parsingFresh _ => false
  | _ => true

section Invariant

variable (C : WebCrypto) (K : IndexCodec) (password : Bytes) (keys : VaultSession)

/-- What holds of the shared vault. -/
def Shared (v : Vault) : Prop :=
  v.session = keys ∧ v.lastWritten ≤ v.mutations
    ∧ ∃ files, VaultSound C K password keys v files
      ∧ (v.lastWritten = v.mutations → SameMap files v.files)

/-- What holds of each call. -/
def InFlight (v : Vault) (pc : Pc) : Prop :=
  CallSound C K password keys v.disk pc ∧ TicketOk v pc ∧ pc.updating

end Invariant

variable {C : WebCrypto} {K : IndexCodec} {password : Bytes} {keys : VaultSession}
variable {v v' : Vault} {pc pc' q : Pc} {disk : Bytes} {u : Opened} {info : VaultHeaderInfo}
variable {cfg : Config Vault Pc}

theorem not_compacting_of_updating (h : pc.updating) (activeFiles : Obj Entry) :
    pc ≠ .compacting activeFiles := by
  rintro rfl
  cases h

theorem CallStep.mutations_step (hstep : CallStep C K v pc v' pc') (hup : pc.updating) :
    v'.files = v.files ∧ v'.mutations = v.mutations
      ∨ v'.mutations = v.mutations + 1 ∧ pc'.pending = some ⟨v'.files, v'.mutations⟩ := by
  cases hstep with
  | list createdAt modifiedAt iv => exact .inr ⟨rfl, rfl⟩
  | relocate => cases hup
  | _ => exact .inl ⟨rfl, rfl⟩

theorem Begin.mutations_step {c : Call} (hbegin : Begin C K c v v' pc) :
    v'.files = v.files ∧ v'.mutations = v.mutations ∧ pc.pending = none
      ∨ v'.mutations = v.mutations + 1 ∧ pc.pending = some ⟨v'.files, v'.mutations⟩ := by
  cases hbegin with
  | removeFile => exact .inr ⟨rfl, rfl⟩
  | removeInherited => exact .inr ⟨rfl, rfl⟩
  | _ => exact .inl ⟨rfl, rfl, rfl⟩

theorem TicketOk.mono (h : TicketOk v q)
    (hstep : v'.files = v.files ∧ v'.mutations = v.mutations ∨ v'.mutations = v.mutations + 1) :
    TicketOk v' q := by
  intro snap hsnap
  obtain ⟨hle, hnow⟩ := h snap hsnap
  rcases hstep with ⟨hfiles, hmut⟩ | hmut
  · rw [hfiles, hmut]
    exact ⟨hle, hnow⟩
  · exact ⟨by omega, fun heq => by omega⟩

/-- A step writes the header of its snapshot, or leaves the committed map
alone and keeps, or takes, its snapshot. -/
theorem CallStep.written_step (hstep : CallStep C K v pc v' pc') (hup : pc.updating)
    (hthrew : pc' ≠ .threw) :
    (∃ snap header bytes, pc = .writingHeader snap header ∧ pc' = .wroteHeader snap bytes
        ∧ v'.lastWritten = snap.ticket ∧ v'.files = v.files ∧ v'.mutations = v.mutations)
      ∨ v'.lastWritten = v.lastWritten ∧ (∀ files, pc'.committed files = files)
        ∧ (pc'.pending = pc.pending ∨ pc'.pending = some ⟨v'.files, v'.mutations⟩) := by
  cases hstep with
  | header heff => exact .inl ⟨_, _, _, rfl, rfl, rfl, rfl, rfl⟩
  | list createdAt modifiedAt iv => exact .inr ⟨rfl, fun _ => rfl, .inr rfl⟩
  | reseal iv hparse => cases hup
  | throws h => exact absurd rfl hthrew
  | _ => exact .inr ⟨rfl, fun _ => rfl, .inl rfl⟩

theorem CallStep.updating (hstep : CallStep C K v pc v' pc') (hup : pc.updating) :
    pc'.updating := by
  cases hstep with
  | compact => cases hup
  | relocate => cases hup
  | fetch heff => cases hup
  | refresh => cases hup
  | _ => rfl

theorem Begin.frame {c : Call} (hbegin : Begin C K c v v' pc) :
    v'.disk = v.disk ∧ v'.session = v.session ∧ v'.lastWritten = v.lastWritten := by
  cases hbegin <;> exact ⟨rfl, rfl, rfl⟩

theorem Begin.updating {c : Call} (hc : c.updates) (hbegin : Begin C K c v v' pc) :
    pc.updating := by
  cases hbegin with
  | compactVault => cases hc
  | _ => rfl

/-! ## The invariant -/

theorem InFlight.mono (h : InFlight C K password keys v q) (hext : Extends v.disk v'.disk)
    (hstep : v'.files = v.files ∧ v'.mutations = v.mutations ∨ v'.mutations = v.mutations + 1) :
    InFlight C K password keys v' q :=
  ⟨h.1.mono hext, h.2.1.mono hstep, h.2.2⟩

theorem shared_start (hC : C.aesGcm.Correct) (hv : Shared C K password keys v)
    (hstart : Starts C K v v' pc) :
    Shared C K password keys v' ∧ InFlight C K password keys v' pc
      ∧ ∀ q, InFlight C K password keys v q → InFlight C K password keys v' q := by
  obtain ⟨hkeys, hle, files, hsound, hcurrent⟩ := hv
  obtain ⟨c, hc, hbegin, _⟩ := hstart
  obtain ⟨hdisk, hsound', hcall⟩ := hbegin.sound hC hsound fun _ => hkeys
  obtain ⟨_, hsession, hlast⟩ := hbegin.frame
  have hext : Extends v.disk v'.disk := hdisk.symm ▸ Extends.refl hsound.headerOnDisk.long
  rcases hbegin.mutations_step with ⟨hfiles, hmut, hnone⟩ | ⟨hmut, hsome⟩
  · refine ⟨⟨hsession.trans hkeys, by omega, files, hsound', ?_⟩, ⟨hcall, ?_, hbegin.updating hc⟩,
      fun q hq => hq.mono hext (.inl ⟨hfiles, hmut⟩)⟩
    · rw [hlast, hmut, hfiles]
      exact hcurrent
    · intro snap hsnap
      rw [hnone] at hsnap
      cases hsnap
  · refine ⟨⟨hsession.trans hkeys, by omega, files, hsound', fun heq => by omega⟩,
      ⟨hcall, ?_, hbegin.updating hc⟩, fun q hq => hq.mono hext (.inr hmut)⟩
    intro snap hsnap
    rw [hsome] at hsnap
    cases hsnap
    exact ⟨Nat.le_refl _, fun _ => rfl⟩

theorem shared_step (hC : C.aesGcm.Correct) (hv : Shared C K password keys v)
    (hpc : InFlight C K password keys v pc) (hstep : ProceedsInTurn C K v pc v' pc') :
    Shared C K password keys v' ∧ InFlight C K password keys v' pc'
      ∧ ∀ q, InFlight C K password keys v q → InFlight C K password keys v' q := by
  obtain ⟨hkeys, hle, files, hsound, hcurrent⟩ := hv
  obtain ⟨hcall, hticket, hup⟩ := hpc
  obtain ⟨⟨hmove, hthrew⟩, hturn⟩ := hstep
  obtain ⟨hext, hsound', hcall'⟩ := hmove.sound hC hsound hcall (fun _ => hkeys)
    (not_compacting_of_updating hup) (by rintro snap range rfl; exact hturn)
  have hsession := hmove.session_eq.trans hkeys
  have hchange := hmove.mutations_step hup
  have hothers : ∀ q, InFlight C K password keys v q → InFlight C K password keys v' q :=
    fun q hq => hq.mono hext (hchange.imp_right And.left)
  rcases hmove.written_step hup hthrew
    with ⟨snap, header, bytes, rfl, rfl, hlast, hfiles, hmut⟩ | ⟨hlast, hkeep, hpending⟩
  · -- the header names the snapshot, which is of the present index or of a past one
    obtain ⟨hold, hnow⟩ := hticket snap rfl
    refine ⟨⟨hsession, by omega, snap.files, hsound', ?_⟩, ⟨hcall', ?_, hmove.updating hup⟩, hothers⟩
    · intro heq
      rw [hnow (by omega), hfiles]
      exact SameMap.refl _
    · intro s hs
      cases hs
  rw [hkeep] at hsound'
  refine ⟨⟨hsession, ?_, files, hsound', ?_⟩, ⟨hcall', ?_, hmove.updating hup⟩, hothers⟩
  · rcases hchange with ⟨_, hmut⟩ | ⟨hmut, _⟩ <;> omega
  · rcases hchange with ⟨hfiles, hmut⟩ | ⟨hmut, _⟩
    · rw [hlast, hmut, hfiles]
      exact hcurrent
    · intro heq
      omega
  · rcases hpending with hsame | hnew
    · intro snap hsnap
      rw [hsame] at hsnap
      exact hticket.mono (hchange.imp_right And.left) snap hsnap
    · intro snap hsnap
      rw [hnew] at hsnap
      cases hsnap
      exact ⟨Nat.le_refl _, fun _ => rfl⟩

theorem carries_step (hpc : InFlight C K password keys v pc)
    (hstep : ProceedsInTurn C K v pc v' pc') :
    v'.lastWritten = v'.mutations ∨ Carries v' pc'
      ∨ ¬Carries v pc ∧ (v.lastWritten = v.mutations → v'.lastWritten = v'.mutations)
        ∧ ∀ q, Carries v q → Carries v' q := by
  obtain ⟨_, hticket, hup⟩ := hpc
  obtain ⟨⟨hmove, hthrew⟩, hturn⟩ := hstep
  rcases hmove.mutations_step hup with ⟨hfiles, hmut⟩ | ⟨_, hnew⟩
  · have hkeep : ∀ q, Carries v q → Carries v' q := by
      rintro q ⟨snap, hsnap, heq⟩
      exact ⟨snap, hsnap, heq.trans hmut.symm⟩
    rcases hmove.written_step hup hthrew
      with ⟨snap, header, bytes, rfl, rfl, hlast, _⟩ | ⟨hlast, _, hpending⟩
    · obtain ⟨hold, _⟩ := hticket snap rfl
      have hafter : v.lastWritten ≤ snap.ticket := hturn
      by_cases heq : snap.ticket = v.mutations
      · exact .inl (by omega)
      refine .inr (.inr ⟨?_, fun hmet => by omega, hkeep⟩)
      rintro ⟨s, hs, hnow⟩
      cases hs
      exact heq hnow
    rcases hpending with hsame | hnew
    · by_cases hcarries : Carries v pc
      · obtain ⟨snap, hsnap, heq⟩ := hcarries
        exact .inr (.inl ⟨snap, hsame.trans hsnap, heq.trans hmut.symm⟩)
      · exact .inr (.inr ⟨hcarries, fun hmet => by omega, hkeep⟩)
    · exact .inr (.inl ⟨_, hnew, rfl⟩)
  · exact .inr (.inl ⟨_, hnew, rfl⟩)

theorem carries_start (hstart : Starts C K v v' pc) :
    Carries v' pc ∨ (v.lastWritten = v.mutations → v'.lastWritten = v'.mutations)
      ∧ ∀ q, Carries v q → Carries v' q := by
  obtain ⟨c, _, hbegin, _⟩ := hstart
  obtain ⟨_, _, hlast⟩ := hbegin.frame
  rcases hbegin.mutations_step with ⟨_, hmut, _⟩ | ⟨_, hsome⟩
  · refine .inr ⟨fun heq => by omega, ?_⟩
    rintro q ⟨snap, hsnap, heq⟩
    exact ⟨snap, hsnap, heq.trans hmut.symm⟩
  · exact .inl ⟨_, hsome, rfl⟩

/-! ## No lost update -/

theorem Shared.opened (hlaid : LaidOut disk) (hopens : unlock C K disk password = some u) :
    Shared C K password u.session (u.vault info) := by
  obtain ⟨hon, hgood, hnodup⟩ := unlock_sound hlaid hopens
  exact ⟨rfl, Nat.le_refl _, u.files, ⟨⟨hon.toHeaderOnDisk, hgood, hnodup⟩, hon.names⟩,
    fun _ => SameMap.refl _⟩

theorem shared_reachable (hC : C.aesGcm.Correct) (hlaid : LaidOut disk)
    (hopens : unlock C K disk password = some u)
    (h : Reachable (Starts C K) (ProceedsInTurn C K) (u.vault info) cfg) :
    Shared C K password u.session cfg.shared
      ∧ ∀ pc ∈ cfg.threads, InFlight C K password u.session cfg.shared pc :=
  h.assertions (Shared.opened hlaid hopens) (fun _ _ _ hs hb => shared_start hC hs hb)
    fun _ _ _ _ hs hp hm => shared_step hC hs hp hm

/-- **No update is lost in turn**: when every call writes its header before
the header of a later change is on disk, then, once all calls have
returned, the index on disk is the one in memory. -/
theorem interleaving_commits_index (hC : C.aesGcm.Correct) (hlaid : LaidOut disk)
    (hopens : unlock C K disk password = some u)
    (h : Reachable (Starts C K) (ProceedsInTurn C K) (u.vault info) cfg)
    (hdone : ∀ pc ∈ cfg.threads, pc = .done) :
    UpToDate C K password u.session cfg.shared := by
  have hcarried := h.carried (fun v => v.lastWritten = v.mutations)
    (fun h => shared_reachable hC hlaid hopens h) rfl
    (fun _ _ _ _ hb => carries_start hb) fun _ _ _ _ _ hp hm => carries_step hp hm
  obtain ⟨_, _, files, hsound, hcurrent⟩ := (shared_reachable hC hlaid hopens h).1
  have hsame : SameMap files cfg.shared.files := by
    rcases hcarried with hmet | ⟨pc, hmem, snap, hpending, _⟩
    · exact hcurrent hmet
    · rw [hdone pc hmem] at hpending
      cases hpending
  obtain ⟨u', hu', _, hfiles, _⟩ := hsound.onDisk.unlock
  exact ⟨hsound.onDisk.committed_iff.mpr hsame, u', hu', hfiles.trans hsame⟩

/-- One add on the sample vault, in turn. -/
theorem interleaving_commits_index_sample : ∃ u info v',
    unlock transparentCrypto indexJson sampleDisk samplePassword = some u
      ∧ Reachable (Starts transparentCrypto indexJson) (ProceedsInTurn transparentCrypto indexJson)
          (u.vault info) ⟨v', [.done]⟩
      ∧ v'.files = (u.vault info).sampleAdded
      ∧ UpToDate transparentCrypto indexJson samplePassword u.session v' := by
  obtain ⟨u, info, hvault, _, hfiles, hdisk, _⟩ := sampleVault_intact fun _ => []
  obtain ⟨v', hruns, hlisted, _⟩ := sampleVault_adds hvault hfiles hdisk
  have hstart : Reachable (Starts transparentCrypto indexJson)
      (ProceedsInTurn transparentCrypto indexJson) (u.vault info)
      ⟨u.vault info, [.checkingCapacity "photo" "photo.jpg" [1]]⟩ :=
    .step .initial (.start ⟨_, rfl, .addFile "photo" "photo.jpg" [1] rfl, nofun⟩)
  have hreach := hstart.alone_first hruns
  exact ⟨u, info, v', hvault.opens, hreach, hlisted, interleaving_commits_index
    (transparentAead_correct 12) hvault.laid hvault.opens hreach (by simp)⟩

/-- **A header written out of turn loses an update**: an add is about to
write its header when a removal of its file runs to its end; the header of
the add then brings the file back. -/
theorem overtaken_add_undoes_removal : ∃ u info v',
    unlock transparentCrypto indexJson sampleDisk samplePassword = some u
      ∧ parseVaultHeader u.headerBytes = .ok info
      ∧ Reachable (Starts transparentCrypto indexJson) (Proceeds transparentCrypto indexJson)
          (u.vault info) ⟨v', [.done, .done]⟩
      ∧ v'.files = []
      ∧ Committed transparentCrypto indexJson u.session v'.disk (u.vault info).sampleAdded
      ∧ ¬UpToDate transparentCrypto indexJson samplePassword u.session v' := by
  obtain ⟨u, info, hvault, _, hfiles, hdisk, _⟩ := sampleVault_intact fun _ => []
  have hC := transparentAead_correct 12
  obtain ⟨v₁, header, hruns, habout, hsize⟩ := sampleVault_reaches_header hvault hfiles hdisk
  have hadd : Reachable (Starts transparentCrypto indexJson)
      (ProceedsInTurn transparentCrypto indexJson) (u.vault info) ⟨v₁, [_]⟩ :=
    Reachable.alone_first (.step .initial
      (.start ⟨_, rfl, .addFile "photo" "photo.jpg" [1] rfl, nofun⟩)) hruns
  -- the removal, from its start to its end
  have hlisted : (v₁.files.get "photo").isSome := by
    rw [habout.listed, Vault.sampleAdded_eq hfiles]
    rfl
  have hempty : v₁.files.delete "photo" = [] := by
    rw [habout.listed, Vault.sampleAdded_eq hfiles]
    rfl
  obtain ⟨v₃, header', hruns₂, hok₃, hcall₃, hfiles₃, hlast₃, _⟩ :=
    sampleRemoval_reaches_header habout.ok habout.session hsize hempty
  have hturn : v₃.lastWritten ≤ v₁.mutations + 1 := by
    rw [hlast₃, habout.lastWritten]
    exact Nat.zero_le _
  obtain ⟨v₄, hruns₄, hfiles₄, _⟩ := header_completes hok₃.headerOnDisk.long hcall₃ hturn
  have hboth := (hadd.step (.start ⟨_, rfl, .removeFile "photo" (zeroVec 12)
    (habout.active.trans rfl) hlisted, nofun⟩)).alone_second (hruns₂.trans hruns₄)
  -- the header write of the add
  obtain ⟨⟨_, _, _, hsound, _⟩, hinFlight⟩ := shared_reachable hC hvault.laid hvault.opens hboth
  have hcall := (hinFlight _ List.mem_cons_self).1
  obtain ⟨v₅, info', hv₅, hwrite, hcache, hfinish⟩ := header_proceeds hcall
  have hreach := (hboth.mono fun _ _ _ _ h => h.1).alone_first
    ((((Interleave.Alone.refl _ _).move hwrite).move hcache).move hfinish)
  have hlong := hsound.headerOnDisk.long
  have hnames := hwrite.1.written hlong hcall
  obtain ⟨_, hok₅, _⟩ := hwrite.1.ok hC hsound.toVaultOk hcall nofun nofun nofun
  have hon : OnDisk transparentCrypto indexJson samplePassword u.session v₅.disk
      (u.vault info).sampleAdded := ⟨hok₅.headerOnDisk, hnames⟩
  have hnil : v₅.files = [] := by
    rw [hv₅]
    exact hfiles₄.trans hfiles₃
  refine ⟨u, info, _, hvault.opens, hvault.parsed, hreach, hnil, hon.committed, ?_⟩
  rintro ⟨hcommitted, _⟩
  have hsame := hon.committed_iff.mp hcommitted "photo"
  rw [Vault.sampleAdded_eq hfiles, Obj.get_cons, if_pos rfl] at hsame
  exact nomatch hsame.trans (congrArg (fun files => Obj.get files "photo") hnil)

end UsbVault.App
