import UsbVault.App.Completes

/-!
# Add and remove across a stop

A session unlocks a vault and runs `addFile` and `removeFile` calls one
after another; each returns or ends in an error. Wherever the last call
is stopped, the bytes on disk unlock to the map committed before that
call or to the map after its change, and every listed file decrypts to
the data last added under its id.
-/

namespace UsbVault.App

open Wire Js Companion

/-- A file map, with the data last added under each of its ids. -/
structure Listing where
  files : Files
  data : Contents

/-- The vault an unlock leaves open. -/
def Opened.vault (u : Opened) (headerInfo : VaultHeaderInfo) : Vault where
  disk := u.disk
  files := u.files
  headerBytes := u.headerBytes
  headerInfo := headerInfo
  session := u.session
  active := true
  mutations := 0
  lastWritten := 0
  sealedUnder := []

/-- The opened vault lists the files of `l`, and each decrypts to its data. -/
structure Shows (C : WebCrypto) (u : Opened) (l : Listing) : Prop where
  files : SameMap u.files l.files
  data : ∀ fileId, (u.files.get fileId).isSome →
    ∃ r, u.readFile C fileId = some r ∧ r.data = l.data fileId

section Session

variable (C : WebCrypto) (K : IndexCodec)

/-- The container unlocks to `u`, whose header reads as `info`, and every
file it lists decrypts to the data `d` gives. -/
structure Intact (disk password : Bytes) (u : Opened) (info : VaultHeaderInfo) (d : Contents) :
    Prop where
  laid : LaidOut disk
  opens : unlock C K disk password = some u
  parsed : parseVaultHeader u.headerBytes = .ok info
  above : ∀ fileId entry, u.files.get fileId = some entry → HEADER_SIZE ≤ entry.offset
  shows : Shows C u ⟨u.files, d⟩

/-- The vaults between two calls of a session, with the listing committed
on disk and the data last added in memory. A call may end without a
change to the index, with a change the header on disk does not show, or
with its change committed. -/
inductive Session (v₀ : Vault) (d₀ : Contents) : Vault → Listing → Contents → Prop
  | opened : Session v₀ d₀ v₀ ⟨v₀.files, d₀⟩ d₀
  | unchanged {v v' : Vault} {l : Listing} {d : Contents} {c : Call} {pc : Pc}
      (h : Session v₀ d₀ v l d) (hc : c.updates) (hrun : CallRun C K c v v' pc)
      (hend : pc.ended) (hmem : v'.mutations = v.mutations) : Session v₀ d₀ v' l d
  | halfDone {v v' : Vault} {l : Listing} {d : Contents} {c : Call} {pc : Pc}
      (h : Session v₀ d₀ v l d) (hc : c.updates) (hrun : CallRun C K c v v' pc)
      (hend : pc.ended) (hmem : v'.mutations ≠ v.mutations)
      (hdisk : v'.lastWritten = v.lastWritten) : Session v₀ d₀ v' l (c.lastAdded d)
  | committed {v v' : Vault} {l : Listing} {d : Contents} {c : Call} {pc : Pc}
      (h : Session v₀ d₀ v l d) (hc : c.updates) (hrun : CallRun C K c v v' pc)
      (hend : pc.ended) (hdisk : v'.lastWritten ≠ v.lastWritten) :
      Session v₀ d₀ v' ⟨v'.files, c.lastAdded d⟩ (c.lastAdded d)

/-- What holds between two calls. -/
structure Between (password : Bytes) (keys : VaultSession) (v : Vault) (l : Listing)
    (d : Contents) : Prop where
  sound : VaultSound C K password keys v l.files
  session : v.session = keys
  written : v.lastWritten ≤ v.mutations
  onDisk : Holds C keys v.disk l.files l.data
  inMemory : Holds C keys v.disk v.files d

end Session

variable {C : WebCrypto} {K : IndexCodec} {password : Bytes} {keys : VaultSession}
variable {c : Call} {v v' v₀ : Vault} {pc : Pc} {l : Listing} {d d₀ : Contents}
variable {disk : Bytes} {files : Files} {u : Opened} {info : VaultHeaderInfo}

/-! ## Reading the files of an opened vault -/

theorem RecordAt.readFile {fileId : String} {entry : VaultIndexEntry} {data : Bytes}
    (hget : u.files.get fileId = some entry) (h : RecordAt C u.session u.disk entry.range data) :
    ∃ r, u.readFile C fileId = some r ∧ r.data = data := by
  obtain ⟨bytes, r, hread, hdec, hdata⟩ := h
  have hne : entry.length ≠ 0 := by
    intro hzero
    rw [readBytesOf, if_pos (.inl hzero)] at hread
    cases hread
  refine ⟨r, ?_, hdata⟩
  rw [Opened.readFile, hget, Option.bind_some, if_neg hne]
  rw [VaultIndexEntry.range] at hread
  rw [hread, Option.bind_some, hdec]

theorem recordAt_of_readFile {fileId : String} {entry : VaultIndexEntry} {r : DecryptedRecord}
    (hget : u.files.get fileId = some entry) (h : u.readFile C fileId = some r) :
    RecordAt C u.session u.disk entry.range r.data := by
  rw [Opened.readFile, hget, Option.bind_some] at h
  split at h
  · cases h
  · rw [Option.bind_eq_some_iff] at h
    obtain ⟨bytes, hread, hdec⟩ := h
    exact ⟨bytes, r, hread, hdec, rfl⟩

/-- A container that opens to a map whose files hold their data shows them. -/
theorem OnDisk.shows (h : OnDisk C K password keys disk files) (hd : Holds C keys disk files d) :
    ∃ u, App.unlock C K disk password = some u ∧ u.session = keys ∧ Shows C u ⟨files, d⟩ := by
  obtain ⟨u, hu, hkeys, hsame, hext, _⟩ := h.unlock
  refine ⟨u, hu, hkeys, hsame, ?_⟩
  intro fileId hsome
  obtain ⟨entry, hget⟩ := Option.isSome_iff_exists.mp hsome
  obtain ⟨hoff, hat⟩ := hd fileId entry ((hsame fileId).symm.trans hget)
  have hat' := hat.mono hext hoff
  rw [← hkeys] at hat'
  exact hat'.readFile hget

/-! ## A new vault is intact -/

theorem eq_nil_of_sameMap (h : SameMap files []) : files = [] := by
  cases files with
  | nil => rfl
  | cons p files =>
    have hget := h p.1
    rw [Obj.get_cons, if_pos rfl] at hget
    cases hget

theorem OnDisk.intact (h : OnDisk C K password keys disk []) :
    ∃ u info, Intact C K disk password u info d ∧ u.session = keys ∧ u.files = []
      ∧ u.disk.length = disk.length
      ∧ activeRange (u.disk.take HEADER_SIZE) = activeRange (disk.take HEADER_SIZE) := by
  obtain ⟨u, hopens, hkeys, hsame, _, _, hgood, hrange⟩ := h.unlock
  obtain ⟨info, hinfo, _⟩ := parseVaultHeader_of_magic hgood.web.magic
  have hnil := eq_nil_of_sameMap hsame
  refine ⟨u, info, ⟨h.laidOut, hopens, hinfo, ?_, SameMap.refl _, ?_⟩, hkeys, hnil,
    unlock_length h.long hopens, hrange⟩
  · rw [hnil]
    intro fileId entry hget
    cases hget
  · rw [hnil]
    intro fileId hsome
    cases hsome

/-! ## The invariant of a session -/

theorem Between.opened (hvault : Intact C K disk password u info d) :
    Between C K password u.session (u.vault info) ⟨u.files, d⟩ d := by
  obtain ⟨hon, hgood, hnodup⟩ := unlock_sound hvault.laid hvault.opens
  have hholds : Holds C u.session u.disk u.files d := by
    intro fileId entry hget
    obtain ⟨r, hread, hdata⟩ := hvault.shows.data fileId (by rw [hget]; rfl)
    have hat := recordAt_of_readFile hget hread
    rw [hdata] at hat
    exact ⟨hvault.above fileId entry hget, hat⟩
  exact {
    sound := ⟨⟨hon.toHeaderOnDisk, hgood, hnodup⟩, hon.names⟩
    session := rfl
    written := Nat.le_refl _
    onDisk := hholds
    inMemory := hholds }

theorem Between.during (hC : C.aesGcm.Correct) (h : Between C K password keys v l d)
    (hc : c.updates) (hrun : CallRun C K c v v' pc) (hsize : v'.disk.length < 2 ^ 32) :
    During C K password keys c v l.files d v' pc :=
  hrun.during hC hc h.sound h.session h.written h.inMemory hsize

/-- A call has changed the index once or not at all, and has committed
what it changed or nothing. -/
theorem Progress.outcome (h : Progress c v v' pc) (hle : v.lastWritten ≤ v.mutations) :
    v'.lastWritten ≤ v'.mutations ∧ v.mutations ≤ v'.mutations
      ∧ (v'.mutations = v.mutations → v'.files = v.files ∧ v'.lastWritten = v.lastWritten)
      ∧ (v'.mutations ≠ v.mutations → c.Changes v v'.files) := by
  rcases h.threw with hsame | ⟨hchanged, hwritten⟩
  · rw [hsame.mutations, hsame.lastWritten]
    exact ⟨hle, Nat.le_refl _, fun _ => ⟨hsame.files, rfl⟩, fun hne => absurd rfl hne⟩
  · have hmut := hchanged.mutations
    exact ⟨by omega, by omega, fun heq => by omega, fun _ => hchanged.files⟩

/-- **The invariant of a session**, in a container below 4 GiB. -/
theorem Session.between (hC : C.aesGcm.Correct) (hopen : Between C K password keys v₀ ⟨v₀.files, d₀⟩ d₀)
    (hs : Session C K v₀ d₀ v l d) (hsize : v.disk.length < 2 ^ 32) :
    Between C K password keys v l d := by
  induction hs with
  | opened => exact hopen
  | unchanged hs hc hrun hend hmem ih =>
    have hb := ih (Nat.lt_of_le_of_lt (hrun.length_le hc) hsize)
    have hd := hb.during hC hc hrun hsize
    obtain ⟨hwritten, _, hsame, _⟩ := hd.progress.outcome hb.written
    have hsound := hd.sound
    have hdata := hd.data
    rw [committedOf_of_eq (hsame hmem).2] at hsound
    rw [lastAddedOf_of_eq hmem] at hdata
    exact ⟨hsound, hd.session, hwritten, hb.onDisk.mono hd.grows, hdata⟩
  | halfDone hs hc hrun hend hmem hdisk ih =>
    have hb := ih (Nat.lt_of_le_of_lt (hrun.length_le hc) hsize)
    have hd := hb.during hC hc hrun hsize
    have hsound := hd.sound
    have hdata := hd.data
    rw [committedOf_of_eq hdisk] at hsound
    rw [lastAddedOf_of_ne hmem] at hdata
    exact ⟨hsound, hd.session, (hd.progress.outcome hb.written).1, hb.onDisk.mono hd.grows, hdata⟩
  | committed hs hc hrun hend hdisk ih =>
    have hb := ih (Nat.lt_of_le_of_lt (hrun.length_le hc) hsize)
    have hd := hb.during hC hc hrun hsize
    obtain ⟨hwritten, _, hsame, _⟩ := hd.progress.outcome hb.written
    have hmem : _ ≠ _ := fun heq => hdisk (hsame heq).2
    have hsound := hd.sound
    have hdata := hd.data
    rw [committedOf_of_ne hdisk] at hsound
    rw [lastAddedOf_of_ne hmem] at hdata
    exact ⟨hsound, hd.session, hwritten, hdata, hdata⟩

/-! ## A sample vault -/

theorem sampleVault_intact (d : Contents) :
    ∃ u info, Intact transparentCrypto indexJson sampleDisk samplePassword u info d
      ∧ u.session = sampleKeys ∧ u.files = [] ∧ u.disk.length = HEADER_SIZE + 80
      ∧ (activeRange (u.disk.take HEADER_SIZE)).length = 40 := by
  obtain ⟨hon, hrange⟩ := sampleDisk_onDisk
  obtain ⟨u, info, hintact, hkeys, hnil, hlen, hsame⟩ := hon.intact (d := d)
  exact ⟨u, info, hintact, hkeys, hnil, hlen.trans sampleDisk_provisioned.2, by rw [hsame, hrange]⟩

theorem sampleVault_reaches_header
    (hvault : Intact transparentCrypto indexJson sampleDisk samplePassword u info d)
    (hfiles : u.files = []) (hdisk : u.disk.length = HEADER_SIZE + 80) :
    ∃ v' header, Interleave.Alone (ProceedsInTurn transparentCrypto indexJson)
        (u.vault info, .checkingCapacity "photo" "photo.jpg" [1])
        (v', .writingHeader ⟨(u.vault info).sampleAdded, 1⟩ (some header))
      ∧ AboutToWrite transparentCrypto indexJson samplePassword u.session (u.vault info)
          (u.vault info).sampleAdded v' header
      ∧ v'.disk.length < 2 ^ 31 := by
  have hfits := (u.vault info).sampleAdded_fits hfiles hdisk
    (parseVaultHeader_cipherId_lt hvault.parsed)
  have hsize : (u.vault info).disk.length + [(1 : UInt8)].length + 40 < 2 ^ 32 := by
    show u.disk.length + 1 + 40 < 2 ^ 32
    rw [hdisk]
    decide
  obtain ⟨v', header, hruns, habout, hlen⟩ := addFile_reaches_header (transparentAead_correct 12)
    transparentCrypto_total (Between.opened hvault).sound.toVaultOk rfl (by decide) hfits hsize
    (zeroVec 12) (zeroVec 12)
  refine ⟨v', header, hruns, habout, ?_⟩
  rw [hlen]
  show u.disk.length + 1 + 40 + ((indexJson.stringify (u.vault info).sampleAdded).length + 28) < _
  have hmax : MAX_IO_SIZE = 67108864 := rfl
  have hheader : HEADER_SIZE = 24576 := rfl
  omega

theorem addFile_completes_sample : ∃ u info v',
    unlock transparentCrypto indexJson sampleDisk samplePassword = some u
      ∧ Interleave.Alone (ProceedsInTurn transparentCrypto indexJson)
          (u.vault info, .checkingCapacity "photo" "photo.jpg" [1]) (v', .done)
      ∧ v'.files = (u.vault info).sampleAdded ∧ v'.lastWritten = v'.mutations := by
  obtain ⟨u, info, hvault, _, hfiles, hdisk, _⟩ := sampleVault_intact fun _ => []
  have hfits := (u.vault info).sampleAdded_fits hfiles hdisk
    (parseVaultHeader_cipherId_lt hvault.parsed)
  have hsize : (u.vault info).disk.length + [(1 : UInt8)].length + 40 < 2 ^ 32 := by
    show u.disk.length + 1 + 40 < 2 ^ 32
    rw [hdisk]
    decide
  obtain ⟨v', hruns, hlisted, hlast, _⟩ := addFile_completes (transparentAead_correct 12)
    transparentCrypto_total (Between.opened hvault).sound.toVaultOk rfl (Nat.le_refl _) (by decide)
    hfits hsize
  exact ⟨u, info, v', hvault.opens, hruns, hlisted, hlast⟩

theorem sampleVault_adds
    (hvault : Intact transparentCrypto indexJson sampleDisk samplePassword u info d)
    (hfiles : u.files = []) (hdisk : u.disk.length = HEADER_SIZE + 80) :
    ∃ v', Interleave.Alone (ProceedsInTurn transparentCrypto indexJson)
        (u.vault info, .checkingCapacity "photo" "photo.jpg" [1]) (v', .done)
      ∧ v'.files = (u.vault info).sampleAdded ∧ v'.disk.length < 2 ^ 31
      ∧ v'.lastWritten = 1 ∧ v'.active = true := by
  obtain ⟨v, header, hruns, habout, hsize⟩ := sampleVault_reaches_header hvault hfiles hdisk
  have hturn : v.lastWritten ≤ 1 := by
    rw [habout.lastWritten]
    exact Nat.zero_le 1
  obtain ⟨v', hends, hlisted, _, hlast, hlen, hactive⟩ :=
    header_completes habout.ok.headerOnDisk.long habout.call hturn
  exact ⟨v', hruns.trans hends, hlisted.trans habout.listed, by rw [hlen]; exact hsize, hlast,
    hactive.trans habout.active⟩

theorem sampleRemoval_reaches_header (hok : VaultOk transparentCrypto samplePassword keys v)
    (hkeys : v.session = keys) (hsize : v.disk.length < 2 ^ 31)
    (hempty : v.files.delete "photo" = []) : ∃ v' header,
    Interleave.Alone (ProceedsInTurn transparentCrypto indexJson)
        (v.setFiles (v.files.delete "photo"),
          (v.setFiles (v.files.delete "photo")).sealIndex transparentCrypto indexJson (zeroVec 12))
        (v', .writingHeader ⟨v.files.delete "photo", v.mutations + 1⟩ (some header))
      ∧ VaultOk transparentCrypto samplePassword keys v'
      ∧ CallSound transparentCrypto indexJson samplePassword keys v'.disk
          (.writingHeader ⟨v.files.delete "photo", v.mutations + 1⟩ (some header))
      ∧ v'.files = [] ∧ v'.lastWritten = v.lastWritten ∧ v'.disk.length < 2 ^ 32 := by
  have hok₁ : VaultOk transparentCrypto samplePassword keys
      (v.setFiles (v.files.delete "photo")) :=
    ⟨hok.headerOnDisk, hok.cached, Obj.nodup_delete hok.nodup "photo"⟩
  have hfits : (indexJson.stringify (v.files.delete "photo")).length + 28 ≤ MAX_IO_SIZE := by
    rw [hempty, sampleIndex_length]
    decide
  obtain ⟨blob, header, hlen, hruns, hok₂, hcall⟩ := sealIndex_appends
    (v := v.setFiles (v.files.delete "photo")) (transparentAead_correct 12)
    transparentCrypto_total hok₁ hkeys (Nat.lt_trans hsize (by decide)) hfits (zeroVec 12)
  refine ⟨_, header, hruns, hok₂, hcall, hempty, rfl, ?_⟩
  have hmax : MAX_IO_SIZE = 67108864 := rfl
  have hblob : blob.length ≤ MAX_IO_SIZE := hlen.trans_le hfits
  show (v.disk ++ blob).length < 2 ^ 32
  rw [List.length_append]
  omega

/-! ## The stop -/

/-- **Unlocking after a stop**: from a vault whose files are intact, after
any calls run one after another, a stop anywhere in the next call leaves
bytes that unlock to the listing committed before that call, or to the
listing after its change; every file decrypts to the data last added
under its id. -/
theorem stop_shows_before_or_after (hC : C.aesGcm.Correct) (hvault : Intact C K disk password u info d₀)
    (hs : Session C K (u.vault info) d₀ v l d) (hc : c.updates) (hrun : CallRun C K c v v' pc)
    (hsize : v'.disk.length < 2 ^ 32) :
    ∃ u', unlock C K v'.disk password = some u' ∧ u'.session = u.session
      ∧ (Shows C u' l
        ∨ ∃ after, c.Changes v after ∧ Shows C u' ⟨after, c.lastAdded d⟩) := by
  have hb := hs.between hC (Between.opened hvault) (Nat.lt_of_le_of_lt (hrun.length_le hc) hsize)
  have hd := hb.during hC hc hrun hsize
  obtain ⟨_, _, hsame, hchanges⟩ := hd.progress.outcome hb.written
  have hsound := hd.sound
  have hdata := hd.data
  by_cases hdisk : v'.lastWritten = v.lastWritten
  · rw [committedOf_of_eq hdisk] at hsound
    obtain ⟨u', hu', hkeys, hshows⟩ := hsound.onDisk.shows (hb.onDisk.mono hd.grows)
    exact ⟨u', hu', hkeys, .inl hshows⟩
  · have hmem : v'.mutations ≠ v.mutations := fun heq => hdisk (hsame heq).2
    rw [committedOf_of_ne hdisk] at hsound
    rw [lastAddedOf_of_ne hmem] at hdata
    obtain ⟨u', hu', hkeys, hshows⟩ := hsound.onDisk.shows hdata
    exact ⟨u', hu', hkeys, .inr ⟨v'.files, hchanges hmem, hshows⟩⟩

/-- A run on the sample vault: a file is added, and its removal stops between
the append of the index and the header write. -/
theorem stop_shows_before_or_after_sample : ∃ u info v v' snap header,
    unlock transparentCrypto indexJson sampleDisk samplePassword = some u
      ∧ CallRun transparentCrypto indexJson (.addFile "photo" "photo.jpg" [1]) (u.vault info) v .done
      ∧ CallRun transparentCrypto indexJson (.removeFile "photo") v v'
          (.writingHeader snap (some header))
      ∧ ∃ u', unlock transparentCrypto indexJson v'.disk samplePassword = some u'
        ∧ u'.session = u.session
        ∧ (Shows transparentCrypto u'
            ⟨v.files, (Call.addFile "photo" "photo.jpg" [1]).lastAdded fun _ => []⟩
          ∨ ∃ after, Call.Changes (.removeFile "photo") v after
            ∧ Shows transparentCrypto u' ⟨after, (Call.removeFile "photo").lastAdded
                ((Call.addFile "photo" "photo.jpg" [1]).lastAdded fun _ => [])⟩) := by
  have hC := transparentAead_correct 12
  obtain ⟨u, info, hvault, _, hfiles, hdisk, _⟩ := sampleVault_intact fun _ => []
  obtain ⟨v, hruns, hlisted, hsize, hlast, hactive⟩ := sampleVault_adds hvault hfiles hdisk
  have hadd := (CallRun.start (C := transparentCrypto) (K := indexJson)
    (.addFile "photo" "photo.jpg" [1] rfl)).alone (alone_of_inTurn hruns)
  have hwritten : v.lastWritten ≠ (u.vault info).lastWritten := by
    rw [hlast]
    exact Nat.one_ne_zero
  have hopened : Session transparentCrypto indexJson (u.vault info) (fun _ => []) (u.vault info)
      ⟨u.files, fun _ => []⟩ fun _ => [] := .opened
  have hsession := hopened.committed rfl hadd rfl hwritten
  have hbetween := hsession.between hC (Between.opened hvault) (Nat.lt_trans hsize (by decide))
  rw [Vault.sampleAdded_eq hfiles] at hlisted
  obtain ⟨v', header, hremoves, _, _, _, _, hsize'⟩ := sampleRemoval_reaches_header
    hbetween.sound.toVaultOk hbetween.session hsize (by rw [hlisted]; rfl)
  have hremoval := (CallRun.start (C := transparentCrypto) (K := indexJson)
    (.removeFile "photo" (zeroVec 12) hactive (by rw [hlisted]; rfl))).alone
      (alone_of_inTurn hremoves)
  exact ⟨u, info, v, v', _, header, hvault.opens, hadd, hremoval,
    stop_shows_before_or_after hC hvault hsession rfl hremoval hsize'⟩

end UsbVault.App
