import UsbVault.App.CallRun
import UsbVault.App.Provision
import UsbVault.Lib.Interleave

/-!
# Calls that meet no error

A sound vault below 4 GiB, primitives that do not throw, and a companion
that accepts what it is sent: an `addFile` then runs to its end and
commits the file (`addFile_completes`). The run is built from three parts,
each usable on its own: up to the change of the index
(`addFile_lists`), from there to the header write (`sealIndex_appends`),
and the header write to the end (`header_proceeds`).
-/

namespace UsbVault.App

open Wire Js Companion Interleave

section Machine

variable (C : WebCrypto) (K : IndexCodec)

/-- A step that does not end in an error. -/
def Proceeds (v : Vault) (pc : Pc) (v' : Vault) (pc' : Pc) : Prop :=
  CallStep C K v pc v' pc' ∧ pc' ≠ .threw

/-- No header of a later change is on disk when a call writes its own, and
the header can name the appended index. -/
def InTurn (v : Vault) : Pc → Prop
  | .appendedIndex _ range => range.offset < 2 ^ 32
  | .writingHeader snap _ => v.lastWritten ≤ snap.ticket
  | _ => True

/-- A successful step in turn. -/
def ProceedsInTurn (v : Vault) (pc : Pc) (v' : Vault) (pc' : Pc) : Prop :=
  Proceeds C K v pc v' pc' ∧ InTurn v pc

end Machine

variable {C : WebCrypto} {K : IndexCodec} {password : Bytes} {keys : VaultSession}
variable {c : Call} {v v' v'' : Vault} {pc pc' : Pc}

theorem CallRun.alone (hrun : CallRun C K c v v' pc)
    (hsteps : Alone (Proceeds C K) (v', pc) (v'', pc')) : CallRun C K c v v'' pc' := by
  have hall : ∀ b, Alone (Proceeds C K) (v', pc) b → CallRun C K c v b.1 b.2 := by
    intro b hb
    induction hb with
    | refl => exact hrun
    | tail _ hlast ih => exact ih.step hlast.1
  exact hall (v'', pc') hsteps

theorem alone_of_inTurn (h : Alone (ProceedsInTurn C K) (v, pc) (v', pc')) :
    Alone (Proceeds C K) (v, pc) (v', pc') :=
  h.mono fun _ _ _ _ hstep => hstep.1

/-! ## The three parts -/

theorem sealIndex_appends (hC : C.aesGcm.Correct) (htotal : C.Total)
    (hv : VaultOk C password keys v) (hkeys : v.session = keys) (hsize : v.disk.length < 2 ^ 32)
    (hfit : (K.stringify v.files).length + 28 ≤ MAX_IO_SIZE) (iv : ByteVec 12) :
    ∃ blob header, blob.length = (K.stringify v.files).length + 28
      ∧ Alone (ProceedsInTurn C K) (v, v.sealIndex C K iv)
          (v.write (v.disk ++ blob) v.session.encryptionKey,
            .writingHeader ⟨v.files, v.mutations⟩ (some header))
      ∧ VaultOk C password keys (v.write (v.disk ++ blob) v.session.encryptionKey)
      ∧ CallSound C K password keys (v.disk ++ blob)
          (.writingHeader ⟨v.files, v.mutations⟩ (some header)) := by
  obtain ⟨blob, hblob⟩ := htotal.encryptRaw v.session.encryptionKey iv (K.stringify v.files)
  have hlen := aesGcmEncryptRaw_length hC hblob
  have hseal : v.sealIndex C K iv
      = .appendingIndex ⟨v.files, v.mutations⟩ (some ⟨blob, v.session.encryptionKey⟩) := by
    rw [Vault.sealIndex, encryptVaultContainerIndex, hblob, Option.map_some]
  have hcall : CallSound C K password keys v.disk (v.sealIndex C K iv) :=
    sealIndex_sound hC hkeys hv.nodup iv
  rw [hseal] at hcall ⊢
  have happend := appendOf_eq v.disk (d := blob) (by omega) (by omega)
  have hindex : CallStep C K v
      (.appendingIndex ⟨v.files, v.mutations⟩ (some ⟨blob, v.session.encryptionKey⟩))
      (v.write (v.disk ++ blob) v.session.encryptionKey)
      (.appendedIndex ⟨v.files, v.mutations⟩ ⟨v.disk.length, blob.length⟩) := .index happend
  obtain ⟨_, hok, hat⟩ := hindex.ok hC hv hcall (fun hreads => by cases hreads)
    (fun _ hpc => by cases hpc) fun _ _ hpc => by cases hpc
  have hheader := sealHeader_sound (C := C) (K := K) hkeys hv.cached hat.1 hat.2 hsize
  obtain ⟨header, hcommit⟩ : ∃ header, v.sealHeader C ⟨v.disk.length, blob.length⟩ = some header := by
    obtain ⟨bytes, hbytes, _⟩ := commitVaultIndex_spec (C := C) hv.cached.web v.session.hmacKey
      hsize hat.2.length_lt
    exact ⟨⟨bytes, v.session.hmacKey⟩, by rw [Vault.sealHeader, hbytes, Option.map_some]⟩
  rw [hcommit] at hheader
  have hseal' : CallStep C K (v.write (v.disk ++ blob) v.session.encryptionKey)
      (.appendedIndex ⟨v.files, v.mutations⟩ ⟨v.disk.length, blob.length⟩)
      (v.write (v.disk ++ blob) v.session.encryptionKey)
      (.writingHeader ⟨v.files, v.mutations⟩ (some header)) := by
    rw [← hcommit]
    exact .commit
  refine ⟨blob, header, hlen, ?_, hok, hheader⟩
  exact ((Alone.refl _ _).move ⟨⟨hindex, fun hpc => by cases hpc⟩, trivial⟩).move
    ⟨⟨hseal', fun hpc => by cases hpc⟩, hsize⟩

/-- The index after an add. -/
def Vault.added (v : Vault) (fileId filename : String) (data : Bytes)
    (createdAt modifiedAt : String) : Files :=
  v.files.assign fileId
    (v.newEntry fileId filename data ⟨v.disk.length, data.length + 40⟩ createdAt modifiedAt)

/-- From the start of an add until its record is in the file, under
whatever key the vault object holds. -/
theorem record_steps (hC : C.aesGcm.Correct) (htotal : C.Total) (v : Vault) (data : Bytes)
    (hfit : data.length + 40 ≤ MAX_IO_SIZE) (fileId filename : String) (iv : ByteVec 12) :
    ∃ record, record.length = data.length + 40
      ∧ v.sealRecord C iv data = some ⟨record, v.session.encryptionKey⟩
      ∧ CallStep C K v (.checkingCapacity fileId filename data) v
          (.appendingRecord fileId filename data (some ⟨record, v.session.encryptionKey⟩))
      ∧ CallStep C K v
          (.appendingRecord fileId filename data (some ⟨record, v.session.encryptionKey⟩))
          (v.write (v.disk ++ record) v.session.encryptionKey)
          (.appendedRecord fileId filename data ⟨v.disk.length, data.length + 40⟩) := by
  obtain ⟨record, hrecord⟩ := htotal.encryptRaw v.session.encryptionKey iv
    (RECORD_MAGIC ++ leBytes 4 v.headerInfo.cipherId ++ leBytes 4 data.length ++ data)
  have hlen : record.length = data.length + 40 := by
    have hmagic : RECORD_MAGIC.length = 4 := rfl
    rw [aesGcmEncryptRaw_length hC hrecord]
    simp only [List.length_append, leBytes_length, hmagic]
    omega
  have hseal : v.sealRecord C iv data = some ⟨record, v.session.encryptionKey⟩ := by
    rw [Vault.sealRecord, encryptFileRecord, hrecord, Option.map_some]
  have happend := appendOf_eq v.disk (d := record) (by omega) (by omega)
  refine ⟨record, hlen, hseal, ?_, ?_⟩
  · rw [← hseal]
    exact .allow iv
  · rw [← hlen]
    exact .record happend

theorem addFile_lists (hC : C.aesGcm.Correct) (htotal : C.Total) (hv : VaultOk C password keys v)
    (hkeys : v.session = keys) (data : Bytes) (hfit : data.length + 40 ≤ MAX_IO_SIZE)
    (fileId filename createdAt modifiedAt : String) (iv iv' : ByteVec 12) :
    ∃ record v', record.length = data.length + 40
      ∧ v' = (v.write (v.disk ++ record) v.session.encryptionKey).setFiles
          (v.added fileId filename data createdAt modifiedAt)
      ∧ Alone (ProceedsInTurn C K) (v, .checkingCapacity fileId filename data)
          (v', v'.sealIndex C K iv')
      ∧ VaultOk C password keys v' := by
  obtain ⟨record, hlen, hseal, hencrypts, hrecord⟩ :=
    record_steps (K := K) hC htotal v data hfit fileId filename iv
  have hcall : CallSound C K password keys v.disk
      (.appendingRecord fileId filename data (v.sealRecord C iv data)) :=
    sealRecord_sound hC hkeys iv fileId filename data
  rw [hseal] at hcall
  obtain ⟨_, hok, hat⟩ := hrecord.ok hC hv hcall nofun nofun nofun
  have hlist : CallStep C K (v.write (v.disk ++ record) v.session.encryptionKey)
      (.appendedRecord fileId filename data ⟨v.disk.length, data.length + 40⟩) _ _ :=
    .list createdAt modifiedAt iv'
  obtain ⟨_, hok', _⟩ := hlist.ok hC hok hat (fun _ => hkeys) nofun nofun
  exact ⟨record, _, hlen, rfl, (((Alone.refl _ _).move ⟨⟨hencrypts, nofun⟩, trivial⟩).move
    ⟨⟨hrecord, nofun⟩, trivial⟩).move ⟨⟨hlist, nofun⟩, trivial⟩, hok'⟩

theorem header_proceeds {snap : Snapshot} {header : Sealed}
    (hcall : CallSound C K password keys v.disk (.writingHeader snap (some header))) :
    ∃ v₁ info, v₁ = v.writeHeader (header.bytes ++ v.disk.drop HEADER_SIZE) header.key snap.ticket
      ∧ Proceeds C K v (.writingHeader snap (some header)) v₁ (.wroteHeader snap header.bytes)
      ∧ Proceeds C K v₁ (.wroteHeader snap header.bytes) { v₁ with headerBytes := header.bytes }
          (.parsing snap header.bytes)
      ∧ Proceeds C K { v₁ with headerBytes := header.bytes } (.parsing snap header.bytes)
          { v₁ with headerBytes := header.bytes, headerInfo := info } .done := by
  obtain ⟨_, hgood, _⟩ := hcall
  obtain ⟨info, hparse, _⟩ := parseVaultHeader_of_magic hgood.web.magic
  exact ⟨_, info, rfl, ⟨.header (writeHeaderOf_good _ hgood), nofun⟩, ⟨.cache, nofun⟩,
    ⟨.finish hparse, nofun⟩⟩

/-! ## A whole add -/

/-- What an add has done when it is about to write its header. -/
structure AboutToWrite (C : WebCrypto) (K : IndexCodec) (password : Bytes) (keys : VaultSession)
    (v : Vault) (files : Files) (v' : Vault) (header : Sealed) : Prop where
  call : CallSound C K password keys v'.disk (.writingHeader ⟨files, v.mutations + 1⟩ (some header))
  listed : v'.files = files
  mutations : v'.mutations = v.mutations + 1
  lastWritten : v'.lastWritten = v.lastWritten
  session : v'.session = keys
  active : v'.active = v.active
  ok : VaultOk C password keys v'

/-- **An add that meets no error comes to its header write.** -/
theorem addFile_reaches_header (hC : C.aesGcm.Correct) (htotal : C.Total)
    (hv : VaultOk C password keys v) (hkeys : v.session = keys) {data : Bytes}
    {fileId filename createdAt modifiedAt : String} (hfit : data.length + 40 ≤ MAX_IO_SIZE)
    (hindex : (K.stringify (v.added fileId filename data createdAt modifiedAt)).length + 28
      ≤ MAX_IO_SIZE) (hsize : v.disk.length + data.length + 40 < 2 ^ 32) (iv iv' : ByteVec 12) :
    ∃ v' header, Alone (ProceedsInTurn C K) (v, .checkingCapacity fileId filename data)
        (v', .writingHeader ⟨v.added fileId filename data createdAt modifiedAt, v.mutations + 1⟩
          (some header))
      ∧ AboutToWrite C K password keys v (v.added fileId filename data createdAt modifiedAt) v'
          header
      ∧ v'.disk.length = v.disk.length + data.length + 40
          + ((K.stringify (v.added fileId filename data createdAt modifiedAt)).length + 28) := by
  obtain ⟨record, v₁, hrecord, hv₁, hlists, hok₁⟩ := addFile_lists (K := K) hC htotal hv hkeys data hfit
    fileId filename createdAt modifiedAt iv iv'
  have hdisk₁ : v₁.disk.length = v.disk.length + data.length + 40 := by
    rw [hv₁]
    show (v.disk ++ record).length = _
    rw [List.length_append]
    omega
  have hfiles₁ : v₁.files = v.added fileId filename data createdAt modifiedAt := by rw [hv₁]; rfl
  have hmut₁ : v₁.mutations = v.mutations + 1 := by rw [hv₁]; rfl
  obtain ⟨blob, header, hblob, happends, hok₂, hcall⟩ := sealIndex_appends hC htotal hok₁
    (by rw [hv₁]; exact hkeys) (by omega) (by rw [hfiles₁]; exact hindex) iv'
  rw [hfiles₁, hmut₁] at happends hcall
  refine ⟨_, header, hlists.trans happends, ⟨hcall, hfiles₁, hmut₁, ?_, ?_, ?_, hok₂⟩, ?_⟩
  · rw [hv₁]; rfl
  · rw [hv₁]; exact hkeys
  · rw [hv₁]; rfl
  · show (v₁.disk ++ blob).length = _
    rw [List.length_append, hdisk₁, hblob, hfiles₁]

theorem header_completes {snap : Snapshot} {header : Sealed}
    (hlong : HEADER_SIZE ≤ v.disk.length)
    (hcall : CallSound C K password keys v.disk (.writingHeader snap (some header)))
    (hturn : v.lastWritten ≤ snap.ticket) :
    ∃ v', Alone (ProceedsInTurn C K) (v, .writingHeader snap (some header)) (v', .done)
      ∧ v'.files = v.files ∧ v'.mutations = v.mutations ∧ v'.lastWritten = snap.ticket
      ∧ v'.disk.length = v.disk.length ∧ v'.active = v.active := by
  obtain ⟨v₁, info, hv₁, hwrite, hcache, hfinish⟩ := header_proceeds hcall
  refine ⟨_, (((Alone.refl _ _).move ⟨hwrite, hturn⟩).move ⟨hcache, trivial⟩).move
    ⟨hfinish, trivial⟩, ?_, ?_, ?_, ?_, ?_⟩
  · rw [hv₁]; rfl
  · rw [hv₁]; rfl
  · rw [hv₁]; rfl
  · show v₁.disk.length = _
    rw [hv₁]
    exact (writeHeaderOf_length (writeHeaderOf_good _ hcall.2.1)).trans (Nat.max_eq_right hlong)
  · rw [hv₁]; rfl

/-- **An add that meets no error commits its file.** -/
theorem addFile_completes (hC : C.aesGcm.Correct) (htotal : C.Total)
    (hv : VaultOk C password keys v) (hkeys : v.session = keys)
    (hwritten : v.lastWritten ≤ v.mutations) {data : Bytes}
    {fileId filename createdAt modifiedAt : String} (hfit : data.length + 40 ≤ MAX_IO_SIZE)
    (hindex : (K.stringify (v.added fileId filename data createdAt modifiedAt)).length + 28
      ≤ MAX_IO_SIZE) (hsize : v.disk.length + data.length + 40 < 2 ^ 32) :
    ∃ v', Alone (ProceedsInTurn C K) (v, .checkingCapacity fileId filename data) (v', .done)
      ∧ v'.files = v.added fileId filename data createdAt modifiedAt
      ∧ v'.lastWritten = v'.mutations
      ∧ v'.disk.length = v.disk.length + data.length + 40
          + ((K.stringify (v.added fileId filename data createdAt modifiedAt)).length + 28) := by
  obtain ⟨v₁, header, hreaches, habout, hlen⟩ := addFile_reaches_header hC htotal hv hkeys hfit
    hindex hsize (zeroVec 12) (zeroVec 12)
  have hturn : v₁.lastWritten ≤ v.mutations + 1 := by
    rw [habout.lastWritten]
    exact hwritten.trans (Nat.le_succ _)
  obtain ⟨v', hcompletes, hfiles, hmut, hlast, hlen', _⟩ :=
    header_completes habout.ok.headerOnDisk.long habout.call hturn
  refine ⟨v', hreaches.trans hcompletes, hfiles.trans habout.listed, ?_, hlen'.trans hlen⟩
  rw [hlast, hmut, habout.mutations]

/-! ## A sample add -/

theorem parseVaultHeader_cipherId_lt {header : Bytes} {info : VaultHeaderInfo}
    (h : parseVaultHeader header = .ok info) : info.cipherId < 256 := by
  rw [parseVaultHeader] at h
  split at h
  · cases h
  · cases h
    exact UInt8.toNat_lt _

def sampleTime : String := "2026-01-01T00:00:00.000Z"

/-- The index of an empty vault after one small add. -/
def Vault.sampleAdded (v : Vault) : Files := v.added "photo" "photo.jpg" [1] sampleTime sampleTime

theorem Vault.sampleAdded_eq (hfiles : v.files = []) :
    v.sampleAdded = [("photo", v.newEntry "photo" "photo.jpg" [1] ⟨v.disk.length, 41⟩ sampleTime
      sampleTime)] := by
  rw [sampleAdded, added, hfiles]
  rfl

theorem Vault.sampleAdded_fits (hfiles : v.files = []) (hdisk : v.disk.length = HEADER_SIZE + 80)
    (hcipher : v.headerInfo.cipherId < 256) :
    (indexJson.stringify v.sampleAdded).length + 28 ≤ MAX_IO_SIZE := by
  have hsize := stringifyIndex_one_length_le "photo"
    (v.newEntry "photo" "photo.jpg" [1] ⟨v.disk.length, 41⟩ sampleTime sampleTime)
  have hweight : entryWeight (v.newEntry "photo" "photo.jpg" [1] ⟨v.disk.length, 41⟩ sampleTime
      sampleTime) = 9 + 64 + 24 + 24 + 1 + v.disk.length + 41 + v.headerInfo.cipherId + 1 := by
    have hsalt : (String.ofList (List.replicate 64 '0')).length = 64 := by
      rw [String.length_ofList, List.length_replicate]
    have hname : "photo.jpg".length = 9 := rfl
    have htime : sampleTime.length = 24 := rfl
    simp only [entryWeight, newEntry, hfiles, hsalt, hname, htime]
    rfl
  have hid : "photo".length = 5 := rfl
  have hmax : MAX_IO_SIZE = 67108864 := rfl
  have hheader : HEADER_SIZE = 24576 := rfl
  rw [hweight, hid, ← Vault.sampleAdded_eq hfiles] at hsize
  show (stringifyIndex v.sampleAdded).length + 28 ≤ MAX_IO_SIZE
  omega

end UsbVault.App
