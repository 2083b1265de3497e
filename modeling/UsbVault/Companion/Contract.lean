import UsbVault.Companion.Compaction

/-!
# The companion as its clients see it

Each call of the companion on the content of `VAULT.bin`, as one partial
function: what it returns and what the file becomes. The theorems tie
the functions to the programs of the service: whenever a program
succeeds, it has done what its function says. The last part says which
header bytes the service stores and reads back.
-/

namespace UsbVault.Companion

open Wire Effect Prog FsOp

/-- `readVaultHeader` -/
def readHeaderOf (disk : Bytes) : Option Bytes :=
  if disk.length < HEADER_SIZE then none
  else if disk.take 8 ≠ VAULT_MAGIC then none
  else some (disk.take HEADER_SIZE)

/-- `readBytes` -/
def readBytesOf (disk : Bytes) (offset length : Nat) : Option Bytes :=
  if length = 0 ∨ MAX_IO_SIZE < length ∨ disk.length < offset + length then none
  else some (pread disk offset length)

/-- `writeVaultHeader` -/
def writeHeaderOf (disk headerBytes : Bytes) : Option Bytes :=
  if headerBytes.length = HEADER_SIZE ∧ headerBytes.take 8 = VAULT_MAGIC then
    some (headerBytes ++ disk.drop HEADER_SIZE)
  else none

/-- `appendBytes` -/
def appendOf (disk data : Bytes) : Option (Entry × Bytes) :=
  if data = [] ∨ MAX_IO_SIZE < data.length then none
  else some (⟨disk.length, data.length⟩, disk ++ data)

/-- `compactVault` -/
def compactOf (disk : Bytes) (activeFiles : Js.Obj Entry) : Compacted × Bytes :=
  (compactedResult disk activeFiles, compactedFile disk activeFiles)

variable {fs fs' : Fs} {disk : Bytes} {mountPoint : String}

/-! ## The programs do what the functions say -/

theorem readVaultHeader_contract (hf : fs.vaultBin = some disk) {buf : Bytes}
    (hrun : Runs Io (readVaultHeader mountPoint) fs (.ok buf) fs') :
    readHeaderOf disk = some buf ∧ fs'.vaultBin = some disk := by
  have hret : Returns Io (fun t => t.vaultBin = some disk)
      (fun buf _ => readHeaderOf disk = some buf) (readVaultHeader mountPoint) fs := by
    rw [readVaultHeader]
    refine returns_bind (returns_vaultBinPath mountPoint hf) ?_
    rintro _ _ _ ⟨rfl, rfl⟩
    refine returns_bind (completes_openVaultBin (by simp) hf fun _ => id).1 ?_
    intro fd t ht hopen
    refine returns_finally_close fd ?_
    refine returns_bind (hopen.completes_read ht HEADER_SIZE 0).1 ?_
    rintro _ _ _ ⟨rfl, rfl⟩
    by_cases hshort : (pread disk 0 HEADER_SIZE).length < HEADER_SIZE
    · rw [if_pos hshort]
      exact returns_fail _ ht
    rw [if_neg hshort]
    by_cases hmagic : (pread disk 0 HEADER_SIZE).take 8 = VAULT_MAGIC
    case neg => rw [if_pos hmagic]; exact returns_fail _ ht
    rw [if_neg (not_not_intro hmagic)]
    refine returns_done ht ?_
    rw [pread_length] at hshort
    have hheader : (8 : Nat) ≤ HEADER_SIZE := by decide
    rw [pread, List.drop_zero, List.take_take, Nat.min_eq_left hheader] at hmagic
    rw [readHeaderOf, if_neg (by omega), if_neg (not_not_intro hmagic)]
    rfl
  have hkeeps := hret.runs_inv hrun
  exact ⟨hret.runs hrun, hkeeps⟩

theorem readBytes_contract (hf : fs.vaultBin = some disk) {offset length : Nat} {buf : Bytes}
    (hrun : Runs Io (readBytes mountPoint offset length) fs (.ok buf) fs') :
    readBytesOf disk offset length = some buf ∧ fs'.vaultBin = some disk := by
  have hret : Returns Io (fun t => t.vaultBin = some disk)
      (fun buf _ => readBytesOf disk offset length = some buf)
      (readBytes mountPoint offset length) fs := by
    rw [readBytes]
    by_cases hzero : length = 0
    · rw [if_pos hzero]
      exact returns_fail _ hf
    by_cases hbig : MAX_IO_SIZE < length
    · rw [if_neg hzero, if_pos hbig]
      exact returns_fail _ hf
    rw [if_neg hzero, if_neg hbig]
    refine returns_bind (returns_vaultBinPath mountPoint hf) ?_
    rintro _ _ _ ⟨rfl, rfl⟩
    refine returns_bind (completes_openVaultBin (by simp) hf fun _ => id).1 ?_
    intro fd t ht hopen
    refine returns_finally_close fd ?_
    refine returns_bind (hopen.completes_read ht length offset).1 ?_
    rintro _ _ _ ⟨rfl, rfl⟩
    by_cases hshort : (pread disk offset length).length < length
    · rw [if_pos hshort]
      exact returns_fail _ ht
    rw [if_neg hshort]
    refine returns_done ht ?_
    rw [pread_length] at hshort
    rw [readBytesOf, if_neg (by omega)]
  have hkeeps := hret.runs_inv hrun
  exact ⟨hret.runs hrun, hkeeps⟩

theorem writeVaultHeader_contract (hf : fs.vaultBin = some disk)
    (hlen : HEADER_SIZE ≤ disk.length) {headerBytes : Bytes}
    (hrun : Runs Io (writeVaultHeaderImpl mountPoint headerBytes) fs (.ok ()) fs') :
    ∃ disk', writeHeaderOf disk headerBytes = some disk' ∧ fs'.vaultBin = some disk' := by
  obtain ⟨hsize, hmagic, hfile⟩ :=
    (returns_writeVaultHeader mountPoint headerBytes hf hlen).runs hrun
  exact ⟨_, by rw [writeHeaderOf, if_pos ⟨hsize, hmagic⟩], hfile fun _ _ => id⟩

theorem appendBytes_contract (hf : fs.vaultBin = some disk) {data : Bytes} {entry : Entry}
    (hrun : Runs Io (appendBytesImpl mountPoint data) fs (.ok entry) fs') :
    ∃ disk', appendOf disk data = some (entry, disk') ∧ fs'.vaultBin = some disk' := by
  obtain ⟨rfl, hempty, hsize, hfile⟩ :=
    (returns_appendBytes mountPoint data hf fun _ _ => id).runs hrun
  exact ⟨_, by rw [appendOf, if_neg (by simp [hempty]; omega)], hfile⟩

theorem compactVault_contract (hmount : validateMountPoint mountPoint = pure ())
    (hf : fs.vaultBin = some disk) {activeFiles : Js.Obj Entry} {r : Compacted}
    (hrun : Runs Io (compactVaultImpl mountPoint activeFiles) fs (.ok r) fs') :
    compactOf disk activeFiles = (r, compactedFile disk activeFiles)
      ∧ fs'.vaultBin = some (compactedFile disk activeFiles) := by
  obtain ⟨rfl, hfile⟩ := (completes_compactVault activeFiles hmount hf).1.runs hrun
  exact ⟨rfl, hfile⟩

/-! ## Headers stored and read back -/

/-- The service accepts the header bytes, and then reads them back
unchanged. -/
def StoresHeader (mountPoint : String) (fs : Fs) (headerBytes : Bytes) : Prop :=
  Completes Io (fun _ => True) (fun buf _ => buf = headerBytes)
    (do writeVaultHeaderImpl mountPoint headerBytes; readVaultHeader mountPoint) fs

theorem completes_vaultBinPath (hmount : validateMountPoint mountPoint = pure ()) :
    Completes Io (fun _ => True) (fun p t => p = FilePath.vaultBin ∧ t = fs)
      (vaultBinPath mountPoint) fs := by
  rw [vaultBinPath, hmount]
  exact completes_done trivial ⟨rfl, rfl⟩

theorem completes_writeVaultHeader (hmount : validateMountPoint mountPoint = pure ())
    (hf : fs.vaultBin = some disk) {headerBytes : Bytes}
    (hsize : headerBytes.length = HEADER_SIZE) (hmagic : headerBytes.take 8 = VAULT_MAGIC) :
    Completes Io (fun _ => True)
      (fun _ t => t.vaultBin = some (headerBytes ++ disk.drop HEADER_SIZE))
      (writeVaultHeaderImpl mountPoint headerBytes) fs := by
  rw [writeVaultHeaderImpl, if_neg (not_not_intro hsize), if_neg (not_not_intro hmagic)]
  have hwritten : pwrite disk 0 headerBytes = headerBytes ++ disk.drop HEADER_SIZE := by
    rw [pwrite_of_le _ (Nat.zero_le _), hsize]
    simp
  refine completes_bind (completes_vaultBinPath hmount) ?_
  rintro _ _ - ⟨rfl, rfl⟩
  refine completes_bind (completes_openVaultBin (by simp) hf fun _ _ => trivial) ?_
  rintro fd t - ⟨htf, hfd⟩
  refine completes_bind (M := fun _ u =>
    u.vaultBin = some (headerBytes ++ disk.drop HEADER_SIZE)) ?_ ?_
  · refine completes_finally_close fd ?_
    refine completes_bind (M := fun _ u =>
      u.vaultBin = some (headerBytes ++ disk.drop HEADER_SIZE)) ?_ ?_
    · exact completes_write hfd htf trivial (fun _ => trivial) (congrArg some hwritten)
    · intro _ u _ hq
      exact completes_readOnly (o := datasync fd) rfl rfl trivial rfl hq
  intro _ u _ hu
  refine completes_bind (completes_openVaultBin (by simp) hu fun _ _ => trivial) ?_
  intro verifyFd v _ hopen
  refine completes_finally_close verifyFd ?_
  refine completes_bind (hopen.completes_read trivial HEADER_SIZE 0) ?_
  rintro _ _ - ⟨-, rfl⟩
  exact completes_done trivial hopen.1

theorem completes_readVaultHeader (hmount : validateMountPoint mountPoint = pure ())
    (hf : fs.vaultBin = some disk) (hlen : HEADER_SIZE ≤ disk.length)
    (hmagic : disk.take 8 = VAULT_MAGIC) :
    Completes Io (fun _ => True) (fun buf _ => buf = disk.take HEADER_SIZE)
      (readVaultHeader mountPoint) fs := by
  rw [readVaultHeader]
  refine completes_bind (completes_vaultBinPath hmount) ?_
  rintro _ _ - ⟨rfl, rfl⟩
  refine completes_bind (completes_openVaultBin (by simp) hf fun _ _ => trivial) ?_
  intro fd t _ hopen
  refine completes_finally_close fd ?_
  refine completes_bind (hopen.completes_read trivial HEADER_SIZE 0) ?_
  rintro _ u - ⟨rfl, -⟩
  rw [pread, List.drop_zero]
  have hlong : ¬ (disk.take HEADER_SIZE).length < HEADER_SIZE := by
    rw [List.length_take]
    omega
  have hheader : (8 : Nat) ≤ HEADER_SIZE := by decide
  rw [if_neg hlong, List.take_take, Nat.min_eq_left hheader, if_neg (not_not_intro hmagic)]
  exact completes_done trivial rfl

/-- **The companion stores V4-sized bytes under the V4 magic, and nothing
else.** -/
theorem storesHeader_iff (hmount : validateMountPoint mountPoint = pure ())
    (hf : fs.vaultBin = some disk) {headerBytes : Bytes} :
    StoresHeader mountPoint fs headerBytes
      ↔ headerBytes.length = HEADER_SIZE ∧ headerBytes.take 8 = VAULT_MAGIC := by
  constructor
  · rintro ⟨-, buf, fs', hrun⟩
    rw [writeVaultHeaderImpl] at hrun
    by_cases hsize : headerBytes.length = HEADER_SIZE
    case neg => rw [if_pos hsize] at hrun; cases hrun
    by_cases hmagic : headerBytes.take 8 = VAULT_MAGIC
    case neg => rw [if_neg (not_not_intro hsize), if_pos hmagic] at hrun; cases hrun
    exact ⟨hsize, hmagic⟩
  · rintro ⟨hsize, hmagic⟩
    refine completes_bind (completes_writeVaultHeader hmount hf hsize hmagic) ?_
    intro _ t _ ht
    have hread := completes_readVaultHeader hmount ht
      (by rw [List.length_append]; omega)
      (by rw [List.take_append_of_le_length (by rw [hsize]; decide), hmagic])
    rwa [List.take_left' hsize] at hread

/-- A partition under an allowed directory, with a container on it. -/
def sampleFs : Fs :=
  { vaultBin := some [], compact := none, handles := [], blocks := 0, bsize := 0 }

theorem sampleMount : validateMountPoint "/media/usb" = pure () := by
  rw [validateMountPoint, if_pos (by decide)]

end UsbVault.Companion
