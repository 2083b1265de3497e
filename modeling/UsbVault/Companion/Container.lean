import UsbVault.Lib.FileBytes
import UsbVault.Lib.JsObject
import UsbVault.Lib.Effect

/-!
# The companion's container service

The mutators of `VAULT.bin`, each an `async` function over the file
system of one mounted partition. Every file operation may fail; a failed
write may have written any prefix of its buffer and another failed
operation may have taken effect. A read or a write that succeeds may have
come to fewer bytes than it was asked for (`FileIo`); the service looks at
what its reads have brought, and never at what its writes have written.

File handles keep a position: a write at a numeric position leaves it
alone, a write at `null` uses and advances it.
-/

namespace UsbVault.Companion

open Wire Effect

/-- VAULT.bin magic bytes -/
def VAULT_MAGIC : Bytes := ascii "USBVLT04"

/-- V4 header size: 24576 bytes -/
def HEADER_SIZE : Nat := 24576

/-- Maximum single read/write: 64 MiB -/
def MAX_IO_SIZE : Nat := 64 * 1024 * 1024

/-- A byte range of the container. -/
structure Entry where
  offset : Nat
  length : Nat
  deriving DecidableEq, Repr

/-! ## The partition -/

/-- The files of the partition the service touches. -/
inductive FilePath where
  | vaultBin
  | compact
  deriving DecidableEq, Repr

/-- A partition: the two files, the open handles (file and position, by
handle number) and its size as `statfs` gives it. No handle is open
across a rename, so a handle may name its file by path. -/
structure Fs where
  vaultBin : Option Bytes
  compact : Option Bytes
  handles : List (FilePath × Nat)
  blocks : Nat
  bsize : Nat
  deriving DecidableEq, Repr

namespace Fs

def content (fs : Fs) : FilePath → Option Bytes
  | .vaultBin => fs.vaultBin
  | .compact => fs.compact

def setContent (fs : Fs) (p : FilePath) (f : Bytes) : Fs :=
  match p with
  | .vaultBin => { fs with vaultBin := some f }
  | .compact => { fs with compact := some f }

end Fs

/-- Modes of `open`. -/
inductive Flags where
  | r
  | rPlus
  | w
  deriving DecidableEq, Repr

/-- The awaited calls of `node:fs/promises`. -/
inductive FsOp where
  | stat (p : FilePath)
  | statfs
  | openFile (p : FilePath) (flags : Flags)
  | fstat (fd : Nat)
  | read (fd length position : Nat)
  | write (fd : Nat) (buffer : Bytes) (position : Option Nat)
  | datasync (fd : Nat)
  | close (fd : Nat)
  | rename (oldPath newPath : FilePath)

namespace FsOp

/-- What each call resolves to. -/
abbrev Ret : FsOp → Type
  | stat _ => Nat
  | statfs => Nat × Nat
  | openFile _ _ => Nat
  | fstat _ => Nat
  | read _ _ _ => Bytes
  | write _ _ _ => Unit
  | datasync _ => Unit
  | close _ => Unit
  | rename _ _ => Unit

/-- What the call does when it succeeds. -/
def effect : (o : FsOp) → Fs → Option (o.Ret × Fs)
  | stat p, fs => (fs.content p).map fun f => (f.length, fs)
  | statfs, fs => some ((fs.blocks, fs.bsize), fs)
  | openFile p flags, fs =>
    match flags, fs.content p with
    | .w, _ => some (fs.handles.length,
        { fs.setContent p [] with handles := fs.handles ++ [(p, 0)] })
    | _, some _ => some (fs.handles.length,
        { fs with handles := fs.handles ++ [(p, 0)] })
    | _, none => none
  | fstat fd, fs => do
      let (p, _) ← fs.handles[fd]?
      let f ← fs.content p
      return (f.length, fs)
  | read fd length position, fs => do
      let (p, _) ← fs.handles[fd]?
      let f ← fs.content p
      return (pread f position length, fs)
  | write fd buffer position, fs => do
      let (p, pos) ← fs.handles[fd]?
      let f ← fs.content p
      match position with
      | some at_ => return ((), fs.setContent p (pwrite f at_ buffer))
      | none => return ((), { fs.setContent p (pwrite f pos buffer) with
          handles := fs.handles.set fd (p, pos + buffer.length) })
  | datasync _, fs => some ((), fs)
  | close _, fs => some ((), fs)
  | rename .compact .vaultBin, fs =>
    fs.compact.map fun f => ((), { fs with vaultBin := some f, compact := none })
  | rename .vaultBin .compact, fs =>
    fs.vaultBin.map fun f => ((), { fs with vaultBin := none, compact := some f })
  | rename _ _, fs => some ((), fs)

end FsOp

/-- What a call may do: succeed, fail without effect, fail after its
effect, fail in the middle of a write, or resolve with fewer bytes than it
was asked for where `Short` lets it. -/
inductive FileIo (Short : FsOp → Fs → Prop) :
    (o : FsOp) → Fs → Except String o.Ret → Fs → Prop
  | ok {o : FsOp} {fs fs' : Fs} {r : o.Ret} (heff : o.effect fs = some (r, fs')) :
      FileIo Short o fs (.ok r) fs'
  | failed {o : FsOp} (fs : Fs) (e : String) : FileIo Short o fs (.error e) fs
  | late {o : FsOp} {fs fs' : Fs} {r : o.Ret} (heff : o.effect fs = some (r, fs'))
      (e : String) : FileIo Short o fs (.error e) fs'
  | torn {fd : Nat} {buffer : Bytes} {position : Option Nat} {fs fs' : Fs}
      (n : Nat) (heff : (FsOp.write fd (buffer.take n) position).effect fs = some ((), fs'))
      (e : String) : FileIo Short (.write fd buffer position) fs (.error e) fs'
  | shortWrite {fd : Nat} {buffer : Bytes} {position : Option Nat} {fs fs' : Fs}
      (n : Nat) (heff : (FsOp.write fd (buffer.take n) position).effect fs = some ((), fs'))
      (hshort : Short (.write fd buffer position) fs) :
      FileIo Short (.write fd buffer position) fs (.ok ()) fs'
  | shortRead {fd length position : Nat} {fs fs' : Fs} {got : Bytes}
      (n : Nat) (heff : (FsOp.read fd length position).effect fs = some (got, fs'))
      (hshort : Short (.read fd length position) fs) :
      FileIo Short (.read fd length position) fs (.ok (got.take n)) fs'

/-- File handles whose reads and writes come to all the bytes there are. -/
abbrev Io : (o : FsOp) → Fs → Except String o.Ret → Fs → Prop := FileIo fun _ _ => False

/-- File handles as Node has them: each of their reads and writes may come
to fewer bytes. -/
abbrev NodeIo : (o : FsOp) → Fs → Except String o.Ret → Fs → Prop := FileIo fun _ _ => True

/-- An `async` function of the service. -/
abbrev Async (α : Type) := Prog FsOp FsOp.Ret String α

open Prog FsOp

/-! ## Paths -/

/-- The mount directories a partition may live under. -/
def allowed : List String := ["/Volumes/", "/media/", "/mnt/", "/run/media/"]

/-- `/^[A-Z]:\\/` -/
def isWindowsDrive (resolved : String) : Bool :=
  match resolved.toList with
  | drive :: ':' :: '\\' :: _ => 'A' ≤ drive && drive ≤ 'Z'
  | _ => false

/-- `validateMountPoint`, on a resolved path. -/
def validateMountPoint (resolved : String) : Async Unit :=
  if isWindowsDrive resolved
      || allowed.any fun pre => pre.toList.isPrefixOf resolved.toList then
    pure ()
  else fail "Mount point is not under a known USB mount directory"

/-- `vaultBinPath` -/
def vaultBinPath (mountPoint : String) : Async FilePath := do
  validateMountPoint mountPoint
  return .vaultBin

/-! ## Capacity -/

structure Capacity where
  allowed : Bool
  vaultSize : Nat
  partitionTotal : Nat
  maxAllowed : Nat
  remaining : Nat

/-- `checkCapacity`: the 50% rule, skipped where `statfs` fails. -/
def checkCapacity (mountPoint : String) (additionalBytes : Nat) : Async Capacity := do
  validateMountPoint mountPoint
  let partitionTotal ← ((perform statfs).bind fun fsStats =>
    pure (some (fsStats.1 * fsStats.2))).orElse (pure none)
  match partitionTotal with
  | none => pure ⟨true, 0, 0, 0, 0⟩
  | some partitionTotal => do
      let vaultSize ← ((vaultBinPath mountPoint).bind fun path =>
        perform (stat path)).orElse (pure 0)
      let maxAllowed := partitionTotal / 2
      let projectedSize := vaultSize + additionalBytes
      pure ⟨projectedSize ≤ maxAllowed, vaultSize, partitionTotal, maxAllowed,
        maxAllowed - vaultSize⟩

/-- `(bytes / (1024 * 1024)).toFixed(1)` -/
def toFixedMB (bytes : Nat) : String :=
  let tenths := (20 * bytes + 1048576) / 2097152
  toString (tenths / 10) ++ "." ++ toString (tenths % 10)

/-! ## Reads -/

/-- `readVaultHeader` -/
def readVaultHeader (mountPoint : String) : Async Bytes := do
  let path ← vaultBinPath mountPoint
  let fd ← perform (openFile path .r)
  ensuring (do
    let buf ← perform (read fd HEADER_SIZE 0)
    if buf.length < HEADER_SIZE then
      fail ("VAULT.bin header truncated: expected " ++ toString HEADER_SIZE ++ ", got "
        ++ toString buf.length)
    else if buf.take 8 ≠ VAULT_MAGIC then
      fail "Invalid VAULT.bin: magic bytes mismatch"
    else pure buf) (perform (close fd))

/-- `readBytes`, for an offset that is not negative. -/
def readBytes (mountPoint : String) (offset length : Nat) : Async Bytes :=
  if length = 0 then fail "Invalid offset or length"
  else if MAX_IO_SIZE < length then
    fail ("Read size " ++ toString length ++ " exceeds maximum " ++ toString MAX_IO_SIZE)
  else do
    let path ← vaultBinPath mountPoint
    let fd ← perform (openFile path .r)
    ensuring (do
      let buf ← perform (read fd length offset)
      if buf.length < length then
        fail ("Short read: expected " ++ toString length ++ ", got " ++ toString buf.length)
      else pure buf) (perform (close fd))

/-! ## The mutators -/

/-- `_writeVaultHeaderImpl`. What the verification read finds is only
logged. -/
def writeVaultHeaderImpl (mountPoint : String) (headerBytes : Bytes) : Async Unit :=
  if headerBytes.length ≠ HEADER_SIZE then
    fail ("Header must be exactly " ++ toString HEADER_SIZE ++ " bytes")
  else if headerBytes.take 8 ≠ VAULT_MAGIC then
    fail "Refusing to write header: VAULT magic bytes mismatch"
  else do
    let path ← vaultBinPath mountPoint
    let fd ← perform (openFile path .rPlus)
    ensuring (do
      perform (write fd headerBytes (some 0))
      perform (datasync fd)) (perform (close fd))
    let verifyFd ← perform (openFile path .r)
    ensuring (do
      let _verifyBuf ← perform (read verifyFd HEADER_SIZE 0)
      pure ()) (perform (close verifyFd))

/-- `_appendBytesImpl` -/
def appendBytesImpl (mountPoint : String) (data : Bytes) : Async Entry :=
  if data = [] then fail "Data must be a non-empty Buffer"
  else if MAX_IO_SIZE < data.length then
    fail ("Write size " ++ toString data.length ++ " exceeds maximum "
      ++ toString MAX_IO_SIZE)
  else do
    let capacity ← checkCapacity mountPoint data.length
    if capacity.allowed then do
      let path ← vaultBinPath mountPoint
      let fd ← perform (openFile path .rPlus)
      ensuring (do
        let offset ← perform (fstat fd)
        perform (write fd data (some offset))
        perform (datasync fd)
        pure ⟨offset, data.length⟩) (perform (close fd))
    else fail ("Vault capacity limit reached (50% rule). Maximum vault size: "
      ++ toFixedMB capacity.maxAllowed ++ " MB, remaining: "
      ++ toFixedMB capacity.remaining
      ++ " MB. Compact the vault or use a larger USB drive.")

/-- What the compaction loop has gathered. -/
structure Gathered where
  newOffsets : Js.Obj Entry
  records : List Bytes
  writeOffset : Nat

def Gathered.start : Gathered := ⟨[], [], HEADER_SIZE⟩

/-- One record read in full: `records.push`, `newOffsets[fileId] = ...`,
`writeOffset += ...`. -/
def Gathered.push (acc : Gathered) (fileId : String) (entry : Entry) (buf : Bytes) :
    Gathered :=
  { newOffsets := acc.newOffsets.assign fileId ⟨acc.writeOffset, entry.length⟩
    records := acc.records ++ [buf]
    writeOffset := acc.writeOffset + entry.length }

/-- `for (const [fileId, entry] of Object.entries(activeFiles))` -/
def readRecords (readFd : Nat) : Js.Obj Entry → Gathered → Async Gathered
  | [], acc => pure acc
  | (fileId, entry) :: rest, acc =>
    if entry.offset = 0 ∨ entry.length = 0 then readRecords readFd rest acc
    else if MAX_IO_SIZE < entry.length then readRecords readFd rest acc
    else do
      let buf ← perform (read readFd entry.length entry.offset)
      if buf.length < entry.length then readRecords readFd rest acc
      else readRecords readFd rest (acc.push fileId entry buf)

/-- `for (const { buf } of records)`: sequential writes. -/
def writeRecords (writeFd : Nat) : List Bytes → Async Unit
  | [] => pure ()
  | buf :: rest => do
      perform (write writeFd buf none)
      writeRecords writeFd rest

/-- What `compactVault` resolves to. -/
structure Compacted where
  newOffsets : Js.Obj Entry
  oldSize : Nat
  newSize : Nat

/-- The header buffer: what was read, zeros after it (`Buffer.alloc`). -/
def headerBuffer (got : Bytes) : Bytes := got ++ zeros (HEADER_SIZE - got.length)

/-- `_compactVaultImpl` -/
def compactVaultImpl (mountPoint : String) (activeFiles : Js.Obj Entry) :
    Async Compacted := do
  let path ← vaultBinPath mountPoint
  let oldSize ← perform (stat path)
  let fd ← perform (openFile path .r)
  let header ← ensuring (do
    let got ← perform (read fd HEADER_SIZE 0)
    pure (headerBuffer got)) (perform (close fd))
  let readFd ← perform (openFile path .r)
  let gathered ← ensuring (readRecords readFd activeFiles.entries .start)
    (perform (close readFd))
  let writeFd ← perform (openFile .compact .w)
  ensuring (do
    perform (write writeFd header (some 0))
    writeRecords writeFd gathered.records
    perform (datasync writeFd)) (perform (close writeFd))
  perform (rename .compact path)
  pure ⟨gathered.newOffsets, oldSize, gathered.writeOffset⟩

end UsbVault.Companion
