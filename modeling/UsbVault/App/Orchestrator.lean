import UsbVault.App.HeaderFrame
import UsbVault.App.Index

/-!
# The vault orchestrator

`addFile`, `removeFile`, `compactVault` and `lock` on one unlocked vault,
as a step relation. The object of the vault is shared by every call in
flight; a call is a program counter with its locals, and goes from one
`await` to the next in one step. What a call passes to an asynchronous
function is read when the call is made: keys, the header copy and the
index are read then and not again.

A companion request takes effect in a step of its own (`record`,
`index`, `header`, `compact`, `fetch`), between the step that sends it
and the step that resumes. Any `await` may end in an error instead
(`throws`), before or after the request took effect.
-/

namespace UsbVault.App

open Wire Js Companion

/-! ## State -/

/-- A byte string and the key it was encrypted or authenticated under. -/
structure Sealed where
  bytes : Bytes
  key : ByteVec 32
  deriving DecidableEq

/-- The index a call encrypted, and the number of the index change it
follows. -/
structure Snapshot where
  files : Files
  ticket : Nat
  deriving DecidableEq

/-- The open vault: `VAULT.bin`, the fields of the `ActiveVault` object,
and whether the orchestrator still holds it. The last three fields are
history that no step reads: how many times the index was changed, after
which change the header on disk was made, and the keys everything written
so far was sealed under. -/
structure Vault where
  disk : Bytes
  files : Files
  headerBytes : Bytes
  headerInfo : VaultHeaderInfo
  session : VaultSession
  active : Bool
  mutations : Nat
  lastWritten : Nat
  sealedUnder : List (ByteVec 32)
  deriving DecidableEq

/-- Where a call is: at which `await`, with which locals. A value whose
computation throws is `none`. -/
inductive Pc where
  /-- `await usbService.checkCapacity` -/
  | checkingCapacity (fileId filename : String) (data : Bytes)
  /-- `await encryptFileRecord`, then `await appendVaultBytes` of its result -/
  | appendingRecord (fileId filename : String) (data : Bytes) (record : Option Sealed)
  /-- the record is in the file, the response on its way -/
  | appendedRecord (fileId filename : String) (data : Bytes) (range : Entry)
  /-- `await usbService.compactVaultContainer` -/
  | compacting (activeFiles : Obj Entry)
  /-- the file is rewritten, the response on its way -/
  | compacted (newOffsets : Obj Entry)
  /-- `await usbService.readVaultHeader` -/
  | fetchingHeader
  | fetchedHeader (header : Bytes)
  /-- `await parseVaultHeader` of the fresh header -/
  | parsingFresh (header : Bytes)
  /-- `await encryptVaultContainerIndex`, then `await appendVaultBytes` -/
  | appendingIndex (snap : Snapshot) (blob : Option Sealed)
  | appendedIndex (snap : Snapshot) (range : Entry)
  /-- `await commitVaultIndex`, then `await writeVaultHeader` -/
  | writingHeader (snap : Snapshot) (header : Option Sealed)
  | wroteHeader (snap : Snapshot) (header : Bytes)
  /-- `await parseVaultHeader` of the written header -/
  | parsing (snap : Snapshot) (header : Bytes)
  | done
  | threw
  deriving DecidableEq

/-- The call has ended. -/
def Pc.ended : Pc → Bool
  | .done | .threw => true
  | _ => false

/-! ## What the calls compute -/

/-- The entry `addFile` lists. -/
def Vault.newEntry (v : Vault) (fileId filename : String) (data : Bytes) (range : Entry)
    (createdAt modifiedAt : String) : VaultIndexEntry where
  name := filename
  size := data.length
  offset := range.offset
  length := range.length
  cipherId := v.headerInfo.cipherId
  saltHex := String.ofList (List.replicate 64 '0')
  createdAt := createdAt
  modifiedAt := modifiedAt
  version := ((v.files.get fileId).map VaultIndexEntry.version).getD 0 + 1

/-- Change the index. -/
def Vault.setFiles (v : Vault) (files : Files) : Vault :=
  { v with files := files, mutations := v.mutations + 1 }

/-- What `encryptVaultContainerIndex(encryptionKey, index)` was called with
and gives. -/
def Vault.sealIndex (C : WebCrypto) (K : IndexCodec) (v : Vault) (iv : ByteVec 12) : Pc :=
  .appendingIndex ⟨v.files, v.mutations⟩
    ((encryptVaultContainerIndex C K v.session.encryptionKey iv v.files).map
      fun bytes => ⟨bytes, v.session.encryptionKey⟩)

/-- What `encryptFileRecord` gives. -/
def Vault.sealRecord (C : WebCrypto) (v : Vault) (iv : ByteVec 12) (data : Bytes) :
    Option Sealed :=
  (encryptFileRecord C v.session.encryptionKey iv data v.headerInfo.cipherId).map
    fun bytes => ⟨bytes, v.session.encryptionKey⟩

/-- What `commitVaultIndex` gives. -/
def Vault.sealHeader (C : WebCrypto) (v : Vault) (range : Entry) : Option Sealed :=
  (commitVaultIndex C v.headerBytes v.session.hmacKey range.offset range.length).map
    fun bytes => ⟨bytes, v.session.hmacKey⟩

/-- Step 1 of `compactVault`: the ranges of the listed files. -/
def activeFilesOf (files : Files) : Obj Entry :=
  files.entries.foldl (fun o p =>
    if p.2.offset ≠ 0 ∧ 0 < p.2.length then o.assign p.1 p.2.range else o) []

/-- Names every object inherits; reading one gives a function or an object. -/
def objectPrototypeNames : List String :=
  ["constructor", "__defineGetter__", "__defineSetter__", "hasOwnProperty",
    "__lookupGetter__", "__lookupSetter__", "isPrototypeOf", "propertyIsEnumerable",
    "toString", "valueOf", "__proto__", "toLocaleString"]

/-- Step 3 of `compactVault`: take the new offsets over and drop the files
without one. -/
def relocate (files : Files) (newOffsets : Obj Entry) : Files :=
  let moved := newOffsets.entries.foldl (fun o p =>
    match o.get p.1 with
    | some e => o.overwrite p.1 { e with offset := p.2.offset, length := p.2.length }
    | none => o) files
  moved.filter fun p => (newOffsets.get p.1).isSome || p.1 ∈ objectPrototypeNames

/-- A string is written to `VAULT.bin`. -/
def Vault.write (v : Vault) (disk : Bytes) (key : ByteVec 32) : Vault :=
  { v with disk := disk, sealedUnder := v.sealedUnder ++ [key] }

/-- The header is written to `VAULT.bin`. -/
def Vault.writeHeader (v : Vault) (disk : Bytes) (key : ByteVec 32) (ticket : Nat) : Vault :=
  { v.write disk key with lastWritten := ticket }

/-! ## Calls -/

/-- The three mutating calls. -/
inductive Call where
  | addFile (fileId filename : String) (data : Bytes)
  | removeFile (fileId : String)
  | compactVault

section Steps

variable (C : WebCrypto) (K : IndexCodec)

/-- From the call to its first `await`. Where the file id is no property of
its own, `removeFile` throws, unless the object inherits the name. -/
inductive Begin : Call → Vault → Vault → Pc → Prop
  | notUnlocked {v : Vault} (c : Call) (h : v.active = false) : Begin c v v .threw
  | addFile {v : Vault} (fileId filename : String) (data : Bytes) (h : v.active = true) :
      Begin (.addFile fileId filename data) v v (.checkingCapacity fileId filename data)
  | removeFile {v : Vault} (fileId : String) (iv : ByteVec 12) (h : v.active = true)
      (hlisted : (v.files.get fileId).isSome) :
      Begin (.removeFile fileId) v (v.setFiles (v.files.delete fileId))
        ((v.setFiles (v.files.delete fileId)).sealIndex C K iv)
  | removeMissing {v : Vault} (fileId : String) (h : v.active = true)
      (hmissing : v.files.get fileId = none) (hname : fileId ∉ objectPrototypeNames) :
      Begin (.removeFile fileId) v v .threw
  | removeInherited {v : Vault} (fileId : String) (iv : ByteVec 12) (h : v.active = true)
      (hmissing : v.files.get fileId = none) (hname : fileId ∈ objectPrototypeNames) :
      Begin (.removeFile fileId) v (v.setFiles (v.files.delete fileId))
        ((v.setFiles (v.files.delete fileId)).sealIndex C K iv)
  | compactVault {v : Vault} (h : v.active = true) :
      Begin .compactVault v v (.compacting (activeFilesOf v.files))

/-- One step of a call. -/
inductive CallStep : Vault → Pc → Vault → Pc → Prop
  /-- the capacity check allows the file; the record is encrypted -/
  | allow {v : Vault} {fileId filename : String} {data : Bytes} (iv : ByteVec 12) :
      CallStep v (.checkingCapacity fileId filename data) v
        (.appendingRecord fileId filename data (v.sealRecord C iv data))
  /-- the companion appends the record -/
  | record {v : Vault} {fileId filename : String} {data : Bytes} {r : Sealed}
      {range : Entry} {disk : Bytes} (heff : appendOf v.disk r.bytes = some (range, disk)) :
      CallStep v (.appendingRecord fileId filename data (some r)) (v.write disk r.key)
        (.appendedRecord fileId filename data range)
  /-- the file is listed; the index is encrypted -/
  | list {v : Vault} {fileId filename : String} {data : Bytes} {range : Entry}
      (createdAt modifiedAt : String) (iv : ByteVec 12) :
      CallStep v (.appendedRecord fileId filename data range)
        (v.setFiles (v.files.assign fileId
          (v.newEntry fileId filename data range createdAt modifiedAt)))
        ((v.setFiles (v.files.assign fileId
          (v.newEntry fileId filename data range createdAt modifiedAt))).sealIndex C K iv)
  /-- the companion compacts the file -/
  | compact {v : Vault} {activeFiles : Obj Entry} :
      CallStep v (.compacting activeFiles)
        { v with disk := (compactOf v.disk activeFiles).2 }
        (.compacted (compactOf v.disk activeFiles).1.newOffsets)
  /-- the new offsets are taken over -/
  | relocate {v : Vault} {newOffsets : Obj Entry} :
      CallStep v (.compacted newOffsets) (v.setFiles (relocate v.files newOffsets))
        .fetchingHeader
  /-- the companion reads the header -/
  | fetch {v : Vault} {header : Bytes} (heff : readHeaderOf v.disk = some header) :
      CallStep v .fetchingHeader v (.fetchedHeader header)
  /-- the header copy is replaced by what was read -/
  | refresh {v : Vault} {header : Bytes} :
      CallStep v (.fetchedHeader header) { v with headerBytes := header }
        (.parsingFresh header)
  /-- the index is encrypted with its new offsets -/
  | reseal {v : Vault} {header : Bytes} {info : VaultHeaderInfo} (iv : ByteVec 12)
      (hparse : parseVaultHeader header = .ok info) :
      CallStep v (.parsingFresh header) { v with headerInfo := info }
        (v.sealIndex C K iv)
  /-- the companion appends the index -/
  | index {v : Vault} {snap : Snapshot} {blob : Sealed} {range : Entry} {disk : Bytes}
      (heff : appendOf v.disk blob.bytes = some (range, disk)) :
      CallStep v (.appendingIndex snap (some blob)) (v.write disk blob.key)
        (.appendedIndex snap range)
  /-- the header copy is committed -/
  | commit {v : Vault} {snap : Snapshot} {range : Entry} :
      CallStep v (.appendedIndex snap range) v
        (.writingHeader snap (v.sealHeader C range))
  /-- the companion writes the header -/
  | header {v : Vault} {snap : Snapshot} {header : Sealed} {disk : Bytes}
      (heff : writeHeaderOf v.disk header.bytes = some disk) :
      CallStep v (.writingHeader snap (some header))
        (v.writeHeader disk header.key snap.ticket) (.wroteHeader snap header.bytes)
  /-- the header copy is replaced by what was written -/
  | cache {v : Vault} {snap : Snapshot} {header : Bytes} :
      CallStep v (.wroteHeader snap header) { v with headerBytes := header }
        (.parsing snap header)
  | finish {v : Vault} {snap : Snapshot} {header : Bytes} {info : VaultHeaderInfo}
      (hparse : parseVaultHeader header = .ok info) :
      CallStep v (.parsing snap header) { v with headerInfo := info } .done
  /-- what the call awaits ends in an error -/
  | throws {v : Vault} {pc : Pc} (h : pc.ended = false) : CallStep v pc v .threw

end Steps

/-- `lock()`: the key arrays are filled with zeros and the vault let go. -/
def Vault.lock (v : Vault) : Vault :=
  { v with session := ⟨zeroVec 32, zeroVec 32⟩, active := false }

/-! ## Unlocking -/

/-- What `unlock` leaves: the keys, the listed files, the header copy and
the container. -/
structure Opened where
  session : VaultSession
  files : Files
  headerBytes : Bytes
  disk : Bytes
  deriving DecidableEq

/-- The fail counter is counted up and reset; when that throws, reset. -/
def resetCounter (C : WebCrypto) (header : Bytes) (hmacKey : ByteVec 32) : Option Bytes :=
  match (incrementFailCounter C header hmacKey).bind fun h => resetFailCounter C h hmacKey with
  | some h => some h
  | none => resetFailCounter C header hmacKey

/-- `unlock`, in a session with no failed attempt and no vault open; `none`
is a thrown error. -/
def unlock (C : WebCrypto) (K : IndexCodec) (disk password : Bytes) : Option Opened := do
  let headerBytes ← readHeaderOf disk
  let headerInfo ← (parseVaultHeader headerBytes).toOption
  let session ← (unlockVault C headerBytes password).toOption
  let finalHeaderBytes ← resetCounter C headerBytes session.hmacKey
  let disk ← writeHeaderOf disk finalHeaderBytes
  let indexOffset := if headerInfo.activeIndexSlot = 0 then headerInfo.index0Offset
    else headerInfo.index1Offset
  let indexLength := if headerInfo.activeIndexSlot = 0 then headerInfo.index0Length
    else headerInfo.index1Length
  if 0 < indexLength then do
    let encryptedIndex ← readBytesOf disk indexOffset indexLength
    let files ← decryptVaultContainerIndex C K session.encryptionKey encryptedIndex
    return ⟨session, files, finalHeaderBytes, disk⟩
  else return ⟨session, [], finalHeaderBytes, disk⟩

end UsbVault.App
