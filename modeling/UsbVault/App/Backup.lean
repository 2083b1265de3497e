import UsbVault.Lib.Base64
import UsbVault.Lib.JsonData
import UsbVault.Lib.Utf8

/-!
# Backup and restore

`services/vault/backup.ts` over the vault list in memory. A backup is exported
as JSON in base64, with a passphrase as encrypted JSON inside, and comes back
as it was written, except that the encrypted bytes of a file are then an
object and no `Uint8Array`. Restoring a vault creates a new one under its
name; restoring a file adds it under the vault it had.

The number fields are natural numbers: negative ones, fractions, infinities and
`NaN`, which the type `number` has too, are left out.
-/

namespace UsbVault.App.Backup

open Wire Json
open Utf8 (decodeText)

/-! ## Data -/

inductive SecurityLevel where
  | standard
  | high
  | maximum
  deriving DecidableEq, Repr

def SecurityLevel.text : SecurityLevel → String
  | .standard => "standard"
  | .high => "high"
  | .maximum => "maximum"

def SecurityLevel.toData (level : SecurityLevel) : Data := .string level.text

def SecurityLevel.ofData (d : Data) : Option SecurityLevel :=
  d.asString.bind fun text => [.standard, .high, .maximum].find? fun level => level.text = text

/-- The origin of a vault. -/
inductive Source where
  | usb
  | cloud
  | deviceLocal
  deriving DecidableEq, Repr

def Source.text : Source → String
  | .usb => "usb"
  | .cloud => "cloud"
  | .deviceLocal => "local"

def Source.toData (source : Source) : Data := .string source.text

def Source.ofData (d : Data) : Option Source :=
  d.asString.bind fun text => [.usb, .cloud, .deviceLocal].find? fun source => source.text = text

structure VaultInfo where
  id : String
  name : String
  encryptedMetadata : String
  fileCount : Nat
  lastModified : String
  securityLevel : SecurityLevel
  wrappedMekB64 : Option String
  kekSaltHex : Option String
  hasRecoveryCodes : Option Bool
  mountPoint : Option String
  driveName : Option String
  fileSystem : Option String
  algorithm : Option String
  source : Option Source

/-- `encryptedBlob` is declared a `Uint8Array`; `JSON.parse` makes an object. -/
inductive Blob where
  | uint8Array (bytes : Bytes)
  | object (d : Data)

structure FileInfo where
  id : String
  vaultId : String
  name : String
  size : Nat
  type : String
  modifiedAt : String
  encryptedMetadata : String
  isPQCProtected : Bool
  uri : Option String
  encryptedBlob : Option Blob
  saltHex : Option String
  cipherId : Option Nat
  isStreamed : Option Bool
  originalSize : Option Nat
  version : Option Nat

structure BackupMetadata where
  id : String
  createdAt : String
  vaultCount : Nat
  fileCount : Nat
  sizeBytes : Nat
  version : String
  encrypted : Bool

structure BackupData where
  metadata : BackupMetadata
  vaults : List VaultInfo
  files : List FileInfo
  settings : List (String × Data)
  passwords : Option (List Data)

def BACKUP_VERSION : String := "1.0.0"
def ENCRYPTION_ALGORITHM : String := "AES-256-GCM"

/-! ## As JSON -/

def VaultInfo.toData (v : VaultInfo) : Data :=
  .object <|
    [("id", .string v.id), ("name", .string v.name),
      ("encryptedMetadata", .string v.encryptedMetadata), ("fileCount", .number v.fileCount),
      ("lastModified", .string v.lastModified), ("securityLevel", v.securityLevel.toData)]
    ++ Data.defined "wrappedMekB64" (v.wrappedMekB64.map .string)
    ++ Data.defined "kekSaltHex" (v.kekSaltHex.map .string)
    ++ Data.defined "hasRecoveryCodes" (v.hasRecoveryCodes.map .bool)
    ++ Data.defined "mountPoint" (v.mountPoint.map .string)
    ++ Data.defined "driveName" (v.driveName.map .string)
    ++ Data.defined "fileSystem" (v.fileSystem.map .string)
    ++ Data.defined "algorithm" (v.algorithm.map .string)
    ++ Data.defined "source" (v.source.map Source.toData)

/-- The properties of a vault, of the types they are declared with. -/
def VaultInfo.ofData (d : Data) : Option VaultInfo := do
  let id ← d.required Data.asString "id"
  let name ← d.required Data.asString "name"
  let encryptedMetadata ← d.required Data.asString "encryptedMetadata"
  let fileCount ← d.required Data.asNumber "fileCount"
  let lastModified ← d.required Data.asString "lastModified"
  let securityLevel ← d.required SecurityLevel.ofData "securityLevel"
  let wrappedMekB64 ← d.optional Data.asString "wrappedMekB64"
  let kekSaltHex ← d.optional Data.asString "kekSaltHex"
  let hasRecoveryCodes ← d.optional Data.asBool "hasRecoveryCodes"
  let mountPoint ← d.optional Data.asString "mountPoint"
  let driveName ← d.optional Data.asString "driveName"
  let fileSystem ← d.optional Data.asString "fileSystem"
  let algorithm ← d.optional Data.asString "algorithm"
  let source ← d.optional Source.ofData "source"
  return ⟨id, name, encryptedMetadata, fileCount, lastModified, securityLevel, wrappedMekB64,
    kekSaltHex, hasRecoveryCodes, mountPoint, driveName, fileSystem, algorithm, source⟩

def Blob.toData : Blob → Data
  | .uint8Array bytes => .bytes bytes
  | .object d => d

def FileInfo.toData (f : FileInfo) : Data :=
  .object <|
    ([("id", .string f.id), ("vaultId", .string f.vaultId), ("name", .string f.name),
      ("size", .number f.size), ("type", .string f.type), ("modifiedAt", .string f.modifiedAt),
      ("encryptedMetadata", .string f.encryptedMetadata),
      ("isPQCProtected", .bool f.isPQCProtected)] : List (String × Data))
    ++ Data.defined "uri" (f.uri.map .string)
    ++ Data.defined "encryptedBlob" (f.encryptedBlob.map Blob.toData)
    ++ Data.defined "saltHex" (f.saltHex.map .string)
    ++ Data.defined "cipherId" (f.cipherId.map .number)
    ++ Data.defined "isStreamed" (f.isStreamed.map .bool)
    ++ Data.defined "originalSize" (f.originalSize.map .number)
    ++ Data.defined "version" (f.version.map .number)

def FileInfo.ofData (d : Data) : Option FileInfo := do
  let id ← d.required Data.asString "id"
  let vaultId ← d.required Data.asString "vaultId"
  let name ← d.required Data.asString "name"
  let size ← d.required Data.asNumber "size"
  let type ← d.required Data.asString "type"
  let modifiedAt ← d.required Data.asString "modifiedAt"
  let encryptedMetadata ← d.required Data.asString "encryptedMetadata"
  let isPQCProtected ← d.required Data.asBool "isPQCProtected"
  let uri ← d.optional Data.asString "uri"
  let encryptedBlob ← d.optional (fun d => some (.object d)) "encryptedBlob"
  let saltHex ← d.optional Data.asString "saltHex"
  let cipherId ← d.optional Data.asNumber "cipherId"
  let isStreamed ← d.optional Data.asBool "isStreamed"
  let originalSize ← d.optional Data.asNumber "originalSize"
  let version ← d.optional Data.asNumber "version"
  return ⟨id, vaultId, name, size, type, modifiedAt, encryptedMetadata, isPQCProtected, uri,
    encryptedBlob, saltHex, cipherId, isStreamed, originalSize, version⟩

def BackupMetadata.toData (m : BackupMetadata) : Data :=
  .object [("id", .string m.id), ("createdAt", .string m.createdAt),
    ("vaultCount", .number m.vaultCount), ("fileCount", .number m.fileCount),
    ("sizeBytes", .number m.sizeBytes), ("version", .string m.version),
    ("encrypted", .bool m.encrypted)]

def BackupMetadata.ofData (d : Data) : Option BackupMetadata := do
  let id ← d.required Data.asString "id"
  let createdAt ← d.required Data.asString "createdAt"
  let vaultCount ← d.required Data.asNumber "vaultCount"
  let fileCount ← d.required Data.asNumber "fileCount"
  let sizeBytes ← d.required Data.asNumber "sizeBytes"
  let version ← d.required Data.asString "version"
  let encrypted ← d.required Data.asBool "encrypted"
  return ⟨id, createdAt, vaultCount, fileCount, sizeBytes, version, encrypted⟩

def BackupData.members (b : BackupData) : List (String × Data) :=
  [("metadata", b.metadata.toData), ("vaults", .array (b.vaults.map VaultInfo.toData)),
    ("files", .array (b.files.map FileInfo.toData)), ("settings", .object b.settings)]
  ++ Data.defined "passwords" (b.passwords.map .array)

/-- `parsed as BackupData` -/
def BackupData.ofData (d : Data) : Option BackupData := do
  let metadata ← d.required BackupMetadata.ofData "metadata"
  let vaults ← d.required Data.asArray "vaults"
  let files ← d.required Data.asArray "files"
  let settings ← d.required Data.asObject "settings"
  let passwords ← d.optional Data.asArray "passwords"
  return ⟨metadata, ← vaults.mapM VaultInfo.ofData, ← files.mapM FileInfo.ofData, settings,
    passwords⟩

/-- A file behind `JSON.stringify` and `JSON.parse`. -/
def FileInfo.copied (f : FileInfo) : FileInfo :=
  { f with encryptedBlob := f.encryptedBlob.map fun blob => .object blob.toData }

def BackupData.copied (b : BackupData) : BackupData :=
  { b with files := b.files.map FileInfo.copied }

theorem SecurityLevel.ofData_toData (level : SecurityLevel) :
    ofData level.toData = some level := by
  cases level <;> decide

theorem Source.ofData_toData (source : Source) : ofData source.toData = some source := by
  cases source <;> decide

theorem VaultInfo.ofData_toData (v : VaultInfo) : ofData v.toData = some v := by
  have hsource := Data.maybe_map Source.toData Source.ofData_toData v.source
  simp [ofData, toData, SecurityLevel.ofData_toData, hsource]

theorem FileInfo.ofData_toData (f : FileInfo) : ofData f.toData = some f.copied := by
  have hblob : Data.maybe (fun d => some (Blob.object d)) (f.encryptedBlob.map Blob.toData)
      = some (f.encryptedBlob.map fun blob => .object blob.toData) := by
    cases f.encryptedBlob <;> rfl
  simp [ofData, toData, copied, hblob]

theorem BackupMetadata.ofData_toData (m : BackupMetadata) : ofData m.toData = some m := by
  simp [ofData, toData]

theorem BackupData.ofData_members (b : BackupData) :
    ofData (.object b.members) = some b.copied := by
  have hvaults := Data.mapM_map VaultInfo.ofData_toData b.vaults
  have hfiles := Data.mapM_map FileInfo.ofData_toData b.files
  have hpasswords : Data.maybe Data.asArray (b.passwords.map .array) = some b.passwords :=
    Data.maybe_map Data.array (fun _ => rfl) b.passwords
  simp [ofData, members, copied, BackupMetadata.ofData_toData, hvaults, hfiles, hpasswords]

/-! ## Export and import -/

/-- WebCrypto: PBKDF2 with SHA-256, and AES-GCM. -/
structure WebCrypto where
  deriveBits : Bytes → Bytes → Nat → ByteVec 32
  encrypt : ByteVec 32 → ByteVec 12 → Bytes → Bytes
  decrypt : ByteVec 32 → Bytes → Bytes → Option Bytes
  decrypt_encrypt : ∀ key iv data, decrypt key iv.toList (encrypt key iv data) = some data

/-- The text stands behind `Failed to import backup: `. -/
inductive ImportError where
  /-- what `atob`, `JSON.parse` or WebCrypto threw -/
  | platform
  /-- `Backup is encrypted but no decryption key provided` -/
  | noKey
  deriving DecidableEq, Repr

/-- What the user chose, and what was drawn for a backup. -/
structure Options where
  encryptionKey : Option String
  includePasswords : Bool
  mergeExisting : Bool
  salt : ByteVec 16
  iv : ByteVec 12
  id : String
  createdAt : String

/-- A key counts if it is not empty. -/
def given (key : Option String) : Option String := key.filter fun key => key ≠ ""

/-- `length` of a string. -/
def length (s : String) : Nat := (units s).length

def calculateBackupSize (vaults : List VaultInfo) (files : List FileInfo) : Nat :=
  (vaults.map fun vault => length vault.name + length vault.encryptedMetadata).sum
    + (files.map fun file => file.size + length file.name + length file.encryptedMetadata).sum
    + 1024

def createBackup (o : Options) (settings : List (String × Data)) (vaults : List VaultInfo)
    (files : List FileInfo) : BackupData where
  metadata :=
    { id := o.id
      createdAt := o.createdAt
      vaultCount := vaults.length
      fileCount := files.length
      sizeBytes := calculateBackupSize vaults files
      version := BACKUP_VERSION
      encrypted := false }
  vaults := vaults
  files := files
  settings := settings
  passwords := if o.includePasswords then some [] else none

def deriveKey (C : WebCrypto) (passphrase : String) (salt : Bytes) : ByteVec 32 :=
  C.deriveBits (Utf8.encode passphrase.toList) salt 150000

def encryptBackup (C : WebCrypto) (o : Options) (data : BackupData) (encryptionKey : String) :
    Bytes :=
  C.encrypt (deriveKey C encryptionKey o.salt.toList) o.iv
    (Utf8.encode (Data.object data.members).text)

/-- `JSON.parse(new TextDecoder().decode(bytes))` -/
def parseBytes (bytes : Bytes) : Option Data := Data.ofText (decodeText bytes)

def decryptBackup (C : WebCrypto) (ciphertext iv salt : Bytes) (encryptionKey : String) :
    Option Data := do
  let plaintext ← C.decrypt (deriveKey C encryptionKey salt) iv ciphertext
  parseBytes plaintext

def bytesToBase64 (bytes : Bytes) : String := String.ofList (Base64.encode bytes)

def base64ToBytes (base64 : String) : Option Bytes := Base64.decode base64.toList

/-- `exportData` -/
def exportData (C : WebCrypto) (o : Options) (backup : BackupData) : List (String × Data) :=
  match given o.encryptionKey with
  | some encryptionKey =>
    [("encrypted", .bool true), ("algorithm", .string ENCRYPTION_ALGORITHM),
      ("ciphertext", .string (bytesToBase64 (encryptBackup C o backup encryptionKey))),
      ("iv", .string (bytesToBase64 o.iv.toList)),
      ("salt", .string (bytesToBase64 o.salt.toList)), ("metadata", backup.metadata.toData)]
  | none => backup.members

def exportBackup (C : WebCrypto) (o : Options) (backup : BackupData) : String :=
  bytesToBase64 (Utf8.encode (Data.object (exportData C o backup)).text)

def decryptParsed (C : WebCrypto) (parsed : Data) (decryptionKey : String) : Option Data := do
  let ciphertext ← base64ToBytes (← parsed.required Data.asString "ciphertext")
  let iv ← base64ToBytes (← parsed.required Data.asString "iv")
  let salt ← base64ToBytes (← parsed.required Data.asString "salt")
  decryptBackup C ciphertext iv salt decryptionKey

def importBackup (C : WebCrypto) (data : String) (decryptionKey : Option String) :
    Except ImportError Data :=
  match (base64ToBytes data).bind parseBytes with
  | none | some .null => .error .platform
  | some parsed =>
    if Data.truthy (parsed.get "encrypted") then
      match given decryptionKey with
      | some decryptionKey =>
        match decryptParsed C parsed decryptionKey with
        | some backup => .ok backup
        | none => .error .platform
      | none => .error .noKey
    else .ok parsed

/-- The bytes of the text are read as the text: it begins with no byte order mark. -/
theorem decodeText_text (ms : List (String × Data)) :
    decodeText (Utf8.encode (Data.object ms).text) = (Data.object ms).text := by
  have hfirst : (Utf8.encode (Data.object ms).text).head? ≠ some 0xef := by
    have hbrace : (Utf8.encode (Data.object ms).text).head? = some 0x7b := rfl
    rw [hbrace]
    decide
  exact Utf8.decodeText_encode hfirst

theorem parseBytes_text (ms : List (String × Data)) :
    parseBytes (Utf8.encode (Data.object ms).text) = some (.object ms) := by
  rw [parseBytes, decodeText_text, Data.ofText_text]

theorem base64ToBytes_bytesToBase64 (bytes : Bytes) :
    base64ToBytes (bytesToBase64 bytes) = some bytes := by
  rw [base64ToBytes, bytesToBase64, String.toList_ofList, Base64.decode_encode]

theorem decryptBackup_encryptBackup (C : WebCrypto) (o : Options) (backup : BackupData)
    (key : String) :
    decryptBackup C (encryptBackup C o backup key) o.iv.toList o.salt.toList key
      = some (.object backup.members) := by
  rw [decryptBackup, encryptBackup, C.decrypt_encrypt, Option.bind_eq_bind, Option.bind_some,
    parseBytes_text]

/-- **An exported backup is imported as it was**, with a key and without. -/
theorem importBackup_exportBackup (C : WebCrypto) (o : Options) (backup : BackupData) :
    importBackup C (exportBackup C o backup) o.encryptionKey = .ok (.object backup.members) := by
  have hparsed : (base64ToBytes (exportBackup C o backup)).bind parseBytes
      = some (.object (exportData C o backup)) := by
    rw [exportBackup, base64ToBytes_bytesToBase64, Option.bind_some, parseBytes_text]
  rw [importBackup, hparsed]
  cases hkey : given o.encryptionKey with
  | none =>
    have hplain : (Data.object backup.members).get "encrypted" = none := by
      simp [BackupData.members]
    simp only [exportData, hkey, hplain]
    rfl
  | some key =>
    have hdecrypt : decryptParsed C (.object (exportData C o backup)) key
        = some (.object backup.members) := by
      simp [decryptParsed, exportData, hkey, base64ToBytes_bytesToBase64,
        decryptBackup_encryptBackup]
    have hencrypted : (Data.object (exportData C o backup)).get "encrypted"
        = some (.bool true) := by
      simp [exportData, hkey]
    simp only [hencrypted, hdecrypt]
    rfl

end UsbVault.App.Backup
