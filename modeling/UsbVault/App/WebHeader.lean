import UsbVault.Crypto.Primitives
import UsbVault.Lib.TypedArray
import UsbVault.Companion.Container

/-!
# The web module's vault header

The header functions of the web crypto module. They read and write the
24576 header bytes at offsets computed from the lengths the header
itself holds. A commit writes the inactive index slot, flips the slot
byte, bumps two counters and re-signs; a change of the fail counter
writes its block. Everything an unlock reads lies outside what these
functions write (`SameFields`), so an unlock gives the same keys before
and after.
-/

namespace UsbVault.App

open Wire Js Companion

/-! ## Primitives and errors -/

/-- WebCrypto and the Argon2id package; `none` is a thrown error. -/
structure WebCrypto where
  aesGcm : Aead 12
  hmacSha256 : ByteVec 32 → Bytes → ByteVec 32
  argon2id : Bytes → Bytes → Nat → Nat → Nat → Option (ByteVec 32)

/-- The errors of the header functions. -/
inductive WebError where
  /-- `Invalid vault magic: ...`, with the decoded bytes -/
  | invalidMagic (magic : Bytes)
  /-- `Vault self-destructed: cryptographic erasure detected` -/
  | selfDestructed
  /-- `Invalid Argon2 params (out of bounds): memory=... time=... parallelism=...` -/
  | argon2Params (memoryKib time parallelism : Nat)
  /-- the key derivation threw -/
  | keyDerivation
  /-- WebCrypto's `OperationError` -/
  | operation
  /-- `Invalid MEK length after unwrap` -/
  | mekLength
  /-- `Vault verification failed — wrong password or corrupted header` -/
  | verification
  deriving DecidableEq, Repr

/-- `aesGcmEncryptRaw`, with the nonce drawn: nonce, then ciphertext with tag. -/
def aesGcmEncryptRaw (C : WebCrypto) (key : ByteVec 32) (iv : ByteVec 12)
    (plaintext : Bytes) : Option Bytes :=
  (C.aesGcm.encrypt key iv [] plaintext).map fun ct => iv.toList ++ ct

/-- `aesGcmDecryptRaw` -/
def aesGcmDecryptRaw (C : WebCrypto) (key : ByteVec 32) (data : Bytes) : Option Bytes :=
  if h : 12 ≤ data.length then
    C.aesGcm.decrypt key ⟨data.take 12, by rw [List.length_take]; omega⟩ [] (data.drop 12)
  else none

/-- Keys of an unlocked vault. -/
structure VaultSession where
  encryptionKey : ByteVec 32
  hmacKey : ByteVec 32
  deriving DecidableEq

def KDF_HASH_ID_DESTROYED : UInt8 := 0xde

def VERIFY_MARKER : Bytes := ascii "USBVAULT_VERIFY_OK_0000"

/-! ## Offsets -/

/-- Length of the verify ciphertext. -/
def verifyCTLen (header : Bytes) : Nat := readLE 2 header 66

/-- `getIndexMetadataOffset` -/
def getIndexMetadataOffset (header : Bytes) : Nat := 68 + verifyCTLen header + 32

/-- Offset of the TFA block's length. -/
def tfaBlockOffset (header : Bytes) : Nat :=
  getIndexMetadataOffset header + 34 + 4 + readLE 4 header (getIndexMetadataOffset header + 34)

/-- `getFailCounterBlockOffset` -/
def getFailCounterBlockOffset (header : Bytes) : Nat :=
  tfaBlockOffset header + 4 + readLE 4 header (tfaBlockOffset header)

/-- Offset of the wrapped MEK's length. -/
def wrappedMekOffset (header : Bytes) : Nat :=
  getFailCounterBlockOffset header + 4 + readLE 4 header (getFailCounterBlockOffset header)

/-- Offset of the state version. -/
def stateVersionOffset (header : Bytes) : Nat :=
  wrappedMekOffset header + 4 + readLE 4 header (wrappedMekOffset header)

/-! ## Authentication codes -/

/-- `computeHeaderHMAC` -/
def computeHeaderHMAC (C : WebCrypto) (header : Bytes) (hmacKey : ByteVec 32) :
    ByteVec 32 :=
  let verifyCT := slice header 68 (68 + verifyCTLen header)
  C.hmacSha256 hmacKey (slice header 10 42 ++ slice header 42 66 ++ slice header 66 68
    ++ verifyCT ++ zeros (verifyCTLen header - verifyCT.length))

/-- `computeFailCounterHMAC` -/
def computeFailCounterHMAC (C : WebCrypto) (counter : Nat) (hmacKey : ByteVec 32) :
    ByteVec 32 :=
  C.hmacSha256 hmacKey (ascii "USBVault-FailCounter-v1:" ++ leBytes 4 counter)

/-! ## Reading a header -/

/-- Parsed header metadata, as the bridge hands it on. -/
structure VaultHeaderInfo where
  cipherId : Nat
  kdfMemory : Nat
  kdfIterations : Nat
  kdfParallelism : Nat
  salt : Bytes
  activeIndexSlot : Nat
  index0Offset : Nat
  index0Length : Nat
  index1Offset : Nat
  index1Length : Nat
  failCount : Nat
  deriving DecidableEq, Repr

/-- Offset and length of the active index. -/
def activePointers (header : Bytes) : Nat × Nat :=
  let off := getIndexMetadataOffset header
  if header[off]? = some 0 then (readLE 4 header (off + 1), readLE 4 header (off + 5))
  else (readLE 4 header (off + 9), readLE 4 header (off + 13))

/-- `readVaultHeader`, with the bridge's mapping of the active index to
both slots. -/
def parseVaultHeader (header : Bytes) : Except WebError VaultHeaderInfo :=
  if slice header 0 8 ≠ VAULT_MAGIC then .error (.invalidMagic (slice header 0 8))
  else
    let off := getIndexMetadataOffset header
    let fcBlockOffset := getFailCounterBlockOffset header
    let (indexOffset, indexLength) := activePointers header
    .ok {
      cipherId := (header.getD 9 0).toNat
      kdfMemory := readLE 4 header (off + 25)
      kdfIterations := readLE 4 header (off + 29)
      kdfParallelism := (header.getD (off + 33) 0).toNat
      salt := slice header 10 42
      activeIndexSlot := (header.getD off 0).toNat
      index0Offset := indexOffset
      index0Length := indexLength
      index1Offset := indexOffset
      index1Length := indexLength
      failCount := if 4 ≤ readLE 4 header fcBlockOffset then
        readLE 4 header (fcBlockOffset + 4) else 0 }

/-- `validateArgon2Params` -/
def validateWebArgon2Params (memoryKib time parallelism : Nat) : Except WebError Unit :=
  if memoryKib < 8 * 1024 ∨ 1024 * 1024 < memoryKib ∨ time < 1 ∨ 16 < time
      ∨ parallelism < 1 ∨ 16 < parallelism then
    .error (.argon2Params memoryKib time parallelism)
  else .ok ()

def orThrow {α : Type} (e : WebError) : Option α → Except WebError α
  | some a => .ok a
  | none => .error e

/-- What an unlock reads from the header. -/
structure UnlockFields where
  magic : Bytes
  kdfHashId : Bytes
  salt : Bytes
  memory : Nat
  time : Nat
  parallelism : Nat
  wrappedMek : Bytes
  wrappedMekLen : Nat
  verifyIv : Bytes
  verifyCT : Bytes
  verifyCTLen : Nat
  deriving DecidableEq

def unlockFields (header : Bytes) : UnlockFields where
  magic := slice header 0 8
  kdfHashId := pread header 8 1
  salt := slice header 10 42
  memory := readLE 4 header (getIndexMetadataOffset header + 25)
  time := readLE 4 header (getIndexMetadataOffset header + 29)
  parallelism := readLE 1 header (getIndexMetadataOffset header + 33)
  wrappedMek := slice header (wrappedMekOffset header + 4) (stateVersionOffset header)
  wrappedMekLen := readLE 4 header (wrappedMekOffset header)
  verifyIv := slice header 42 54
  verifyCT := slice header 68 (68 + verifyCTLen header)
  verifyCTLen := verifyCTLen header

/-- `unlockVault`, from the fields it reads. -/
def UnlockFields.unlock (C : WebCrypto) (f : UnlockFields) (password : Bytes) :
    Except WebError VaultSession :=
  if f.magic ≠ VAULT_MAGIC then .error (.invalidMagic f.magic)
  else if f.kdfHashId = [KDF_HASH_ID_DESTROYED] then .error .selfDestructed
  else do
    validateWebArgon2Params f.memory f.time f.parallelism
    let kek ← orThrow .keyDerivation
      (C.argon2id password f.salt f.memory f.time f.parallelism)
    if f.wrappedMekLen = 0 then .error .selfDestructed
    else do
      let mek ← orThrow .operation (aesGcmDecryptRaw C kek f.wrappedMek)
      if h : mek.length = 64 then do
        let encKey : ByteVec 32 := ⟨mek.take 32, by rw [List.length_take]; omega⟩
        let hmacKey : ByteVec 32 := ⟨mek.drop 32, by rw [List.length_drop]; omega⟩
        let verifyBlob := f.verifyIv ++ f.verifyCT
          ++ zeros (f.verifyCTLen - f.verifyCT.length)
        let marker ← orThrow .operation (aesGcmDecryptRaw C encKey verifyBlob)
        if marker ≠ VERIFY_MARKER then .error .verification
        else .ok ⟨encKey, hmacKey⟩
      else .error .mekLength

/-- `unlockVault` -/
def unlockVault (C : WebCrypto) (header password : Bytes) : Except WebError VaultSession :=
  (unlockFields header).unlock C password

/-- `readFailCounter` -/
def readFailCounter (header : Bytes) : Nat :=
  let fcBlockOffset := getFailCounterBlockOffset header
  if readLE 4 header fcBlockOffset < 4 then 0 else readLE 4 header (fcBlockOffset + 4)

/-! ## Writing a header -/

/-- Write the fail counter and its code. -/
def writeFailCounter (C : WebCrypto) (header : Bytes) (hmacKey : ByteVec 32)
    (count : Nat) : Option Bytes :=
  let fcBlockOffset := getFailCounterBlockOffset header
  set (store header (fcBlockOffset + 4) (leBytes 4 count)) (fcBlockOffset + 8)
    (computeFailCounterHMAC C count hmacKey).toList

/-- `resetFailCounter` -/
def resetFailCounter (C : WebCrypto) (header : Bytes) (hmacKey : ByteVec 32) :
    Option Bytes :=
  writeFailCounter C header hmacKey 0

/-- `incrementFailCounter` -/
def incrementFailCounter (C : WebCrypto) (header : Bytes) (hmacKey : ByteVec 32) :
    Option Bytes :=
  writeFailCounter C header hmacKey
    (readLE 4 header (getFailCounterBlockOffset header + 4) + 1)

/-- The first half of `commitVaultIndex`: flip the slot byte and write the
pointers of the slot that becomes active. -/
def flipIndexSlot (header : Bytes) (indexOffset indexLength : Nat) : Bytes :=
  let off := getIndexMetadataOffset header
  if header[off]? = some 0 then
    store (store (store header off [1]) (off + 9) (leBytes 4 indexOffset)) (off + 13)
      (leBytes 4 indexLength)
  else
    store (store (store header off [0]) (off + 1) (leBytes 4 indexOffset)) (off + 5)
      (leBytes 4 indexLength)

/-- `writeU64LE(header, off, readU64LE(header, off) + 1)` -/
def bumpU64 (header : Bytes) (off : Nat) : Bytes :=
  store header off (leBytes 8 (number (number (readLE 8 header off) + 1)))

/-- `commitVaultIndex` -/
def commitVaultIndex (C : WebCrypto) (header : Bytes) (hmacKey : ByteVec 32)
    (indexOffset indexLength : Nat) : Option Bytes :=
  let metaOffset := getIndexMetadataOffset header
  let header := flipIndexSlot header indexOffset indexLength
  let header := bumpU64 header (metaOffset + 17)
  let header := bumpU64 header (stateVersionOffset header)
  set header (68 + verifyCTLen header) (computeHeaderHMAC C header hmacKey).toList

end UsbVault.App
