import UsbVault.Lib.Wire
import UsbVault.Crypto.Kdf

/-!
# Header

`vault/header.rs`: the vault header, its reader and writer, its MACs,
and the operations on it (create, unlock, fail counter, index commit,
self-destruct).

The reader is the `take!` chain of `VaultHeader::read` over a `Cursor`,
the writer the `copy_from_slice` chain of `VaultHeader::write` over a
zeroed `Buffer`; an index panic of the writer is `none`. Operations
that draw random bytes take the drawn bytes as an argument.
-/

namespace UsbVault

open Wire

def MAGIC_V2 : Bytes := ascii "USBVLT02"
def MAGIC_V3 : Bytes := ascii "USBVLT03"
def MAGIC_V4 : Bytes := ascii "USBVLT04"
def MAGIC_V5 : Bytes := ascii "USBVLT05"
def MAGIC_V6 : Bytes := ascii "USBVLT06"

def HEADER_SIZE_V2 : Nat := 4096
def HEADER_SIZE_V3 : Nat := 16384
def HEADER_SIZE_V4 : Nat := 24576
def HEADER_SIZE_V5 : Nat := 24576
def HEADER_SIZE_V6 : Nat := 24576

/-- `VaultHeader`. -/
structure VaultHeader where
  version : UInt8
  kdfHashId : UInt8
  cipherId : UInt8
  salt : ByteVec 32
  verifyIv : ByteVec 24
  verifyCiphertext : Bytes
  headerHmac : ByteVec 32
  activeIndexSlot : UInt8
  index1Offset : UInt32
  index1Length : UInt32
  index2Offset : UInt32
  index2Length : UInt32
  commitCounter : UInt64
  argon2Memory : UInt32
  argon2Time : UInt32
  argon2Parallelism : UInt8
  identityBlock : Option Bytes
  tfaBlock : Option Bytes
  failCounterBlock : Option Bytes
  wrappedMek : Option Bytes
  stateVersion : UInt64
  indexEncrypted : Bool
  deriving DecidableEq

namespace VaultHeader

/-! ## Reading -/

def MAX_VERIFY_CT_LEN : Nat := 256

/-- The version a magic stands for. -/
def versionOfMagic (magic : Bytes) : Result UInt8 :=
  if magic = MAGIC_V2 then .ok 2
  else if magic = MAGIC_V3 then .ok 3
  else if magic = MAGIC_V4 then .ok 4
  else if magic = MAGIC_V5 then .ok 5
  else if magic = MAGIC_V6 then .ok 6
  else .error .invalidMagic

/-- The bound on the verify ciphertext, checked before it is sliced. -/
def checkVerifyCtLen (len : UInt16) : Result Unit :=
  if len.toNat > MAX_VERIFY_CT_LEN then .error .invalidHeader else .ok ()

/-- A length-prefixed optional block. A length that runs past the input
degrades to `None`, with the position just behind the length. -/
def readOptionalBlock : Reader CryptoError (Option Bytes) := do
  let len ← readU32le .invalidHeader
  if len = 0 then return none
  else takeAvailable len.toNat

/-- The same, read only when there is room for the length. -/
def readOptionalBlockIfRoom : Reader CryptoError (Option Bytes) := do
  let room ← hasRoom 4
  if room then readOptionalBlock else return none

/-- Identity, 2FA and fail-counter blocks (V3 and later). -/
def readOptionalBlocks (version : UInt8) :
    Reader CryptoError (Option Bytes × Option Bytes × Option Bytes) := do
  let room ← hasRoom 12
  if version ≥ 3 ∧ room then do
    let identityBlock ← readOptionalBlock
    let tfaBlock ← readOptionalBlockIfRoom
    let failCounterBlock ← readOptionalBlockIfRoom
    return (identityBlock, tfaBlock, failCounterBlock)
  else return (none, none, none)

def readStateVersion : Reader CryptoError UInt64 := do
  let room ← hasRoom 8
  if room then readU64le .invalidHeader else return 0

/-- The last field; the position is not advanced. -/
def readIndexEncrypted : Reader CryptoError Bool := do
  let b ← peek
  match b with
  | some b => return b != 0
  | none => return false

/-- Wrapped MEK, state version and index flag (V4 and later). -/
def readExtendedFields (version : UInt8) :
    Reader CryptoError (Option Bytes × UInt64 × Bool) := do
  let room ← hasRoom 4
  if version ≥ 4 ∧ room then do
    let wrappedMek ← readOptionalBlock
    let stateVersion ← readStateVersion
    let indexEncrypted ← readIndexEncrypted
    return (wrappedMek, stateVersion, indexEncrypted)
  else return (none, 0, false)

/-- The field chain of `VaultHeader::read`. -/
def readFields : Reader CryptoError VaultHeader := do
  let magic ← take .invalidHeader 8
  let version ← lift (versionOfMagic magic)
  let kdfHashId ← readU8 .invalidHeader
  let cipherId ← readU8 .invalidHeader
  let _ ← lift (CipherId.fromByte cipherId)
  let salt ← takeVec .invalidHeader 32
  let verifyIv ← takeVec .invalidHeader 24
  let verifyCtLen ← readU16le .invalidHeader
  -- bounded before it is used as a slice length
  let _ ← lift (checkVerifyCtLen verifyCtLen)
  let verifyCiphertext ← take .invalidHeader verifyCtLen.toNat
  let headerHmac ← takeVec .invalidHeader 32
  let activeIndexSlot ← readU8 .invalidHeader
  let index1Offset ← readU32le .invalidHeader
  let index1Length ← readU32le .invalidHeader
  let index2Offset ← readU32le .invalidHeader
  let index2Length ← readU32le .invalidHeader
  let commitCounter ← readU64le .invalidHeader
  let argon2Memory ← readU32le .invalidHeader
  let argon2Time ← readU32le .invalidHeader
  let argon2Parallelism ← readU8 .invalidHeader
  let (identityBlock, tfaBlock, failCounterBlock) ← readOptionalBlocks version
  let (wrappedMek, stateVersion, indexEncrypted) ← readExtendedFields version
  return { version, kdfHashId, cipherId, salt, verifyIv, verifyCiphertext,
           headerHmac, activeIndexSlot, index1Offset, index1Length,
           index2Offset, index2Length, commitCounter, argon2Memory,
           argon2Time, argon2Parallelism, identityBlock, tfaBlock,
           failCounterBlock, wrappedMek, stateVersion, indexEncrypted }

/-- `VaultHeader::read`. -/
def read (data : Bytes) : Result VaultHeader :=
  if data.length < 128 then .error .invalidHeader
  else (readFields (Cursor.start data)).map Prod.fst

/-! ## Writing -/

def headerSize (version : UInt8) : Nat :=
  if version = 6 then HEADER_SIZE_V6
  else if version = 5 then HEADER_SIZE_V5
  else if version = 4 then HEADER_SIZE_V4
  else if version = 3 then HEADER_SIZE_V3
  else HEADER_SIZE_V2

def magicOf (version : UInt8) : Bytes :=
  if version = 6 then MAGIC_V6
  else if version = 5 then MAGIC_V5
  else if version = 4 then MAGIC_V4
  else if version = 3 then MAGIC_V3
  else MAGIC_V2

/-- The length of a block as the `u32` written before it (0 when absent). -/
def blockLen (block : Option Bytes) : UInt32 :=
  UInt32.ofNat ((block.map List.length).getD 0)

def putBlock : Option Bytes → Writer Unit
  | some block => put block
  | none => return ()

def putOptionalBlock (block : Option Bytes) : Writer Unit := do
  put (u32le (blockLen block))
  putBlock block

def writeOptionalBlocks (h : VaultHeader) : Writer Unit :=
  if h.version ≥ 3 then do
    putOptionalBlock h.identityBlock
    putOptionalBlock h.tfaBlock
    putOptionalBlock h.failCounterBlock
  else return ()

def writeExtendedFields (h : VaultHeader) : Writer Unit :=
  if h.version ≥ 4 then do
    putOptionalBlock h.wrappedMek
    put (u64le h.stateVersion)
    putU8 (if h.indexEncrypted then 1 else 0)
  else return ()

/-- The field chain of `VaultHeader::write`. -/
def writeFields (h : VaultHeader) : Writer Unit := do
  put (magicOf h.version)
  putU8 h.kdfHashId
  putU8 h.cipherId
  put h.salt.toList
  put h.verifyIv.toList
  put (u16le (UInt16.ofNat h.verifyCiphertext.length))
  put h.verifyCiphertext
  put h.headerHmac.toList
  putU8 h.activeIndexSlot
  put (u32le h.index1Offset)
  put (u32le h.index1Length)
  put (u32le h.index2Offset)
  put (u32le h.index2Length)
  put (u64le h.commitCounter)
  put (u32le h.argon2Memory)
  put (u32le h.argon2Time)
  putU8 h.argon2Parallelism
  writeOptionalBlocks h
  writeExtendedFields h

/-- `VaultHeader::write`; `none` is an index panic. -/
def write (h : VaultHeader) : Option Bytes :=
  fill (headerSize h.version) (writeFields h)

/-! ## The header MAC -/

def HEADER_HMAC_DOMAIN_V5 : Bytes := ascii "USBVault-HeaderHMAC-v5:"
def HEADER_HMAC_DOMAIN_V6 : Bytes := ascii "USBVault-HeaderHMAC-v6:"

def boolByte (b : Bool) : UInt8 := if b then 1 else 0

/-- The wrapped MEK in the wide MAC: length-prefixed, with the length
`u32::MAX` standing for an absent blob. -/
def wrappedMekField : Option Bytes → Bytes
  | some w => u32le (UInt32.ofNat w.length) ++ w
  | none => u32le 0xFFFFFFFF

/-- What the V5+ branch of `compute_hmac` feeds to HMAC. -/
def wideMessage (h : VaultHeader) : Bytes :=
  (if h.version ≥ 6 then HEADER_HMAC_DOMAIN_V6 else HEADER_HMAC_DOMAIN_V5)
    ++ [h.version, h.kdfHashId, h.cipherId]
    ++ h.salt.toList
    ++ h.verifyIv.toList
    ++ u32le (UInt32.ofNat h.verifyCiphertext.length)
    ++ h.verifyCiphertext
    ++ [h.activeIndexSlot]
    ++ u32le h.index1Offset
    ++ u32le h.index1Length
    ++ u32le h.index2Offset
    ++ u32le h.index2Length
    ++ u64le h.commitCounter
    ++ u64le h.stateVersion
    ++ u32le h.argon2Memory
    ++ u32le h.argon2Time
    ++ [h.argon2Parallelism]
    ++ [boolByte h.indexEncrypted]
    ++ wrappedMekField h.wrappedMek

/-- What the legacy V2/V3/V4 branch feeds to HMAC. -/
def narrowMessage (h : VaultHeader) : Bytes :=
  h.salt.toList
    ++ h.verifyIv.toList
    ++ u16le (UInt16.ofNat h.verifyCiphertext.length)
    ++ h.verifyCiphertext

/-- The byte sequence `compute_hmac` feeds to HMAC. -/
def hmacMessage (h : VaultHeader) : Bytes :=
  if h.version ≥ 5 then wideMessage h else narrowMessage h

/-- `VaultHeader::compute_hmac`. -/
def computeHmac (P : Primitives) (hmacKey : ByteVec 32) (h : VaultHeader) :
    ByteVec 32 :=
  P.hmacSha256 hmacKey (hmacMessage h)

/-- The stored header HMAC verifies under the key. -/
def MacVerifies (P : Primitives) (hmacKey : ByteVec 32) (h : VaultHeader) : Prop :=
  computeHmac P hmacKey h = h.headerHmac

/-! ## Counters and the destroyed sentinel -/

/-- `increment_state_version`. -/
def incrementStateVersion (h : VaultHeader) : VaultHeader :=
  { h with stateVersion := saturatingAdd64 h.stateVersion 1 }

def FAIL_COUNTER_DOMAIN : Bytes := ascii "USBVault-FailCounter-v1:"

def MAX_FAIL_ATTEMPTS : UInt32 := 10

def KDF_HASH_ID_DESTROYED : UInt8 := 0xDE

/-- `is_self_destructed`. -/
def isSelfDestructed (h : VaultHeader) : Bool :=
  h.kdfHashId == KDF_HASH_ID_DESTROYED
    || (decide (h.version ≥ 4) && h.wrappedMek.isNone)

/-- `compute_fail_counter_hmac`. -/
def computeFailCounterHmac (P : Primitives) (hmacKey : ByteVec 32)
    (counter : UInt32) : ByteVec 32 :=
  P.hmacSha256 hmacKey (FAIL_COUNTER_DOMAIN ++ u32le counter)

/-- `read_fail_counter`. -/
def readFailCounter (P : Primitives) (hmacKey : ByteVec 32) (h : VaultHeader) :
    Result UInt32 :=
  match h.failCounterBlock with
  | none => .error .invalidHeader
  | some block =>
    if block.length ≠ 36 then .error .invalidHeader
    else
      let counter := u32OfLe (block.take 4)
      if (computeFailCounterHmac P hmacKey counter).toList ≠ block.drop 4 then
        .error .failCounterTampered
      else .ok counter

/-- `write_fail_counter`. -/
def writeFailCounter (P : Primitives) (hmacKey : ByteVec 32) (count : UInt32)
    (h : VaultHeader) : VaultHeader :=
  let block := u32le count ++ (computeFailCounterHmac P hmacKey count).toList
  { h with failCounterBlock := some block }

/-- Recompute the stored header HMAC. -/
def resign (P : Primitives) (hmacKey : ByteVec 32) (h : VaultHeader) :
    VaultHeader :=
  { h with headerHmac := computeHmac P hmacKey h }

/-! ## Associated data -/

def WRAP_AD_DOMAIN_V6 : Bytes := ascii "USBVault-wrapMEK-v6:"
def VERIFY_AD_DOMAIN_V6 : Bytes := ascii "USBVault-verify-v6:"

/-- The wrapped-MEK associated data of a V6 header. -/
def wrapAd (version : UInt8) (salt : ByteVec 32) (argon2Memory argon2Time : UInt32)
    (argon2Parallelism : UInt8) : Bytes :=
  WRAP_AD_DOMAIN_V6 ++ [version] ++ salt.toList ++ u32le argon2Memory
    ++ u32le argon2Time ++ [argon2Parallelism]

/-- The verify-marker associated data of a V6 header. -/
def verifyAd (version : UInt8) (salt : ByteVec 32) : Bytes :=
  VERIFY_AD_DOMAIN_V6 ++ [version] ++ salt.toList

/-- `wrap_ad_v6`. -/
def wrapAdV6 (h : VaultHeader) : Bytes :=
  wrapAd h.version h.salt h.argon2Memory h.argon2Time h.argon2Parallelism

/-- `verify_ad_v6`. -/
def verifyAdV6 (h : VaultHeader) : Bytes := verifyAd h.version h.salt

/-! ## Create and unlock -/

def VERIFY_PLAINTEXT : Bytes := ascii "USBVAULT_VERIFY_OK_0000"
def VERIFY_PREFIX : Bytes := ascii "USBVAULT_VERIFY"

/-- What `create_new` draws from the system generator. -/
structure CreateEntropy where
  salt : ByteVec 32
  mek : MasterEncryptionKey
  wrapNonce : ByteVec 24
  verifyIv : ByteVec 24

/-- `VaultHeader::create_new`: the header and the two MEK halves. -/
def createNew (P : Primitives) (entropy : CreateEntropy) (password : Bytes)
    (cipherId : CipherId) : Result (VaultHeader × ByteVec 32 × ByteVec 32) := do
  let salt := entropy.salt
  let argon2Memory : UInt32 := 65536
  let argon2Time : UInt32 := 3
  let argon2Parallelism : UInt8 := 4
  let version : UInt8 := 6
  let kdfHashId : UInt8 := 2
  let cipherByte := cipherId.asByte
  let transcript := buildKdfTranscript version kdfHashId cipherByte salt.toList
    argon2Memory argon2Time argon2Parallelism
  let kek ← deriveKekV6WithParams P password salt.toList transcript
    argon2Memory argon2Time argon2Parallelism
  let mek := entropy.mek
  let wrapped ← wrapMekAd P entropy.wrapNonce kek mek
    (wrapAd version salt argon2Memory argon2Time argon2Parallelism)
  let verifyIv := entropy.verifyIv
  match P.xchacha20Poly1305.encrypt mek.encryptionKey verifyIv
      (verifyAd version salt) VERIFY_PLAINTEXT with
  | none => .error .keyDerivationFailed
  | some verifyCiphertext =>
    let header : VaultHeader :=
      { version, kdfHashId, cipherId := cipherByte, salt, verifyIv,
        verifyCiphertext, headerHmac := zeroVec 32, activeIndexSlot := 0,
        index1Offset := UInt32.ofNat HEADER_SIZE_V6, index1Length := 0,
        index2Offset := UInt32.ofNat HEADER_SIZE_V6, index2Length := 0,
        commitCounter := 0, argon2Memory, argon2Time, argon2Parallelism,
        identityBlock := none, tfaBlock := none, failCounterBlock := none,
        wrappedMek := some wrapped, stateVersion := 1,
        indexEncrypted := true }
    let header := header.writeFailCounter P mek.hmacKey 0
    -- the HMAC comes last, over the finished header
    let header := header.resign P mek.hmacKey
    .ok (header, mek.encryptionKey, mek.hmacKey)

/-- The KEK of a header: transcript-bound from V6 on, plain before. -/
def deriveHeaderKek (P : Primitives) (password : Bytes) (h : VaultHeader) :
    Result KeyEncryptionKey :=
  if h.version ≥ 6 then
    deriveKekV6WithParams P password h.salt.toList
      (buildKdfTranscript h.version h.kdfHashId h.cipherId h.salt.toList
        h.argon2Memory h.argon2Time h.argon2Parallelism)
      h.argon2Memory h.argon2Time h.argon2Parallelism
  else
    deriveKekWithParams P password h.salt.toList h.argon2Memory h.argon2Time
      h.argon2Parallelism

/-- The unwrapped MEK: bound to the header's associated data from V6 on. -/
def unwrapHeaderMek (P : Primitives) (kek : KeyEncryptionKey) (wrapped : Bytes)
    (h : VaultHeader) : Result MasterEncryptionKey :=
  if h.version ≥ 6 then unwrapMekAd P kek wrapped h.wrapAdV6
  else unwrapMek P kek wrapped

/-- Whether the verify marker decrypts to the known plaintext. -/
def verifyMarkerValid (P : Primitives) (mek : MasterEncryptionKey)
    (h : VaultHeader) : Bool :=
  let ad := if h.version ≥ 6 then h.verifyAdV6 else []
  match P.xchacha20Poly1305.decrypt mek.encryptionKey h.verifyIv ad
      h.verifyCiphertext with
  | some plaintext => VERIFY_PREFIX.isPrefixOf plaintext
  | none => false

/-- The part of `unlock` before the header HMAC is checked: the KEK from
the password, the MEK, and the verify marker. -/
def unlockMek (P : Primitives) (password : Bytes) (h : VaultHeader) :
    Result MasterEncryptionKey :=
  if h.isSelfDestructed then .error .selfDestructed
  else
    match h.wrappedMek with
    | none => .error .invalidHeader
    | some wrapped => do
        let kek ← deriveHeaderKek P password h
        match unwrapHeaderMek P kek wrapped h with
        -- a wrong password and a tampered blob are reported alike
        | .error _ => .error .passwordWrong
        | .ok mek =>
          if verifyMarkerValid P mek h then .ok mek
          else .error .passwordWrong

/-- `VaultHeader::unlock`: the MEK halves (enc_key, hmac_key). -/
def unlock (P : Primitives) (password : Bytes) (h : VaultHeader) :
    Result (ByteVec 32 × ByteVec 32) := do
  let mek ← unlockMek P password h
  if computeHmac P mek.hmacKey h ≠ h.headerHmac then .error .invalidHeader
  else .ok (mek.encryptionKey, mek.hmacKey)

/-! ## Index commits -/

/-- `upgrade_to_v5_if_eligible`. -/
def upgradeToV5IfEligible (h : VaultHeader) : VaultHeader :=
  if h.version = 4 ∧ h.wrappedMek.isSome then { h with version := 5 } else h

/-- Point the inactive slot at the new index and make it the active one. -/
def flipIndexSlot (newIndexOffset newIndexLength : UInt32) (h : VaultHeader) :
    VaultHeader :=
  if h.activeIndexSlot = 0 then
    { h with index2Offset := newIndexOffset, index2Length := newIndexLength,
             activeIndexSlot := 1 }
  else
    { h with index1Offset := newIndexOffset, index1Length := newIndexLength,
             activeIndexSlot := 0 }

/-- `commit_new_index`. -/
def commitNewIndex (P : Primitives) (hmacKey : ByteVec 32)
    (newIndexOffset newIndexLength : UInt32) (h : VaultHeader) : VaultHeader :=
  let h := h.upgradeToV5IfEligible
  let h := h.flipIndexSlot newIndexOffset newIndexLength
  let h := { h with commitCounter := saturatingAdd64 h.commitCounter 1 }
  let h := h.incrementStateVersion
  h.resign P hmacKey

/-! ## Self-destruct -/

/-- What an erasure leaves in the header of the bytes it draws: the new
salt and verify IV. (The bytes drawn over the wrapped MEK are dropped
with it.) -/
structure EraseEntropy where
  salt : ByteVec 32
  verifyIv : ByteVec 24

/-- `crypto_erase_fields`. -/
def cryptoEraseFields (entropy : EraseEntropy) (h : VaultHeader) : VaultHeader :=
  { h with
    wrappedMek := none
    salt := entropy.salt
    verifyIv := entropy.verifyIv
    verifyCiphertext := []
    failCounterBlock := none
    tfaBlock := none
    identityBlock := none
    kdfHashId := KDF_HASH_ID_DESTROYED }

/-- `self_destruct`. -/
def selfDestruct (P : Primitives) (hmacKey : ByteVec 32) (entropy : EraseEntropy)
    (h : VaultHeader) : VaultHeader :=
  ((h.cryptoEraseFields entropy).incrementStateVersion).resign P hmacKey

/-- `self_destruct_wipe`. -/
def selfDestructWipe (entropy : EraseEntropy) (h : VaultHeader) : VaultHeader :=
  { (h.cryptoEraseFields entropy).incrementStateVersion with
    headerHmac := zeroVec 32 }

end VaultHeader

end UsbVault
