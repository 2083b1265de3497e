import UsbVault.App.Provision

/-!
# Encrypted files

`encryptFile` and `decryptData` of `utils/cryptoManager.ts`, over the functions
of `crypto/bridge.ts` and the web module of `crypto/native.ts` that they call.

A file of 64 KiB and more is encrypted in chunks of 64 KiB. Each becomes a
record of 28 bytes more, and `decryptData` cuts what it is given into chunks of
64 KiB again, which are no records. So what it gives back are just the files
below 64 KiB (`decryptData_encryptFile`). Of the others it takes the last record
for the whole, if that fits a chunk (`decryptData_lastChunk`).

The bytes cross the bridge as base64 and as hexadecimal, and the session of a
stream holds its key and a counter that nothing reads; both are left out. What
the generator gives is an argument.
-/

namespace UsbVault.FileCrypto

open Wire
open App (WebCrypto aesGcmEncryptRaw aesGcmDecryptRaw)

def CHUNK_SIZE : Nat := 64 * 1024

def STREAMING_THRESHOLD : Nat := CHUNK_SIZE

inductive FileError where
  /-- `Cannot encrypt an empty file` -/
  | emptyFile
  /-- `Password cannot be empty` -/
  | emptyPassword
  /-- `Salt must be 32 bytes` -/
  | saltLength
  /-- `Key derivation failed: ...` -/
  | keyDerivation
  /-- `Plaintext cannot be empty` -/
  | emptyPlaintext
  /-- `Encryption failed: ...` -/
  | encryption
  /-- `Ciphertext cannot be empty` -/
  | emptyCiphertext
  /-- `Decryption failed: ...` -/
  | decryption
  /-- `Streaming encryption chunk failed: ...` -/
  | encryptionChunk
  /-- `Streaming decryption chunk failed: ...` -/
  | decryptionChunk
  deriving DecidableEq, Repr

def orThrow {α : Type} (e : FileError) : Option α → Except FileError α
  | some a => .ok a
  | none => .error e

/-! ## The bridge -/

def deriveKey (C : WebCrypto) (password salt : Bytes) : Except FileError (ByteVec 32) :=
  if password = [] then .error .emptyPassword
  else if salt.length ≠ 32 then .error .saltLength
  else orThrow .keyDerivation (C.argon2id password salt 65536 3 4)

/-- The cipher is chosen by the module. -/
def encrypt (C : WebCrypto) (_cipherId : CipherId) (key : ByteVec 32) (iv : ByteVec 12)
    (plaintext : Bytes) : Except FileError Bytes :=
  if plaintext = [] then .error .emptyPlaintext
  else orThrow .encryption (aesGcmEncryptRaw C key iv plaintext)

def decrypt (C : WebCrypto) (_cipherId : CipherId) (key : ByteVec 32) (ciphertext : Bytes) :
    Except FileError Bytes :=
  if ciphertext = [] then .error .emptyCiphertext
  else orThrow .decryption (aesGcmDecryptRaw C key ciphertext)

def streamEncryptChunk (C : WebCrypto) (key : ByteVec 32) (iv : ByteVec 12) (chunk : Bytes)
    (_isFinal : Bool) : Except FileError Bytes :=
  orThrow .encryptionChunk (aesGcmEncryptRaw C key iv chunk)

def streamDecryptChunk (C : WebCrypto) (key : ByteVec 32) (chunk : Bytes) (_isFinal : Bool) :
    Except FileError Bytes :=
  orThrow .decryptionChunk (aesGcmDecryptRaw C key chunk)

/-! ## Files -/

/-- `readFileInChunks`: each chunk, and whether it is the last. The fuel is the
length of the data. -/
def readFileInChunks (chunkSize : Nat) : Nat → Bytes → List (Bytes × Bool)
  | 0, _ => []
  | fuel + 1, fileData =>
    if fileData = [] then []
    else
      (fileData.take chunkSize, decide (fileData.length ≤ chunkSize))
        :: readFileInChunks chunkSize fuel (fileData.drop chunkSize)

/-- The loop of `streamEncryptFile`, from the chunk of index `i`. -/
def encryptChunks (C : WebCrypto) (key : ByteVec 32) (ivs : Nat → ByteVec 12) :
    Nat → List (Bytes × Bool) → Except FileError (List Bytes)
  | _, [] => .ok []
  | i, (chunk, isFinal) :: chunks => do
      let encryptedChunk ← streamEncryptChunk C key (ivs i) chunk isFinal
      let encryptedChunks ← encryptChunks C key ivs (i + 1) chunks
      return encryptedChunk :: encryptedChunks

def streamEncryptFile (C : WebCrypto) (key : ByteVec 32) (ivs : Nat → ByteVec 12)
    (fileData : Bytes) : Except FileError Bytes := do
  let encryptedChunks ←
    encryptChunks C key ivs 0 (readFileInChunks CHUNK_SIZE fileData.length fileData)
  return encryptedChunks.flatten

structure EncryptionResult where
  encryptedData : Bytes
  salt : ByteVec 32
  cipherId : CipherId
  originalSize : Nat
  isStreamed : Bool
  deriving DecidableEq

def encryptFile (C : WebCrypto) (fileData password : Bytes) (cipherId : CipherId)
    (salt : ByteVec 32) (ivs : Nat → ByteVec 12) : Except FileError EncryptionResult :=
  if fileData = [] then .error .emptyFile
  else do
    let key ← deriveKey C password salt.toList
    if fileData.length < STREAMING_THRESHOLD then
      let encryptedData ← encrypt C cipherId key (ivs 0) fileData
      return ⟨encryptedData, salt, cipherId, fileData.length, false⟩
    else
      let encryptedData ← streamEncryptFile C key ivs fileData
      return ⟨encryptedData, salt, cipherId, fileData.length, true⟩

/-- The loop of `streamDecryptData`. -/
def decryptChunks (C : WebCrypto) (key : ByteVec 32) :
    List (Bytes × Bool) → Except FileError (List Bytes)
  | [] => .ok []
  | (chunk, isFinal) :: chunks => do
      let decryptedChunk ← streamDecryptChunk C key chunk isFinal
      let decryptedChunks ← decryptChunks C key chunks
      return decryptedChunk :: decryptedChunks

structure DecryptionResult where
  data : Bytes
  originalSize : Nat
  deriving DecidableEq

def streamDecryptData (C : WebCrypto) (key : ByteVec 32) (encryptedData : Bytes) :
    Except FileError DecryptionResult := do
  let decryptedChunks ←
    decryptChunks C key (readFileInChunks CHUNK_SIZE encryptedData.length encryptedData)
  return ⟨decryptedChunks.flatten, decryptedChunks.flatten.length⟩

def decryptData (C : WebCrypto) (encryptedData password salt : Bytes) (cipherId : CipherId)
    (isStreamed : Bool) (_originalSize : Option Nat) : Except FileError DecryptionResult := do
  let key ← deriveKey C password salt
  if isStreamed then streamDecryptData C key encryptedData
  else
    let data ← decrypt C cipherId key encryptedData
    return ⟨data, data.length⟩

/-! ## Chunks -/

variable {C : WebCrypto} {key : ByteVec 32} {ivs : Nat → ByteVec 12}

theorem orThrow_ok {α : Type} {e : FileError} {o : Option α} {a : α} :
    orThrow e o = .ok a ↔ o = some a := by
  cases o with
  | none => simp [orThrow]
  | some b => simp [orThrow]

theorem bind_ok {α β : Type} {x : Except FileError α} {f : α → Except FileError β} {b : β} :
    x.bind f = .ok b ↔ ∃ a, x = .ok a ∧ f a = .ok b := by
  cases x with
  | error e => simp [Except.bind]
  | ok a => simp [Except.bind]

theorem readFileInChunks_nil (chunkSize fuel : Nat) : readFileInChunks chunkSize fuel [] = [] := by
  cases fuel with
  | zero => rfl
  | succ fuel => rw [readFileInChunks, if_pos rfl]

theorem readFileInChunks_cons {data : Bytes} {fuel : Nat} (hdata : data ≠ [])
    (hfuel : data.length ≤ fuel) (chunkSize : Nat) :
    readFileInChunks chunkSize fuel data
      = (data.take chunkSize, decide (data.length ≤ chunkSize))
        :: readFileInChunks chunkSize (fuel - 1) (data.drop chunkSize) := by
  have hpos := List.length_pos_iff.mpr hdata
  cases fuel with
  | zero => omega
  | succ fuel => rw [readFileInChunks, if_neg hdata, Nat.add_sub_cancel]

theorem encryptChunks_cons {i : Nat} {chunk : Bytes} {isFinal : Bool}
    {chunks : List (Bytes × Bool)} {records : List Bytes} :
    encryptChunks C key ivs i ((chunk, isFinal) :: chunks) = .ok records
      ↔ ∃ r rs, aesGcmEncryptRaw C key (ivs i) chunk = some r
        ∧ encryptChunks C key ivs (i + 1) chunks = .ok rs ∧ records = r :: rs := by
  show (streamEncryptChunk C key (ivs i) chunk isFinal).bind _ = _ ↔ _
  rw [bind_ok]
  constructor
  · rintro ⟨r, hr, hrest⟩
    obtain ⟨rs, hrs, hrecords⟩ := bind_ok.mp hrest
    cases hrecords
    exact ⟨r, rs, orThrow_ok.mp hr, hrs, rfl⟩
  · rintro ⟨r, rs, hr, hrs, rfl⟩
    exact ⟨r, orThrow_ok.mpr hr, bind_ok.mpr ⟨rs, hrs, rfl⟩⟩

theorem take_aesGcmEncryptRaw {iv : ByteVec 12} {plaintext r : Bytes}
    (h : aesGcmEncryptRaw C key iv plaintext = some r) : r.take 12 = iv.toList := by
  rw [aesGcmEncryptRaw, Option.map_eq_some_iff] at h
  obtain ⟨ct, -, rfl⟩ := h
  exact List.take_left' iv.toList_length

theorem encryptChunks_iv {chunks : List (Bytes × Bool)} : ∀ {i : Nat} {records : List Bytes},
    encryptChunks C key ivs i chunks = .ok records →
    ∀ n r, records[n]? = some r → r.take 12 = (ivs (i + n)).toList := by
  induction chunks with
  | nil =>
    intro i records h n r hr
    cases h
    cases hr
  | cons head chunks ih =>
    intro i records h n r hr
    obtain ⟨chunk, isFinal⟩ := head
    obtain ⟨r₀, rs, hr₀, hrs, rfl⟩ := encryptChunks_cons.mp h
    cases n with
    | zero =>
      cases hr
      exact take_aesGcmEncryptRaw hr₀
    | succ n =>
      rw [List.getElem?_cons_succ] at hr
      rw [ih hrs n r hr, Nat.add_assoc, Nat.add_comm 1 n]

/-! ## Whole files -/

/-- AES-GCM opens nothing under the key but what has been encrypted for the
file, and no IV has been drawn twice. -/
structure Unforged (C : WebCrypto) (key : ByteVec 32) (ivs : Nat → ByteVec 12)
    (records : List Bytes) : Prop where
  opens : ∀ data m, aesGcmDecryptRaw C key data = some m → data ∈ records
  fresh : ∀ i j, i < j → j < records.length → ivs i ≠ ivs j

/-- **A record that is cut short does not open.** -/
theorem cut_closed {chunk : Bytes} {isFinal : Bool}
    {chunks : List (Bytes × Bool)} {r : Bytes} {rs : List Bytes}
    (h : encryptChunks C key ivs 0 ((chunk, isFinal) :: chunks) = .ok (r :: rs))
    (hunforged : Unforged C key ivs (r :: rs)) {n : Nat} (hiv : 12 ≤ n) (hcut : n < r.length) :
    aesGcmDecryptRaw C key (r.take n) = none := by
  cases hopen : aesGcmDecryptRaw C key (r.take n) with
  | none => rfl
  | some m =>
    exfalso
    obtain ⟨j, hj⟩ := List.mem_iff_getElem?.mp (hunforged.opens _ m hopen)
    cases j with
    | zero =>
      -- the record itself is longer
      have hwhole := congrArg List.length (Option.some.inj hj)
      rw [List.length_take] at hwhole
      omega
    | succ j =>
      -- another has another IV
      have hself := encryptChunks_iv h 0 r rfl
      have hother := encryptChunks_iv h (j + 1) _ hj
      rw [List.take_take, Nat.min_eq_left hiv, hself, Nat.zero_add, Nat.zero_add] at hother
      obtain ⟨hlt, -⟩ := List.getElem?_eq_some_iff.mp hj
      exact hunforged.fresh 0 (j + 1) (Nat.succ_pos j) hlt (Subtype.ext hother)

theorem streamEncryptFile_ok {fileData encryptedData : Bytes} :
    streamEncryptFile C key ivs fileData = .ok encryptedData
      ↔ ∃ records, encryptChunks C key ivs 0
          (readFileInChunks CHUNK_SIZE fileData.length fileData) = .ok records
        ∧ encryptedData = records.flatten := by
  show (encryptChunks C key ivs 0 _).bind _ = _ ↔ _
  rw [bind_ok]
  refine exists_congr fun records => and_congr_right fun _ => ?_
  constructor
  · rintro ⟨⟩
    rfl
  · rintro rfl
    rfl

theorem streamDecryptData_streamEncryptFile (hC : C.aesGcm.Correct)
    {fileData encryptedData : Bytes} (hlong : STREAMING_THRESHOLD ≤ fileData.length)
    (hencrypt : streamEncryptFile C key ivs fileData = .ok encryptedData)
    (hunforged : ∀ records, encryptChunks C key ivs 0
        (readFileInChunks CHUNK_SIZE fileData.length fileData) = .ok records →
      Unforged C key ivs records) :
    streamDecryptData C key encryptedData = .error .decryptionChunk := by
  obtain ⟨records, hrecords, rfl⟩ := streamEncryptFile_ok.mp hencrypt
  have hall := hunforged records hrecords
  have hsome : fileData ≠ [] := by
    rintro rfl
    exact absurd hlong (by decide)
  rw [readFileInChunks_cons hsome (Nat.le_refl _)] at hrecords
  obtain ⟨r, rs, hr, -, rfl⟩ := encryptChunks_cons.mp hrecords
  have hfull : (fileData.take CHUNK_SIZE).length = CHUNK_SIZE := List.length_take_of_le hlong
  have hlength : r.length = CHUNK_SIZE + 28 := by
    rw [App.aesGcmEncryptRaw_length hC hr, hfull]
  have hcut : aesGcmDecryptRaw C key (r.take CHUNK_SIZE) = none :=
    cut_closed hrecords hall (by decide) (by omega)
  have hfirst : (r ++ rs.flatten).take CHUNK_SIZE = r.take CHUNK_SIZE :=
    List.take_append_of_le_length (by omega)
  have hany : r ++ rs.flatten ≠ [] := by
    intro hnone
    rw [List.append_eq_nil_iff] at hnone
    rw [hnone.1] at hlength
    cases hlength
  rw [List.flatten_cons, streamDecryptData, readFileInChunks_cons hany (Nat.le_refl _), hfirst,
    decryptChunks, streamDecryptChunk, hcut]
  rfl

theorem encryptFile_ok {fileData password : Bytes} {cipherId : CipherId} {salt : ByteVec 32}
    {result : EncryptionResult}
    (h : encryptFile C fileData password cipherId salt ivs = .ok result) :
    fileData ≠ [] ∧ ∃ key encryptedData, deriveKey C password salt.toList = .ok key
      ∧ result = ⟨encryptedData, salt, cipherId, fileData.length,
          decide (STREAMING_THRESHOLD ≤ fileData.length)⟩
      ∧ if fileData.length < STREAMING_THRESHOLD
          then aesGcmEncryptRaw C key (ivs 0) fileData = some encryptedData
          else streamEncryptFile C key ivs fileData = .ok encryptedData := by
  rw [encryptFile] at h
  by_cases hempty : fileData = []
  · rw [if_pos hempty] at h
    cases h
  · rw [if_neg hempty] at h
    obtain ⟨key, hkey, h⟩ := bind_ok.mp h
    refine ⟨hempty, key, ?_⟩
    by_cases hshort : fileData.length < STREAMING_THRESHOLD
    · rw [if_pos hshort] at h
      obtain ⟨encryptedData, hencrypt, h⟩ := bind_ok.mp h
      cases h
      rw [encrypt, if_neg hempty, orThrow_ok] at hencrypt
      refine ⟨encryptedData, hkey, ?_, by rw [if_pos hshort]; exact hencrypt⟩
      rw [decide_eq_false (Nat.not_le.mpr hshort)]
    · rw [if_neg hshort] at h
      obtain ⟨encryptedData, hencrypt, h⟩ := bind_ok.mp h
      cases h
      refine ⟨encryptedData, hkey, ?_, by rw [if_neg hshort]; exact hencrypt⟩
      rw [decide_eq_true (Nat.not_lt.mp hshort)]

theorem encryptFile_of_stream {fileData password encryptedData : Bytes} {cipherId : CipherId}
    {salt : ByteVec 32} (hempty : fileData ≠ [])
    (hkey : deriveKey C password salt.toList = .ok key)
    (hlong : STREAMING_THRESHOLD ≤ fileData.length)
    (hstream : streamEncryptFile C key ivs fileData = .ok encryptedData) :
    encryptFile C fileData password cipherId salt ivs
      = .ok ⟨encryptedData, salt, cipherId, fileData.length, true⟩ := by
  rw [encryptFile, if_neg hempty]
  refine bind_ok.mpr ⟨key, hkey, ?_⟩
  rw [if_neg (Nat.not_lt.mpr hlong)]
  exact bind_ok.mpr ⟨encryptedData, hstream, rfl⟩

theorem decryptData_of_key {password salt encryptedData : Bytes} {cipherId : CipherId}
    {isStreamed : Bool} {originalSize : Option Nat}
    (hkey : deriveKey C password salt = .ok key) :
    decryptData C encryptedData password salt cipherId isStreamed originalSize
      = if isStreamed then streamDecryptData C key encryptedData
        else (decrypt C cipherId key encryptedData).map fun data => ⟨data, data.length⟩ := by
  rw [decryptData, hkey]
  cases isStreamed with
  | true => rfl
  | false =>
    cases hdecrypt : decrypt C cipherId key encryptedData with
    | error e => simp [bind, Except.bind, hdecrypt, Except.map]
    | ok data => simp [bind, Except.bind, hdecrypt, Except.map, pure, Except.pure]

/-- **What comes back** is every file below 64 KiB, and no other. -/
theorem decryptData_encryptFile (hC : C.aesGcm.Correct) {fileData password : Bytes}
    {cipherId : CipherId} {salt : ByteVec 32} {result : EncryptionResult}
    (hencrypt : encryptFile C fileData password cipherId salt ivs = .ok result)
    (hunforged : STREAMING_THRESHOLD ≤ fileData.length → ∀ key records,
      deriveKey C password salt.toList = .ok key →
      encryptChunks C key ivs 0 (readFileInChunks CHUNK_SIZE fileData.length fileData)
        = .ok records → Unforged C key ivs records) :
    decryptData C result.encryptedData password result.salt.toList result.cipherId
        result.isStreamed (some result.originalSize)
      = if fileData.length < STREAMING_THRESHOLD then .ok ⟨fileData, fileData.length⟩
        else .error .decryptionChunk := by
  obtain ⟨hempty, key, encryptedData, hkey, rfl, hdata⟩ := encryptFile_ok hencrypt
  rw [decryptData_of_key hkey]
  by_cases hshort : fileData.length < STREAMING_THRESHOLD
  · rw [if_pos hshort] at hdata ⊢
    have hsome : encryptedData ≠ [] := by
      rintro rfl
      have hlength := App.aesGcmEncryptRaw_length hC hdata
      cases hlength
    rw [decide_eq_false (Nat.not_le.mpr hshort), if_neg Bool.false_ne_true, decrypt, if_neg hsome,
      App.aesGcmDecryptRaw_encrypt hC hdata]
    rfl
  · have hlong := Nat.not_lt.mp hshort
    rw [if_neg hshort] at hdata ⊢
    rw [decide_eq_true hlong, if_pos rfl]
    exact streamDecryptData_streamEncryptFile hC hlong hdata fun records =>
      hunforged hlong key records hkey

/-- AES-GCM after one file of one chunk has been encrypted. -/
def onceAead (fileData : Bytes) : Aead 12 where
  encrypt _ iv _ m :=
    if iv = zeroVec 12 ∧ m = fileData then some (fileData ++ zeros 16) else none
  decrypt _ iv _ c :=
    if iv = zeroVec 12 ∧ c = fileData ++ zeros 16 then some fileData else none

theorem onceAead_encrypt (fileData ad : Bytes) (key : ByteVec 32) :
    (onceAead fileData).encrypt key (zeroVec 12) ad fileData = some (fileData ++ zeros 16) :=
  if_pos ⟨rfl, rfl⟩

theorem onceAead_correct (fileData : Bytes) : (onceAead fileData).Correct where
  decrypt_encrypt := by
    intro k iv ad m c h
    simp only [onceAead] at h ⊢
    split at h
    · rename_i hiv
      cases h
      rw [if_pos ⟨hiv.1, rfl⟩, hiv.2]
    · cases h
  encrypt_length := by
    intro k iv ad m c h
    simp only [onceAead] at h
    split at h
    · rename_i hiv
      cases h
      rw [List.length_append, hiv.2, zeros_length]
    · cases h
  decrypt_length := by
    intro k iv ad m c h
    simp only [onceAead] at h
    split at h
    · rename_i hiv
      cases h
      rw [hiv.2, List.length_append, zeros_length]
    · cases h

/-- 64 KiB -/
def sampleFile : Bytes := List.replicate CHUNK_SIZE 7

def sampleCrypto : WebCrypto := { App.transparentCrypto with aesGcm := onceAead sampleFile }

theorem sampleFile_length : sampleFile.length = CHUNK_SIZE := List.length_replicate

theorem sampleFile_ne_nil : sampleFile ≠ [] := by
  intro hnone
  have hlength := sampleFile_length
  rw [hnone] at hlength
  cases hlength

theorem sampleFile_chunks :
    readFileInChunks CHUNK_SIZE sampleFile.length sampleFile = [(sampleFile, true)] := by
  have hwhole := Nat.le_of_eq sampleFile_length
  rw [readFileInChunks_cons sampleFile_ne_nil (Nat.le_refl _), List.take_of_length_le hwhole,
    List.drop_eq_nil_of_le hwhole, readFileInChunks_nil, decide_eq_true hwhole]

theorem sampleFile_encrypts (key : ByteVec 32) :
    encryptChunks sampleCrypto key (fun _ => zeroVec 12) 0 [(sampleFile, true)]
      = .ok [(zeroVec 12).toList ++ (sampleFile ++ zeros 16)] := by
  refine encryptChunks_cons.mpr ⟨_, [], ?_, rfl, rfl⟩
  rw [aesGcmEncryptRaw, sampleCrypto, onceAead_encrypt, Option.map_some]

theorem sampleFile_unforged (key : ByteVec 32) :
    Unforged sampleCrypto key (fun _ => zeroVec 12)
      [(zeroVec 12).toList ++ (sampleFile ++ zeros 16)] where
  opens := by
    intro data m hopen
    rw [aesGcmDecryptRaw] at hopen
    split at hopen
    · simp only [sampleCrypto, onceAead] at hopen
      split at hopen
      · rename_i hiv
        have htake : data.take 12 = (zeroVec 12).toList := congrArg List.Vector.toList hiv.1
        rw [← List.take_append_drop 12 data, htake, hiv.2]
        exact List.mem_singleton_self _
      · cases hopen
    · cases hopen
  fresh := by
    intro i j hij hj
    rw [List.length_singleton] at hj
    omega

theorem sampleFile_encryptFile :
    encryptFile sampleCrypto sampleFile App.samplePassword .aes256GcmSiv (zeroVec 32)
        (fun _ => zeroVec 12)
      = .ok ⟨(zeroVec 12).toList ++ (sampleFile ++ zeros 16), zeroVec 32, .aes256GcmSiv,
          sampleFile.length, true⟩ := by
  have hkey : deriveKey sampleCrypto App.samplePassword (zeroVec 32).toList = .ok (zeroVec 32) :=
    rfl
  refine encryptFile_of_stream sampleFile_ne_nil hkey (Nat.le_of_eq sampleFile_length.symm) ?_
  refine streamEncryptFile_ok.mpr ⟨_, ?_, List.flatten_singleton.symm⟩
  rw [sampleFile_chunks, sampleFile_encrypts]

theorem decryptData_encryptFile_sample :
    decryptData sampleCrypto ((zeroVec 12).toList ++ (sampleFile ++ zeros 16)) App.samplePassword
        (zeroVec 32).toList .aes256GcmSiv true (some sampleFile.length)
      = .error .decryptionChunk := by
  have hlong : ¬sampleFile.length < STREAMING_THRESHOLD :=
    Nat.not_lt.mpr (Nat.le_of_eq sampleFile_length.symm)
  have hnone := decryptData_encryptFile (onceAead_correct sampleFile) sampleFile_encryptFile ?_
  · rw [if_neg hlong] at hnone
    exact hnone
  · intro _ key records _ hrecords
    rw [sampleFile_chunks, sampleFile_encrypts] at hrecords
    cases hrecords
    exact sampleFile_unforged key

/-! ## The last record -/

/-- The last of the chunks of a file. -/
def lastChunk (fileData : Bytes) : Bytes :=
  fileData.drop ((fileData.length - 1) / CHUNK_SIZE * CHUNK_SIZE)

theorem lastChunk_of_le {data : Bytes} (hdata : data ≠ []) (hshort : data.length ≤ CHUNK_SIZE) :
    lastChunk data = data := by
  have hpos := List.length_pos_iff.mpr hdata
  rw [lastChunk, Nat.div_eq_of_lt (by omega), Nat.zero_mul, List.drop_zero]

theorem lastChunk_drop {data : Bytes} (hlong : CHUNK_SIZE < data.length) :
    lastChunk (data.drop CHUNK_SIZE) = lastChunk data := by
  have hcount : (data.length - 1) / CHUNK_SIZE
      = (data.length - CHUNK_SIZE - 1) / CHUNK_SIZE + 1 := by
    rw [← Nat.add_div_right _ (by decide)]
    congr 1
    omega
  rw [lastChunk, lastChunk, List.drop_drop, List.length_drop, hcount, Nat.add_mul, Nat.one_mul,
    Nat.add_comm]

theorem encryptChunks_last {fuel : Nat} : ∀ {data : Bytes} {i : Nat} {records : List Bytes},
    data ≠ [] → data.length ≤ fuel →
    encryptChunks C key ivs i (readFileInChunks CHUNK_SIZE fuel data) = .ok records →
    ∃ front r j, records = front ++ [r]
      ∧ aesGcmEncryptRaw C key (ivs j) (lastChunk data) = some r := by
  induction fuel with
  | zero =>
    intro data i records hdata hfuel _
    exact absurd (List.eq_nil_of_length_eq_zero (Nat.le_zero.mp hfuel)) hdata
  | succ fuel ih =>
    intro data i records hdata hfuel h
    rw [readFileInChunks_cons hdata hfuel, Nat.add_sub_cancel] at h
    obtain ⟨r, rs, hr, hrs, rfl⟩ := encryptChunks_cons.mp h
    by_cases hshort : data.length ≤ CHUNK_SIZE
    · rw [List.drop_eq_nil_of_le hshort, readFileInChunks_nil] at hrs
      cases hrs
      rw [List.take_of_length_le hshort] at hr
      exact ⟨[], r, i, rfl, by rw [lastChunk_of_le hdata hshort, hr]⟩
    · have hlong := Nat.not_le.mp hshort
      have hrest : data.drop CHUNK_SIZE ≠ [] := by
        intro hnone
        have hlength := congrArg List.length hnone
        rw [List.length_drop, List.length_nil] at hlength
        omega
      have hle : (data.drop CHUNK_SIZE).length ≤ fuel := by
        have hpos : 0 < CHUNK_SIZE := by decide
        rw [List.length_drop]
        omega
      obtain ⟨front, last, j, rfl, hlast⟩ := ih hrest hle hrs
      rw [lastChunk_drop hlong] at hlast
      exact ⟨r :: front, last, j, rfl, hlast⟩

/-- **The last record passes for the whole**: of a streamed file whose last chunk
leaves room for the 28 bytes, the end of what was written decrypts to that chunk,
whatever original size is stored. -/
theorem decryptData_lastChunk (hC : C.aesGcm.Correct) {fileData password : Bytes}
    {cipherId : CipherId} {salt : ByteVec 32} {result : EncryptionResult}
    (hencrypt : encryptFile C fileData password cipherId salt ivs = .ok result)
    (hlong : STREAMING_THRESHOLD ≤ fileData.length)
    (hroom : (lastChunk fileData).length + 28 ≤ CHUNK_SIZE) (originalSize : Option Nat) :
    decryptData C
        (result.encryptedData.drop
          (result.encryptedData.length - ((lastChunk fileData).length + 28)))
        password result.salt.toList result.cipherId result.isStreamed originalSize
      = .ok ⟨lastChunk fileData, (lastChunk fileData).length⟩ := by
  obtain ⟨hempty, key, encryptedData, hkey, rfl, hdata⟩ := encryptFile_ok hencrypt
  rw [if_neg (Nat.not_lt.mpr hlong)] at hdata
  obtain ⟨records, hrecords, rfl⟩ := streamEncryptFile_ok.mp hdata
  obtain ⟨front, r, j, rfl, hr⟩ := encryptChunks_last hempty (Nat.le_refl _) hrecords
  have hlength := App.aesGcmEncryptRaw_length hC hr
  have hsome : r ≠ [] := by
    rintro rfl
    rw [List.length_nil] at hlength
    omega
  have hend : (front ++ [r]).flatten.drop
      ((front ++ [r]).flatten.length - ((lastChunk fileData).length + 28)) = r := by
    rw [← hlength, List.flatten_append, List.flatten_singleton, List.length_append,
      Nat.add_sub_cancel, List.drop_left]
  have hwhole : r.length ≤ CHUNK_SIZE := by omega
  rw [decryptData_of_key hkey, decide_eq_true hlong, if_pos rfl, hend, streamDecryptData,
    readFileInChunks_cons hsome (Nat.le_refl _), List.take_of_length_le hwhole,
    List.drop_eq_nil_of_le hwhole, readFileInChunks_nil, decryptChunks, streamDecryptChunk,
    App.aesGcmDecryptRaw_encrypt hC hr]
  simp [orThrow, decryptChunks, bind, Except.bind, pure, Except.pure]

/-- One byte more. -/
def longerFile : Bytes := sampleFile ++ [1]

theorem longerFile_length : longerFile.length = CHUNK_SIZE + 1 := by
  rw [longerFile, List.length_append, sampleFile_length, List.length_singleton]

theorem lastChunk_longerFile : lastChunk longerFile = [1] := by
  rw [lastChunk, longerFile_length, Nat.add_sub_cancel, Nat.div_self (by decide), Nat.one_mul,
    longerFile, List.drop_left' sampleFile_length]

theorem encryptChunks_total (htotal : C.Total) (key : ByteVec 32)
    (chunks : List (Bytes × Bool)) :
    ∀ i, ∃ records, encryptChunks C key ivs i chunks = .ok records := by
  induction chunks with
  | nil =>
    intro i
    exact ⟨[], rfl⟩
  | cons head chunks ih =>
    intro i
    obtain ⟨chunk, isFinal⟩ := head
    obtain ⟨r, hr⟩ := htotal.encryptRaw key (ivs i) chunk
    obtain ⟨rs, hrs⟩ := ih (i + 1)
    exact ⟨r :: rs, encryptChunks_cons.mpr ⟨r, rs, hr, hrs, rfl⟩⟩

theorem decryptData_lastChunk_sample :
    ∃ result, encryptFile App.transparentCrypto longerFile App.samplePassword .aes256GcmSiv
        (zeroVec 32) (fun _ => zeroVec 12) = .ok result
      ∧ decryptData App.transparentCrypto (result.encryptedData.drop
          (result.encryptedData.length - 29)) App.samplePassword result.salt.toList result.cipherId
          result.isStreamed none = .ok ⟨[1], 1⟩ := by
  have hkey : deriveKey App.transparentCrypto App.samplePassword (zeroVec 32).toList
      = .ok (zeroVec 32) := rfl
  have hlong : STREAMING_THRESHOLD ≤ longerFile.length := by
    rw [longerFile_length]
    exact Nat.le_succ CHUNK_SIZE
  have hsome : longerFile ≠ [] := by
    intro hnone
    have hlength := longerFile_length
    rw [hnone] at hlength
    cases hlength
  obtain ⟨records, hrecords⟩ := @encryptChunks_total _ (fun _ => zeroVec 12)
    App.transparentCrypto_total (zeroVec 32)
    (readFileInChunks CHUNK_SIZE longerFile.length longerFile) 0
  have hencrypt := @encryptFile_of_stream _ _ _ _ _ _ .aes256GcmSiv _ hsome hkey hlong
    (streamEncryptFile_ok.mpr ⟨records, hrecords, rfl⟩)
  have hlast := lastChunk_longerFile
  have hend := decryptData_lastChunk (transparentAead_correct 12) hencrypt hlong
    (by rw [hlast]; decide) none
  rw [hlast] at hend
  exact ⟨_, hencrypt, hend⟩

end UsbVault.FileCrypto
