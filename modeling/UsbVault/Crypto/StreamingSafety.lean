import UsbVault.Lib.Faults
import UsbVault.Crypto.Streaming

/-!
# The faults of record decryption

`decrypt_record` of `streaming.rs` once more, with what each of its
indexings, slices and offset additions needs on a target whose `usize` has 32
or 64 bits. On 64 bits no sum of an offset and a length field overflows; on
32 bits it does when the field is close enough to `2^32`, since the bound is
checked after the addition (`NameWraps`, `FrameWraps`). Each part of the
decryption is related here to the layout that it reads (`Metadata`,
`Frames`).
-/

namespace UsbVault.StreamingDecryptor

open Wire Faults

/-! ## Targets -/

/-- The width of `usize`. -/
inductive Target where
  | bits32
  | bits64
  deriving DecidableEq, Repr

/-- The number of values of a `usize`. -/
def Target.limit : Target → Nat
  | bits32 => 2 ^ 32
  | bits64 => 2 ^ 64

/-- A slice of the target: no allocation is larger than `isize::MAX`. -/
abbrev Target.Slice (t : Target) := { bytes : Bytes // 2 * bytes.length < t.limit }

theorem Target.limit_cases (t : Target) : t.limit = 2 ^ 32 ∨ t.limit = 2 ^ 64 := by
  cases t with
  | bits32 => exact .inl rfl
  | bits64 => exact .inr rfl

variable {ε : Type}

/-- An addition of offsets. One that overflows panics with overflow checks;
without them the sum is less than the offset, passes the check against the
length and is the end of a slice that starts behind it. -/
def addUsize (t : Target) (a b : Nat) : Checked ε { sum : Nat // sum = a + b } :=
  if a + b < t.limit then Faults.lift (.ok ⟨a + b, rfl⟩) else fault .slice

theorem addUsize_of_lt {t : Target} {a b : Nat} (h : a + b < t.limit) :
    (addUsize t a b : Checked ε _) = Faults.lift (.ok ⟨a + b, rfl⟩) := by
  rw [addUsize, if_pos h]

theorem addUsize_of_le {t : Target} {a b : Nat} (h : t.limit ≤ a + b) :
    (addUsize t a b : Checked ε _) = fault .slice := by
  rw [addUsize, if_neg (Nat.not_lt.mpr h)]

/-- `u32::from_le_bytes` of four indexed bytes. -/
def u32At (data : Bytes) (offset : Nat) : Checked ε UInt32 := do
  let bytes ← indices data offset 4
  Faults.lift (.ok (u32OfLe bytes))

/-- `u64::from_le_bytes` of eight indexed bytes. -/
def u64At (data : Bytes) (offset : Nat) : Checked ε UInt64 := do
  let bytes ← indices data offset 8
  Faults.lift (.ok (u64OfLe bytes))

theorem u32At_eq {data rest : Bytes} {offset : Nat} {n : UInt32}
    (h : data.drop offset = u32le n ++ rest) :
    (u32At data offset : Checked ε _) = Faults.lift (.ok n) := by
  have hlength := congrArg List.length h
  rw [List.length_drop, List.length_append, u32le_length] at hlength
  rw [u32At, indices_of_le (by omega), lift_ok_bind, h, List.take_left' (u32le_length n),
    u32OfLe_u32le]

theorem exists_u32le {bytes : Bytes} (h : 4 ≤ bytes.length) :
    ∃ n rest, bytes = u32le n ++ rest := by
  refine ⟨u32OfLe (bytes.take 4), bytes.drop 4, ?_⟩
  rw [u32le_u32OfLe (List.length_take_of_le h), List.take_append_drop]

theorem exists_u64le {bytes : Bytes} (h : 8 ≤ bytes.length) :
    ∃ n rest, bytes = u64le n ++ rest := by
  refine ⟨u64OfLe (bytes.take 8), bytes.drop 8, ?_⟩
  rw [u64le_u64OfLe (List.length_take_of_le h), List.take_append_drop]

/-! ## The functions of the source -/

variable (t : Target) (P : Primitives) (cipherId : CipherId) (key : ByteVec 32)

/-- `parse_metadata` -/
def parseMetadataChecked (metadata : Bytes) : Checked CryptoError (String × Nat) :=
  if metadata = [] then Faults.lift (.error .corruptedChunk)
  else do
    let recordType ← index metadata 0
    if recordType ≠ RECORD_TYPE_PUT then Faults.lift (.error .invalidHeader)
    else if 1 + 4 > metadata.length then Faults.lift (.error .corruptedChunk)
    else do
      let filenameLen ← u32At metadata 1
      let filenameEnd ← addUsize t 5 filenameLen.toNat
      if filenameEnd.1 > metadata.length then Faults.lift (.error .corruptedChunk)
      else do
        let filenameBytes ← range metadata 5 filenameEnd.1
        let filename ← Faults.lift (fromUtf8 filenameBytes)
        let dataLenEnd ← addUsize t filenameEnd.1 8
        if dataLenEnd.1 > metadata.length then Faults.lift (.error .corruptedChunk)
        else do
          let dataLen ← u64At metadata filenameEnd.1
          Faults.lift (.ok (filename, dataLen.toNat % t.limit))

/-- A length header of `decrypt_v2` and its chunk, with the offset behind
it. -/
def readFrame (recordData : Bytes) (offset : Nat) :
    Checked CryptoError (Bytes × { offset' : Nat // offset < offset' }) := do
  let start ← addUsize t offset 4
  if start.1 > recordData.length then Faults.lift (.error .corruptedChunk)
  else do
    let chunkLen ← u32At recordData offset
    let stop ← addUsize t start.1 chunkLen.toNat
    if stop.1 > recordData.length then Faults.lift (.error .corruptedChunk)
    else do
      let encryptedChunk ← range recordData start.1 stop.1
      Faults.lift (.ok (encryptedChunk, ⟨stop.1, by
        have hstart := start.2
        have hstop := stop.2
        omega⟩))

/-- The chunk loop of `decrypt_v2`. -/
def readChunksChecked (baseNonce : ByteVec 24) (recordData : Bytes) (offset : Nat)
    (chunkIndex : UInt64) : Checked CryptoError (List Bytes) :=
  if _h : offset < recordData.length then
    readFrame t recordData offset >>= fun frame =>
      Faults.lift (decryptWithKey P cipherId (deriveChunkKey P key baseNonce chunkIndex) frame.1)
        >>= fun decrypted =>
          readChunksChecked baseNonce recordData frame.2 (chunkIndex + 1) >>= fun rest =>
            Faults.lift (.ok (decrypted :: rest))
  else Faults.lift (.ok [])
termination_by recordData.length - offset
decreasing_by
  have hlt := frame.2.2
  omega

/-- The first chunk is metadata, the others are file data. -/
def assembleChecked (allChunks : List Bytes) : Checked CryptoError (String × Bytes) :=
  match allChunks with
  | [] => Faults.lift (.error .corruptedChunk)
  | metadata :: fileChunks => do
      let (filename, dataLen) ← parseMetadataChecked t metadata
      Faults.lift (.ok (filename, fileChunks.flatten.take dataLen))

/-- `decrypt_v2` -/
def decryptV2Checked (record : Bytes) : Checked CryptoError (String × Bytes) :=
  if record.length < HEADER_SIZE + 32 then Faults.lift (.error .invalidHeader)
  else do
    let baseNonce ← rangeVec .invalidHeader record 5 24
    let hmacStart ← sub record.length 32
    let recordData ← slice record hmacStart
    let receivedHmac ← rangeVec .invalidHeader record hmacStart 32
    if computeFinalHmac P key recordData ≠ receivedHmac then
      Faults.lift (.error .decryptionFailed)
    else do
      let allChunks ← readChunksChecked t P cipherId key baseNonce recordData HEADER_SIZE 0
      assembleChecked t allChunks

/-- The chunk loop of `decrypt_v1`. -/
def decryptV1LoopChecked (record : Bytes) (dataLen offset : Nat) (plaintext : Bytes) :
    Checked CryptoError Bytes :=
  if _h : offset < record.length ∧ plaintext.length < dataLen then
    addUsize t offset cipherId.nonceSize >>= fun nonceEnd =>
      if nonceEnd.1 > record.length then Faults.lift (.ok plaintext)
      else range record offset record.length >>= fun remaining =>
        match cipherDecrypt P cipherId key remaining with
        | .ok chunkData =>
          addUsize t cipherId.nonceSize chunkData.length >>= fun box =>
            addUsize t box.1 16 >>= fun step =>
              addUsize t offset step.1 >>= fun next =>
                decryptV1LoopChecked record dataLen next.1 (plaintext ++ chunkData)
        | .error _ => Faults.lift (.ok plaintext)
  else Faults.lift (.ok plaintext)
termination_by record.length - offset
decreasing_by
  omega

/-- `decrypt_v1` -/
def decryptV1Checked (record : Bytes) : Checked CryptoError (String × Bytes) :=
  if record.length < 4 + 24 then Faults.lift (.error .invalidHeader)
  else do
    let _baseNonce ← range record 4 28
    let encryptedChunk ← range record 28 record.length
    let metadata ← Faults.lift (cipherDecrypt P cipherId key encryptedChunk)
    let (filename, dataLen) ← parseMetadataChecked t metadata
    let start ← addUsize t 28 (cipherId.nonceSize + 256)
    let plaintext ← decryptV1LoopChecked t P cipherId key record dataLen start.1 []
    Faults.lift (.ok (filename, plaintext.take dataLen))

/-- `decrypt_record` -/
def decryptRecordChecked (record : Bytes) : Checked CryptoError (String × Bytes) := do
  Faults.lift (validateChunkSize CHUNK_SIZE)
  if record.length < 4 then Faults.lift (.error .invalidHeader)
  else do
    let magic ← slice record 4
    if magic ≠ RECORD_MAGIC then Faults.lift (.error .invalidMagic)
    else if record.length < 5 then Faults.lift (.error .invalidVersion)
    else do
      let formatVersion ← index record 4
      if formatVersion = 0x02 then decryptV2Checked t P cipherId key record
      else if formatVersion = 0x01 then decryptV1Checked t P cipherId key record
      else Faults.lift (.error .invalidVersion)

variable {t P cipherId key}

/-! ## The metadata -/

/-- The metadata of a file: the type, the name behind its length, and the
length of the data. -/
def Metadata (metadata : Bytes) (filename : String) (declared : UInt64) : Prop :=
  (utf8 filename).length < 2 ^ 32 ∧ ∃ trailing,
    metadata = RECORD_TYPE_PUT :: (u32le (UInt32.ofNat (utf8 filename).length)
      ++ (utf8 filename ++ (u64le declared ++ trailing)))

/-- The end of the name is no `usize`. -/
def NameWraps (t : Target) (metadata : Bytes) : Prop :=
  ∃ n rest, metadata = RECORD_TYPE_PUT :: (u32le n ++ rest) ∧ t.limit ≤ 5 + n.toNat

theorem utf8_of_fromUtf8 {bytes : Bytes} {s : String} (h : fromUtf8 bytes = .ok s) :
    utf8 s = bytes := by
  rw [fromUtf8, String.fromUTF8?] at h
  split at h
  · rename_i s' hs
    split at hs
    · cases hs
      cases h
      rfl
    · cases hs
  · cases h

theorem parseMetadataChecked_eq {metadata rest : Bytes} {n : UInt32}
    (h : metadata = RECORD_TYPE_PUT :: (u32le n ++ rest))
    (hshort : 2 * metadata.length < t.limit) :
    parseMetadataChecked t metadata
      = if t.limit ≤ 5 + n.toNat then fault .slice
        else if rest.length < n.toNat then Faults.lift (.error .corruptedChunk)
        else Faults.lift (do
          let filename ← fromUtf8 (rest.take n.toNat)
          if (rest.drop n.toNat).length < 8 then .error .corruptedChunk
          else .ok (filename, (u64OfLe ((rest.drop n.toNat).take 8)).toNat % t.limit)) := by
  have hlimit := t.limit_cases
  have hlength : metadata.length = 5 + rest.length := by
    rw [h, List.length_cons, List.length_append, u32le_length]
    omega
  have hdrop : metadata.drop 5 = rest := by
    rw [h, List.drop_succ_cons, List.drop_left' (u32le_length n)]
  rw [parseMetadataChecked, if_neg (by rw [h]; exact List.cons_ne_nil _ _),
    index_of_getElem? (by rw [h]; rfl), lift_ok_bind, if_neg (fun hne => hne rfl),
    if_neg (by omega), u32At_eq (by rw [h]; rfl), lift_ok_bind]
  by_cases hwraps : t.limit ≤ 5 + n.toNat
  · rw [addUsize_of_le hwraps, fault_bind, if_pos hwraps]
  rw [addUsize_of_lt (by omega), lift_ok_bind, if_neg hwraps]
  dsimp only
  by_cases hname : rest.length < n.toNat
  · rw [if_pos (by omega), if_pos hname]
  rw [if_neg (by omega), range_of_le (Nat.le_add_right 5 _) (by omega), lift_ok_bind,
    Nat.add_sub_cancel_left, hdrop, if_neg hname]
  cases fromUtf8 (rest.take n.toNat) with
  | error e => rfl
  | ok filename =>
    have hrest : metadata.drop (5 + n.toNat) = rest.drop n.toNat := by
      rw [← hdrop, List.drop_drop]
    rw [lift_ok_bind, addUsize_of_lt (by omega), lift_ok_bind]
    dsimp only
    by_cases hdata : (rest.drop n.toNat).length < 8
    · have hdata' := hdata
      rw [List.length_drop] at hdata'
      rw [if_pos (by omega)]
      simp only [bind, Except.bind, if_pos hdata]
    · have hdata' := hdata
      rw [List.length_drop] at hdata'
      rw [if_neg (by omega), u64At, indices_of_le (by omega), lift_ok_bind, lift_ok_bind, hrest]
      simp only [bind, Except.bind, if_neg hdata]

theorem parseMetadataChecked_ok {metadata : Bytes} {filename : String} {declared : UInt64}
    (h : Metadata metadata filename declared) (hshort : 2 * metadata.length < t.limit) :
    parseMetadataChecked t metadata = Faults.lift (.ok (filename, declared.toNat % t.limit)) := by
  obtain ⟨hname, trailing, hmetadata⟩ := h
  have hn : (UInt32.ofNat (utf8 filename).length).toNat = (utf8 filename).length :=
    UInt32.toNat_ofNat_of_lt' hname
  have hlength := congrArg List.length hmetadata
  simp only [List.length_cons, List.length_append, u32le_length, u64le_length] at hlength
  have hlimit := t.limit_cases
  rw [parseMetadataChecked_eq hmetadata hshort, hn, if_neg (by omega),
    if_neg (by rw [List.length_append]; omega), List.take_left, List.drop_left, fromUtf8_utf8]
  simp only [bind, Except.bind]
  rw [if_neg (by rw [List.length_append, u64le_length]; omega),
    List.take_left' (u64le_length declared), u64OfLe_u64le]

theorem parseMetadataChecked_wraps {metadata : Bytes} (h : NameWraps t metadata)
    (hshort : 2 * metadata.length < t.limit) :
    parseMetadataChecked t metadata = fault .slice := by
  obtain ⟨n, rest, hmetadata, hwraps⟩ := h
  rw [parseMetadataChecked_eq hmetadata hshort, if_pos hwraps]

theorem parseMetadataChecked_cases (metadata : Bytes) (hshort : 2 * metadata.length < t.limit) :
    (∃ filename declared, Metadata metadata filename declared)
      ∨ NameWraps t metadata ∨ ∃ e, parseMetadataChecked t metadata = Faults.lift (.error e) := by
  cases metadata with
  | nil => exact .inr (.inr ⟨_, rfl⟩)
  | cons recordType fields =>
    by_cases htype : recordType ≠ RECORD_TYPE_PUT
    · refine .inr (.inr ⟨.invalidHeader, ?_⟩)
      rw [parseMetadataChecked, if_neg (List.cons_ne_nil _ _), index_of_getElem? rfl,
        lift_ok_bind, if_pos htype]
    obtain rfl := not_not.mp htype
    by_cases hfields : fields.length < 4
    · refine .inr (.inr ⟨.corruptedChunk, ?_⟩)
      rw [parseMetadataChecked, if_neg (List.cons_ne_nil _ _), index_of_getElem? rfl,
        lift_ok_bind, if_neg htype, if_pos (by rw [List.length_cons]; omega)]
    obtain ⟨n, rest, rfl⟩ := exists_u32le (Nat.not_lt.mp hfields)
    by_cases hwraps : t.limit ≤ 5 + n.toNat
    · exact .inr (.inl ⟨n, rest, rfl, hwraps⟩)
    rw [parseMetadataChecked_eq rfl hshort, if_neg hwraps]
    by_cases hname : rest.length < n.toNat
    · exact .inr (.inr ⟨_, if_pos hname⟩)
    rw [if_neg hname]
    cases hfilename : fromUtf8 (rest.take n.toNat) with
    | error e => exact .inr (.inr ⟨e, rfl⟩)
    | ok filename =>
      by_cases hdata : (rest.drop n.toNat).length < 8
      · exact .inr (.inr ⟨.corruptedChunk, by simp only [bind, Except.bind, if_pos hdata]⟩)
      obtain ⟨declared, trailing, hdeclared⟩ := exists_u64le (Nat.not_lt.mp hdata)
      have hbytes := utf8_of_fromUtf8 hfilename
      have hlength : (utf8 filename).length = n.toNat := by
        rw [hbytes, List.length_take_of_le (Nat.not_lt.mp hname)]
      refine .inl ⟨filename, declared, by rw [hlength]; exact n.toNat_lt, trailing, ?_⟩
      rw [hlength, UInt32.ofNat_toNat, hbytes, ← hdeclared, List.take_append_drop]

/-! ## The chunks -/

/-- Chunks behind their lengths, each decrypted under the key of its index,
and what is left behind them. -/
def Frames (P : Primitives) (cipherId : CipherId) (key : ByteVec 32) (baseNonce : ByteVec 24) :
    UInt64 → Bytes → List Bytes → Bytes → Prop
  | _, frames, [], rest => rest = frames
  | chunkIndex, frames, chunk :: chunks, rest => ∃ encrypted frames' : Bytes,
      frames = u32le (UInt32.ofNat encrypted.length) ++ (encrypted ++ frames')
        ∧ encrypted.length < 2 ^ 32
        ∧ decryptWithKey P cipherId (deriveChunkKey P key baseNonce chunkIndex) encrypted
          = .ok chunk
        ∧ Frames P cipherId key baseNonce (chunkIndex + 1) frames' chunks rest

variable {baseNonce : ByteVec 24} {recordData : Bytes}

theorem readFrame_eq {offset : Nat} {rest : Bytes} {n : UInt32}
    (h : recordData.drop offset = u32le n ++ rest) (hshort : 2 * recordData.length < t.limit) :
    t.limit ≤ offset + 4 + n.toNat ∧ readFrame t recordData offset = fault .slice
      ∨ (offset + 4 + n.toNat < t.limit ∧ rest.length < n.toNat)
        ∧ readFrame t recordData offset = Faults.lift (.error .corruptedChunk)
      ∨ n.toNat ≤ rest.length ∧ ∃ hlt : offset < offset + 4 + n.toNat,
        readFrame t recordData offset
          = Faults.lift (.ok (rest.take n.toNat, ⟨offset + 4 + n.toNat, hlt⟩)) := by
  have hlength := congrArg List.length h
  rw [List.length_drop, List.length_append, u32le_length] at hlength
  have hlimit := t.limit_cases
  rw [readFrame, addUsize_of_lt (by omega), lift_ok_bind]
  dsimp only
  rw [if_neg (by omega), u32At_eq h, lift_ok_bind]
  by_cases hwraps : t.limit ≤ offset + 4 + n.toNat
  · rw [addUsize_of_le hwraps]
    exact .inl ⟨hwraps, rfl⟩
  rw [addUsize_of_lt (by omega), lift_ok_bind]
  dsimp only
  by_cases hrest : rest.length < n.toNat
  · rw [if_pos (by omega)]
    exact .inr (.inl ⟨⟨Nat.not_le.mp hwraps, hrest⟩, rfl⟩)
  have hdrop : recordData.drop (offset + 4) = rest := by
    rw [← List.drop_drop, h, List.drop_left' (u32le_length n)]
  rw [if_neg (by omega), range_of_le (Nat.le_add_right _ _) (by omega), lift_ok_bind,
    Nat.add_sub_cancel_left, hdrop]
  exact .inr (.inr ⟨Nat.not_lt.mp hrest, by omega, rfl⟩)

theorem readChunksChecked_frames (hshort : 2 * recordData.length < t.limit) {rest : Bytes}
    (chunks : List Bytes) : ∀ (offset : Nat) (chunkIndex : UInt64),
      offset ≤ recordData.length →
      Frames P cipherId key baseNonce chunkIndex (recordData.drop offset) chunks rest →
      ∃ offset' chunkIndex', offset' + rest.length = recordData.length
        ∧ recordData.drop offset' = rest
        ∧ readChunksChecked t P cipherId key baseNonce recordData offset chunkIndex
          = readChunksChecked t P cipherId key baseNonce recordData offset' chunkIndex'
            >>= fun more => Faults.lift (.ok (chunks ++ more)) := by
  induction chunks with
  | nil =>
    intro offset chunkIndex hoffset hframes
    have hrest : rest = recordData.drop offset := hframes
    refine ⟨offset, chunkIndex, ?_, hrest.symm, ?_⟩
    · rw [hrest, List.length_drop]
      omega
    · simp only [List.nil_append]
      exact (bind_pure _).symm
  | cons chunk chunks ih =>
    rintro offset chunkIndex hoffset ⟨encrypted, frames, hframes, hencrypted, hdecrypt, hmore⟩
    have hn : (UInt32.ofNat encrypted.length).toNat = encrypted.length :=
      UInt32.toNat_ofNat_of_lt' hencrypted
    have hlength := congrArg List.length hframes
    simp only [List.length_drop, List.length_append, u32le_length] at hlength
    have hnext : recordData.drop (offset + 4 + encrypted.length) = frames := by
      rw [← List.drop_drop, ← List.drop_drop, hframes, List.drop_left' (u32le_length _),
        List.drop_left]
    obtain ⟨offset', chunkIndex', hend, hdrop, hloop⟩ :=
      ih (offset + 4 + encrypted.length) (chunkIndex + 1) (by omega) (by rw [hnext]; exact hmore)
    refine ⟨offset', chunkIndex', hend, hdrop, ?_⟩
    rw [readChunksChecked, dif_pos (by omega)]
    rcases readFrame_eq hframes hshort with ⟨hwraps, -⟩ | ⟨⟨-, hrest⟩, -⟩ | ⟨-, hlt, hframe⟩
    · omega
    · rw [List.length_append] at hrest
      omega
    · rw [hframe, lift_ok_bind]
      dsimp only
      rw [hn, List.take_left, hdecrypt, lift_ok_bind, hloop]
      simp only [bind_assoc, lift_ok_bind, List.cons_append]

/-- A length field behind chunks that decrypt, whose end is no `usize`. -/
def FrameWraps (t : Target) (P : Primitives) (cipherId : CipherId) (key : ByteVec 32)
    (baseNonce : ByteVec 24) (frames : Bytes) : Prop :=
  ∃ (chunks : List Bytes) (n : UInt32) (rest : Bytes),
    Frames P cipherId key baseNonce 0 frames chunks (u32le n ++ rest)
      ∧ t.limit ≤ HEADER_SIZE + frames.length - rest.length + n.toNat

theorem readChunksChecked_end {offset : Nat} {chunkIndex : UInt64}
    (h : recordData.length ≤ offset) :
    readChunksChecked t P cipherId key baseNonce recordData offset chunkIndex
      = Faults.lift (.ok []) := by
  rw [readChunksChecked, dif_neg (Nat.not_lt.mpr h)]

theorem readChunksChecked_ok (hshort : 2 * recordData.length < t.limit)
    (hheader : HEADER_SIZE ≤ recordData.length) {chunks : List Bytes}
    (h : Frames P cipherId key baseNonce 0 (recordData.drop HEADER_SIZE) chunks []) :
    readChunksChecked t P cipherId key baseNonce recordData HEADER_SIZE 0
      = Faults.lift (.ok chunks) := by
  obtain ⟨offset, chunkIndex, hend, -, hloop⟩ :=
    readChunksChecked_frames hshort chunks HEADER_SIZE 0 hheader h
  rw [hloop, readChunksChecked_end (by rw [← hend]; exact Nat.le_refl _), lift_ok_bind,
    List.append_nil]

theorem readChunksChecked_wraps (hshort : 2 * recordData.length < t.limit)
    (hheader : HEADER_SIZE ≤ recordData.length)
    (h : FrameWraps t P cipherId key baseNonce (recordData.drop HEADER_SIZE)) :
    readChunksChecked t P cipherId key baseNonce recordData HEADER_SIZE 0 = fault .slice := by
  obtain ⟨chunks, n, rest, hframes, hwraps⟩ := h
  obtain ⟨offset, chunkIndex, hend, hdrop, hloop⟩ :=
    readChunksChecked_frames hshort chunks HEADER_SIZE 0 hheader hframes
  rw [List.length_append, u32le_length] at hend
  rw [List.length_drop] at hwraps
  rw [hloop, readChunksChecked, dif_pos (by omega)]
  have hlimit := t.limit_cases
  have hsize : HEADER_SIZE = 29 := rfl
  rcases readFrame_eq hdrop hshort with ⟨-, hframe⟩ | ⟨⟨hfits, -⟩, -⟩ | ⟨hrest, -⟩
  · rw [hframe, fault_bind, fault_bind]
  · omega
  · omega

variable (t P cipherId key baseNonce recordData) in
theorem readChunksChecked_cases (hshort : 2 * recordData.length < t.limit) (offset : Nat)
    (chunkIndex : UInt64) :
    (∃ chunks, Frames P cipherId key baseNonce chunkIndex (recordData.drop offset) chunks [])
      ∨ (∃ (chunks : List Bytes) (n : UInt32) (rest : Bytes),
        Frames P cipherId key baseNonce chunkIndex (recordData.drop offset) chunks
            (u32le n ++ rest)
          ∧ t.limit ≤ recordData.length - rest.length + n.toNat)
      ∨ ∃ e, readChunksChecked t P cipherId key baseNonce recordData offset chunkIndex
          = Faults.lift (.error e) := by
  by_cases hmore : offset < recordData.length
  · by_cases hlen : (recordData.drop offset).length < 4
    · refine .inr (.inr ⟨.corruptedChunk, ?_⟩)
      rw [List.length_drop] at hlen
      have hlimit := t.limit_cases
      rw [readChunksChecked, dif_pos hmore, readFrame, addUsize_of_lt (by omega), lift_ok_bind]
      dsimp only
      rw [if_pos (by omega)]
      rfl
    obtain ⟨n, rest, hframes⟩ := exists_u32le (Nat.not_lt.mp hlen)
    have hlength := congrArg List.length hframes
    rw [List.length_drop, List.length_append, u32le_length] at hlength
    rcases readFrame_eq hframes hshort with ⟨hwraps, -⟩ | ⟨-, hframe⟩ | ⟨hrest, hlt, hframe⟩
    · exact .inr (.inl ⟨[], n, rest, hframes.symm, by omega⟩)
    · refine .inr (.inr ⟨.corruptedChunk, ?_⟩)
      rw [readChunksChecked, dif_pos hmore, hframe]
      rfl
    · rw [readChunksChecked, dif_pos hmore, hframe, lift_ok_bind]
      dsimp only
      cases hdecrypt : decryptWithKey P cipherId (deriveChunkKey P key baseNonce chunkIndex)
          (rest.take n.toNat) with
      | error e => exact .inr (.inr ⟨e, rfl⟩)
      | ok decrypted =>
        have htake : (rest.take n.toNat).length = n.toNat := List.length_take_of_le hrest
        have hnext : recordData.drop (offset + 4 + n.toNat) = rest.drop n.toNat := by
          rw [← List.drop_drop, ← List.drop_drop, hframes, List.drop_left' (u32le_length n)]
        -- the frame in front of those behind it
        have hcons : ∀ {chunks : List Bytes} {left : Bytes},
            Frames P cipherId key baseNonce (chunkIndex + 1)
              (recordData.drop (offset + 4 + n.toNat)) chunks left →
            Frames P cipherId key baseNonce chunkIndex (recordData.drop offset)
              (decrypted :: chunks) left := by
          intro chunks left h
          refine ⟨rest.take n.toNat, rest.drop n.toNat, ?_, ?_, hdecrypt, hnext ▸ h⟩
          · rw [hframes, htake, UInt32.ofNat_toNat, List.take_append_drop]
          · rw [htake]
            exact n.toNat_lt
        rw [lift_ok_bind]
        rcases readChunksChecked_cases hshort (offset + 4 + n.toNat) (chunkIndex + 1)
          with ⟨chunks, h⟩ | ⟨chunks, m, left, h, hwraps⟩ | ⟨e, he⟩
        · exact .inl ⟨_, hcons h⟩
        · exact .inr (.inl ⟨_, m, left, hcons h, hwraps⟩)
        · exact .inr (.inr ⟨e, by rw [he]; rfl⟩)
  · refine .inl ⟨[], ?_⟩
    exact (List.drop_of_length_le (Nat.not_lt.mp hmore)).symm
termination_by recordData.length - offset

/-! ## What the AEADs give -/

theorem decryptWithKey_length (hx : P.xchacha20Poly1305.Correct) (ha : P.aes256GcmSiv.Correct)
    {data plaintext : Bytes} (h : decryptWithKey P cipherId key data = .ok plaintext) :
    plaintext.length ≤ data.length := by
  rw [decryptWithKey] at h
  split at h
  · cases h
  · dsimp only at h
    split at h
    · cases h
    · rename_i plaintext' hdecrypt
      cases h
      have hlength : (splitNonce 24 data (by assumption)).2.length = plaintext.length + 16 := by
        cases cipherId with
        | xchacha20Poly1305 => exact hx.decrypt_length hdecrypt
        | aes256GcmSiv => exact ha.decrypt_length hdecrypt
      rw [splitNonce, List.length_drop] at hlength
      omega

theorem cipherDecrypt_length (hx : P.xchacha20Poly1305.Correct) (ha : P.aes256GcmSiv.Correct)
    {data plaintext : Bytes} (h : cipherDecrypt P cipherId key data = .ok plaintext) :
    cipherId.nonceSize + plaintext.length + 16 = data.length := by
  cases cipherId with
  | xchacha20Poly1305 =>
    simp only [cipherDecrypt] at h
    split at h
    · cases h
    · cases h
    · rename_i hresult
      split at hresult
      · cases hresult
      · rename_i hlong
        have hlength := hx.decrypt_length (Except.ok.inj hresult)
        rw [splitNonce, List.length_drop] at hlength
        cases h
        simp only [CipherId.nonceSize]
        omega
  | aes256GcmSiv =>
    simp only [cipherDecrypt] at h
    split at h
    · cases h
    · cases h
    · rename_i hresult
      split at hresult
      · cases hresult
      · rename_i hlong
        have hlength := ha.decrypt_length (Except.ok.inj hresult)
        rw [splitNonce, List.length_drop] at hlength
        cases h
        simp only [CipherId.nonceSize]
        omega

theorem nonceSize_le (cipherId : CipherId) : cipherId.nonceSize ≤ 24 := by
  cases cipherId with
  | xchacha20Poly1305 => exact Nat.le_refl 24
  | aes256GcmSiv => exact (by decide : 12 ≤ 24)

variable (t P cipherId key) in
/-- The loop of the first version ends, without a fault or an error. -/
theorem decryptV1LoopChecked_ok (hx : P.xchacha20Poly1305.Correct)
    (ha : P.aes256GcmSiv.Correct) {record : Bytes} (hshort : 2 * record.length < t.limit)
    (dataLen offset : Nat) (plaintext : Bytes) :
    ∃ r, decryptV1LoopChecked t P cipherId key record dataLen offset plaintext
      = Faults.lift (.ok r) := by
  have hlimit := t.limit_cases
  have hnonce := nonceSize_le cipherId
  rw [decryptV1LoopChecked]
  split
  · rename_i hmore
    rw [addUsize_of_lt (by omega), lift_ok_bind]
    dsimp only
    split
    · exact ⟨_, rfl⟩
    · rw [range_rest (by omega), lift_ok_bind]
      split
      · rename_i chunkData hdecrypt
        have hlength := cipherDecrypt_length hx ha hdecrypt
        rw [List.length_drop] at hlength
        rw [addUsize_of_lt (by omega), lift_ok_bind]
        dsimp only
        rw [addUsize_of_lt (by omega), lift_ok_bind]
        dsimp only
        rw [addUsize_of_lt (by omega), lift_ok_bind]
        exact decryptV1LoopChecked_ok hx ha hshort dataLen _ _
      · exact ⟨_, rfl⟩
  · exact ⟨_, rfl⟩
termination_by record.length - offset
decreasing_by
  omega

end UsbVault.StreamingDecryptor
