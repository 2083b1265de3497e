import UsbVault.Crypto.StreamingSafety

/-!
# Malformed records

The records that `decrypt_record` reads, in both versions, and what becomes
of the others. A record is decrypted exactly when it has the layout of one
(`Record`), unless a length field overflows (`Wraps`); one whose chunks hold
less data than its metadata declares is decrypted all the same (`CutShort`).
These are the exceptions to what the decryption promises
(`decryptRecordChecked_safe_iff`).
-/

namespace UsbVault.StreamingDecryptor

open Wire Faults

variable {t : Target} {P : Primitives} {cipherId : CipherId} {key : ByteVec 32}
  {baseNonce : ByteVec 24}

/-! ## Records -/

/-- A record of the second version. -/
def v2Record (P : Primitives) (key : ByteVec 32) (baseNonce : ByteVec 24) (frames : Bytes) :
    Bytes :=
  let recordData := RECORD_MAGIC ++ (0x02 :: (baseNonce.toList ++ frames))
  recordData ++ (computeFinalHmac P key recordData).toList

/-- A record of the first version: what the reader takes for its version is
the first byte of the nonce. -/
def v1Record (nonce : ByteVec 23) (body : Bytes) : Bytes :=
  RECORD_MAGIC ++ (0x01 :: (nonce.toList ++ body))

/-- The data of a record of the first version: one more box behind the place
where the metadata is thought to end, if there is one. -/
def v1Data (P : Primitives) (cipherId : CipherId) (key : ByteVec 32) (body : Bytes) : Bytes :=
  match cipherDecrypt P cipherId key (body.drop (cipherId.nonceSize + 256)) with
  | .ok data => data
  | .error _ => []

/-- What a record holds: the name of the file, the length its metadata
declares, and the data of its chunks. -/
inductive Record (P : Primitives) (cipherId : CipherId) (key : ByteVec 32) :
    Bytes → String → UInt64 → Bytes → Prop where
  | v2 {baseNonce frames metadata chunks filename declared} :
      Frames P cipherId key baseNonce 0 frames (metadata :: chunks) [] →
      Metadata metadata filename declared →
      Record P cipherId key (v2Record P key baseNonce frames) filename declared chunks.flatten
  | v1 {nonce body metadata filename declared} :
      cipherDecrypt P cipherId key body = .ok metadata →
      Metadata metadata filename declared →
      Record P cipherId key (v1Record nonce body) filename declared (v1Data P cipherId key body)

/-- A length field that is reached, with an end that is no `usize`. -/
inductive Wraps (t : Target) (P : Primitives) (cipherId : CipherId) (key : ByteVec 32) :
    Bytes → Prop where
  | frame {baseNonce frames} :
      FrameWraps t P cipherId key baseNonce frames →
      Wraps t P cipherId key (v2Record P key baseNonce frames)
  | name {baseNonce frames metadata chunks} :
      Frames P cipherId key baseNonce 0 frames (metadata :: chunks) [] →
      NameWraps t metadata →
      Wraps t P cipherId key (v2Record P key baseNonce frames)
  | nameV1 {nonce body metadata} :
      cipherDecrypt P cipherId key body = .ok metadata →
      NameWraps t metadata →
      Wraps t P cipherId key (v1Record nonce body)

theorem magic_length : RECORD_MAGIC.length = 4 := by decide +kernel

theorem decryptRecordChecked_version (version : UInt8) (tail : Bytes) :
    decryptRecordChecked t P cipherId key (RECORD_MAGIC ++ version :: tail)
      = if version = 0x02 then decryptV2Checked t P cipherId key (RECORD_MAGIC ++ version :: tail)
        else if version = 0x01 then
          decryptV1Checked t P cipherId key (RECORD_MAGIC ++ version :: tail)
        else Faults.lift (.error .invalidVersion) := by
  have hlength : (RECORD_MAGIC ++ version :: tail).length = 5 + tail.length := by
    rw [List.length_append, magic_length, List.length_cons]
    omega
  have hversion : (RECORD_MAGIC ++ version :: tail)[4]? = some version := by
    rw [List.getElem?_append_right (Nat.le_of_eq magic_length), magic_length]
    rfl
  have hvalid : validateChunkSize CHUNK_SIZE = .ok () := by decide
  rw [decryptRecordChecked, hvalid, lift_ok_bind, if_neg (by omega), slice_of_le (by omega),
    lift_ok_bind, List.take_left' magic_length, if_neg (fun h => h rfl), if_neg (by omega),
    index_of_getElem? hversion, lift_ok_bind]

/-! ### The second version -/

theorem v2Record_length (baseNonce : ByteVec 24) (frames : Bytes) :
    (v2Record P key baseNonce frames).length = 61 + frames.length := by
  simp only [v2Record, List.length_append, List.length_cons, magic_length,
    List.Vector.toList_length]
  omega

variable (t P cipherId key) in
theorem decryptV2Checked_eq (baseNonce : ByteVec 24) (frames : Bytes) :
    ∃ recordData : Bytes, recordData.length = HEADER_SIZE + frames.length
      ∧ recordData.drop HEADER_SIZE = frames
      ∧ decryptV2Checked t P cipherId key (v2Record P key baseNonce frames)
        = readChunksChecked t P cipherId key baseNonce recordData HEADER_SIZE 0
          >>= assembleChecked t := by
  have hlength := @v2Record_length P key baseNonce frames
  have hsize : HEADER_SIZE = 29 := rfl
  generalize hdata : RECORD_MAGIC ++ (0x02 :: (baseNonce.toList ++ frames)) = recordData
  have hrecord : v2Record P key baseNonce frames
      = recordData ++ (computeFinalHmac P key recordData).toList := by
    rw [v2Record, hdata]
  have hdataLength : recordData.length = 29 + frames.length := by
    rw [← hdata]
    simp only [List.length_append, List.length_cons, magic_length, List.Vector.toList_length]
    omega
  have hnonceDrop : recordData.drop 5 = baseNonce.toList ++ frames := by
    rw [← hdata, show (5 : Nat) = 4 + 1 from rfl, ← List.drop_drop, List.drop_left' magic_length]
    rfl
  have hframes : recordData.drop 29 = frames := by
    rw [show (29 : Nat) = 5 + 24 from rfl, ← List.drop_drop, hnonceDrop,
      List.drop_left' baseNonce.toList_length]
  refine ⟨recordData, hdataLength, hframes, ?_⟩
  obtain ⟨nonce, hnonce, hnonceSplit⟩ := rangeVec_split CryptoError.invalidHeader
    (show 5 + 24 ≤ (v2Record P key baseNonce frames).length by omega)
  obtain ⟨hmac, hhmac, hhmacSplit⟩ := rangeVec_split CryptoError.invalidHeader
    (show recordData.length + 32 ≤ (v2Record P key baseNonce frames).length by omega)
  have hnonceEq : nonce = baseNonce := by
    rw [hrecord, List.drop_append_of_le_length (by omega), hnonceDrop, List.append_assoc]
      at hnonceSplit
    exact (vec_append_inj hnonceSplit).1.symm
  have hhmacEq : hmac = computeFinalHmac P key recordData := by
    rw [hrecord, List.drop_left, ← List.append_nil (List.Vector.toList _)] at hhmacSplit
    exact (vec_append_inj hhmacSplit).1.symm
  have hstart : (v2Record P key baseNonce frames).length - 32 = recordData.length := by omega
  rw [decryptV2Checked, if_neg (by omega), hnonce, lift_ok_bind, sub_of_le (by omega),
    lift_ok_bind, hstart, slice_of_le (by omega), lift_ok_bind, hhmac, lift_ok_bind, hnonceEq,
    hrecord, List.take_left, hhmacEq, if_neg (fun h => h rfl)]

theorem decryptV2Checked_cases (tail : Bytes) :
    (∃ baseNonce frames, RECORD_MAGIC ++ 0x02 :: tail = v2Record P key baseNonce frames)
      ∨ ∃ e, decryptV2Checked t P cipherId key (RECORD_MAGIC ++ 0x02 :: tail)
        = Faults.lift (.error e) := by
  have hsize : HEADER_SIZE = 29 := rfl
  generalize hrecord : RECORD_MAGIC ++ 0x02 :: tail = record
  have hlength : record.length = 5 + tail.length := by
    rw [← hrecord, List.length_append, magic_length, List.length_cons]
    omega
  by_cases hlong : record.length < HEADER_SIZE + 32
  · exact .inr ⟨_, by rw [decryptV2Checked, if_pos hlong]⟩
  obtain ⟨nonce, hnonce, hnonceSplit⟩ := rangeVec_split CryptoError.invalidHeader
    (show 5 + 24 ≤ record.length by omega)
  obtain ⟨hmac, hhmac, hhmacSplit⟩ := rangeVec_split CryptoError.invalidHeader
    (show record.length - 32 + 32 ≤ record.length by omega)
  by_cases hmismatch : computeFinalHmac P key (record.take (record.length - 32)) ≠ hmac
  · refine .inr ⟨.decryptionFailed, ?_⟩
    rw [decryptV2Checked, if_neg hlong, hnonce, lift_ok_bind, sub_of_le (by omega), lift_ok_bind,
      slice_of_le (by omega), lift_ok_bind, hhmac, lift_ok_bind, if_pos hmismatch]
  · refine .inl ⟨nonce, (record.take (record.length - 32)).drop 29, ?_⟩
    have htail : record.drop 5 = tail := by
      rw [← hrecord, show (5 : Nat) = 4 + 1 from rfl, ← List.drop_drop,
        List.drop_left' magic_length]
      rfl
    have htake : record.take (record.length - 32)
        = RECORD_MAGIC ++ 0x02 :: tail.take (record.length - 37) := by
      have hsum : record.length - 32 = RECORD_MAGIC.length + (record.length - 37 + 1) := by
        rw [magic_length]
        omega
      rw [hsum]
      generalize record.length - 37 = n
      rw [← hrecord, List.take_length_add_append, List.take_succ_cons]
    -- the nonce and the frames are what is left of the tail
    have hparts : nonce.toList ++ (record.take (record.length - 32)).drop 29
        = tail.take (record.length - 37) := by
      have hnonceTake : (tail.take (record.length - 37)).take 24 = nonce.toList := by
        rw [List.take_take, Nat.min_eq_left (by omega), ← htail, hnonceSplit,
          List.take_left' nonce.toList_length]
      have hdrop : (record.take (record.length - 32)).drop 29
          = (tail.take (record.length - 37)).drop 24 := by
        rw [htake, show (29 : Nat) = 4 + 25 from rfl, ← List.drop_drop,
          List.drop_left' magic_length]
        rfl
      rw [hdrop, ← hnonceTake, List.take_append_drop]
    have hdata : RECORD_MAGIC ++ 0x02 :: (nonce.toList
        ++ (record.take (record.length - 32)).drop 29) = record.take (record.length - 32) := by
      rw [hparts, htake]
    rw [v2Record, hdata, not_not.mp hmismatch]
    have hend : record.length - 32 + 32 = record.length := by omega
    rw [hend, List.drop_length, List.append_nil] at hhmacSplit
    rw [← hhmacSplit, List.take_append_drop]

theorem Frames.metadata_length (hx : P.xchacha20Poly1305.Correct) (ha : P.aes256GcmSiv.Correct)
    {frames metadata rest : Bytes} {chunks : List Bytes} {chunkIndex : UInt64}
    (h : Frames P cipherId key baseNonce chunkIndex frames (metadata :: chunks) rest) :
    metadata.length ≤ frames.length := by
  obtain ⟨encrypted, frames', hframes, -, hdecrypt, -⟩ := h
  have hlength := decryptWithKey_length hx ha hdecrypt
  rw [hframes, List.length_append, List.length_append]
  omega

section

variable (hx : P.xchacha20Poly1305.Correct) (ha : P.aes256GcmSiv.Correct)
  {frames metadata : Bytes} {chunks : List Bytes}
include hx ha

theorem decryptV2Checked_ok (hshort : 2 * (v2Record P key baseNonce frames).length < t.limit)
    (hframes : Frames P cipherId key baseNonce 0 frames (metadata :: chunks) [])
    {filename : String} {declared : UInt64} (hmetadata : Metadata metadata filename declared) :
    ∃ r, decryptV2Checked t P cipherId key (v2Record P key baseNonce frames)
      = Faults.lift (.ok r) := by
  rw [v2Record_length] at hshort
  obtain ⟨recordData, hlength, hdrop, heq⟩ :=
    decryptV2Checked_eq t P cipherId key baseNonce frames
  have hsize : HEADER_SIZE = 29 := rfl
  have hlong := hframes.metadata_length hx ha
  rw [heq, readChunksChecked_ok (by omega) (by omega) (by rw [hdrop]; exact hframes),
    lift_ok_bind, assembleChecked, parseMetadataChecked_ok hmetadata (by omega), lift_ok_bind]
  exact ⟨_, rfl⟩

theorem decryptV2Checked_name (hshort : 2 * (v2Record P key baseNonce frames).length < t.limit)
    (hframes : Frames P cipherId key baseNonce 0 frames (metadata :: chunks) [])
    (hwraps : NameWraps t metadata) :
    decryptV2Checked t P cipherId key (v2Record P key baseNonce frames) = fault .slice := by
  rw [v2Record_length] at hshort
  obtain ⟨recordData, hlength, hdrop, heq⟩ :=
    decryptV2Checked_eq t P cipherId key baseNonce frames
  have hsize : HEADER_SIZE = 29 := rfl
  have hlong := hframes.metadata_length hx ha
  rw [heq, readChunksChecked_ok (by omega) (by omega) (by rw [hdrop]; exact hframes),
    lift_ok_bind, assembleChecked, parseMetadataChecked_wraps hwraps (by omega), fault_bind]

end

theorem decryptV2Checked_frame {frames : Bytes}
    (hshort : 2 * (v2Record P key baseNonce frames).length < t.limit)
    (hwraps : FrameWraps t P cipherId key baseNonce frames) :
    decryptV2Checked t P cipherId key (v2Record P key baseNonce frames) = fault .slice := by
  rw [v2Record_length] at hshort
  obtain ⟨recordData, hlength, hdrop, heq⟩ :=
    decryptV2Checked_eq t P cipherId key baseNonce frames
  have hsize : HEADER_SIZE = 29 := rfl
  rw [heq, readChunksChecked_wraps (by omega) (by omega) (by rw [hdrop]; exact hwraps), fault_bind]

theorem decryptV2Checked_holds (hx : P.xchacha20Poly1305.Correct) (ha : P.aes256GcmSiv.Correct)
    {frames : Bytes} (hshort : 2 * (v2Record P key baseNonce frames).length < t.limit) :
    (∃ filename declared data,
        Record P cipherId key (v2Record P key baseNonce frames) filename declared data)
      ∨ Wraps t P cipherId key (v2Record P key baseNonce frames)
      ∨ ∃ e, decryptV2Checked t P cipherId key (v2Record P key baseNonce frames)
        = Faults.lift (.error e) := by
  have hrecord := hshort
  rw [v2Record_length] at hrecord
  obtain ⟨recordData, hlength, hdrop, heq⟩ := decryptV2Checked_eq t P cipherId key baseNonce frames
  have hsize : HEADER_SIZE = 29 := rfl
  have hdata : 2 * recordData.length < t.limit := by omega
  rcases readChunksChecked_cases t P cipherId key baseNonce recordData hdata HEADER_SIZE 0
    with ⟨chunks, hframes⟩ | ⟨chunks, n, rest, hframes, hwraps⟩ | ⟨e, he⟩
  · have hread := readChunksChecked_ok hdata (by omega) hframes
    rw [hdrop] at hframes
    cases chunks with
    | nil =>
      refine .inr (.inr ⟨.corruptedChunk, ?_⟩)
      rw [heq, hread]
      rfl
    | cons metadata chunks =>
      have hlong := hframes.metadata_length hx ha
      rcases parseMetadataChecked_cases (t := t) metadata (by omega)
        with ⟨filename, declared, hmetadata⟩ | hwraps | ⟨e, he⟩
      · exact .inl ⟨filename, declared, _, .v2 hframes hmetadata⟩
      · exact .inr (.inl (.name hframes hwraps))
      · refine .inr (.inr ⟨e, ?_⟩)
        rw [heq, hread, lift_ok_bind, assembleChecked, he]
        rfl
  · rw [hdrop] at hframes
    refine .inr (.inl (.frame ⟨chunks, n, rest, hframes, ?_⟩))
    omega
  · refine .inr (.inr ⟨e, ?_⟩)
    rw [heq, he]
    rfl

/-! ### The first version -/

theorem v1Record_length (nonce : ByteVec 23) (body : Bytes) :
    (v1Record nonce body).length = 28 + body.length := by
  simp only [v1Record, List.length_append, List.length_cons, magic_length,
    List.Vector.toList_length]
  omega

theorem v1Record_drop (nonce : ByteVec 23) (body : Bytes) :
    (v1Record nonce body).drop 28 = body := by
  rw [v1Record, show (28 : Nat) = 4 + 24 from rfl, ← List.drop_drop, List.drop_left' magic_length,
    List.drop_succ_cons, List.drop_left' nonce.toList_length]

theorem decryptV1Checked_eq (hx : P.xchacha20Poly1305.Correct) (ha : P.aes256GcmSiv.Correct)
    {nonce : ByteVec 23} {body metadata : Bytes}
    (hshort : 2 * (v1Record nonce body).length < t.limit)
    (hdecrypt : cipherDecrypt P cipherId key body = .ok metadata) :
    ∃ f : String × Nat → String × Bytes,
      decryptV1Checked t P cipherId key (v1Record nonce body)
        = parseMetadataChecked t metadata >>= fun parsed => Faults.lift (.ok (f parsed)) := by
  have hlength := v1Record_length nonce body
  have hlimit := t.limit_cases
  have hnonce := nonceSize_le cipherId
  have hloop := fun dataLen => decryptV1LoopChecked_ok t P cipherId key hx ha hshort dataLen
    (28 + (cipherId.nonceSize + 256)) []
  choose plaintext hplaintext using hloop
  refine ⟨fun parsed => (parsed.1, (plaintext parsed.2).take parsed.2), ?_⟩
  rw [decryptV1Checked, if_neg (by omega), range_of_le (by omega) (by omega), lift_ok_bind,
    range_rest (by omega), lift_ok_bind, v1Record_drop, hdecrypt, lift_ok_bind]
  refine bind_congr fun parsed => ?_
  obtain ⟨filename, dataLen⟩ := parsed
  rw [addUsize_of_lt (by omega)]
  dsimp only
  rw [lift_ok_bind, hplaintext, lift_ok_bind]

theorem decryptV1Checked_holds (hx : P.xchacha20Poly1305.Correct) (ha : P.aes256GcmSiv.Correct)
    {nonce : ByteVec 23} {body : Bytes} (hshort : 2 * (v1Record nonce body).length < t.limit) :
    (∃ filename declared data, Record P cipherId key (v1Record nonce body) filename declared data)
      ∨ Wraps t P cipherId key (v1Record nonce body)
      ∨ ∃ e, decryptV1Checked t P cipherId key (v1Record nonce body) = Faults.lift (.error e) := by
  have hlength := v1Record_length nonce body
  cases hdecrypt : cipherDecrypt P cipherId key body with
  | error e =>
    refine .inr (.inr ⟨e, ?_⟩)
    rw [decryptV1Checked, if_neg (by omega), range_of_le (by omega) (by omega), lift_ok_bind,
      range_rest (by omega), lift_ok_bind, v1Record_drop, hdecrypt]
    rfl
  | ok metadata =>
    have hmetadataLength := cipherDecrypt_length hx ha hdecrypt
    rcases parseMetadataChecked_cases (t := t) metadata (by omega)
      with ⟨filename, declared, hmetadata⟩ | hwraps | ⟨e, he⟩
    · exact .inl ⟨filename, declared, _, .v1 hdecrypt hmetadata⟩
    · exact .inr (.inl (.nameV1 hdecrypt hwraps))
    · obtain ⟨f, heq⟩ := decryptV1Checked_eq hx ha hshort hdecrypt
      exact .inr (.inr ⟨e, by rw [heq, he]; rfl⟩)

/-! ## The outcome -/

theorem decryptRecordChecked_v2 (baseNonce : ByteVec 24) (frames : Bytes) :
    decryptRecordChecked t P cipherId key (v2Record P key baseNonce frames)
      = decryptV2Checked t P cipherId key (v2Record P key baseNonce frames) := by
  obtain ⟨tail, htail⟩ : ∃ tail, v2Record P key baseNonce frames = RECORD_MAGIC ++ 0x02 :: tail :=
    ⟨_, by rw [v2Record, List.append_assoc, List.cons_append]⟩
  rw [htail, decryptRecordChecked_version, if_pos rfl]

theorem decryptRecordChecked_v1 (nonce : ByteVec 23) (body : Bytes) :
    decryptRecordChecked t P cipherId key (v1Record nonce body)
      = decryptV1Checked t P cipherId key (v1Record nonce body) := by
  rw [v1Record, decryptRecordChecked_version, if_neg (by decide), if_pos rfl]

variable (t P cipherId key) in
theorem decryptRecordChecked_cases (record : Bytes) :
    (∃ baseNonce frames, record = v2Record P key baseNonce frames)
      ∨ (∃ nonce body, record = v1Record nonce body)
      ∨ ∃ e, decryptRecordChecked t P cipherId key record = Faults.lift (.error e) := by
  have hvalid : validateChunkSize CHUNK_SIZE = .ok () := by decide
  by_cases hlong : record.length < 4
  · exact .inr (.inr ⟨_, by rw [decryptRecordChecked, hvalid, lift_ok_bind, if_pos hlong]⟩)
  by_cases hmagic : record.take 4 ≠ RECORD_MAGIC
  · refine .inr (.inr ⟨.invalidMagic, ?_⟩)
    rw [decryptRecordChecked, hvalid, lift_ok_bind, if_neg hlong, slice_of_le (by omega),
      lift_ok_bind, if_pos hmagic]
  obtain ⟨fields, rfl⟩ : ∃ fields, record = RECORD_MAGIC ++ fields :=
    ⟨record.drop 4, by rw [← not_not.mp hmagic, List.take_append_drop]⟩
  cases fields with
  | nil =>
    refine .inr (.inr ⟨.invalidVersion, ?_⟩)
    rw [decryptRecordChecked, hvalid, lift_ok_bind, if_neg hlong, slice_of_le (by omega),
      lift_ok_bind, if_neg hmagic, if_pos (by rw [List.append_nil, magic_length]; omega)]
  | cons version tail =>
    by_cases hv2 : version = 0x02
    · subst hv2
      rcases decryptV2Checked_cases tail with h | ⟨e, he⟩
      · exact .inl h
      · refine .inr (.inr ⟨e, ?_⟩)
        rw [decryptRecordChecked_version, if_pos rfl]
        exact he
    by_cases hv1 : version = 0x01
    · subst hv1
      by_cases hnonce : tail.length < 23
      · refine .inr (.inr ⟨.invalidHeader, ?_⟩)
        rw [decryptRecordChecked_version, if_neg (by decide), if_pos rfl, decryptV1Checked,
          if_pos (by rw [List.length_append, magic_length, List.length_cons]; omega)]
      · refine .inr (.inl ⟨⟨tail.take 23, List.length_take_of_le (Nat.not_lt.mp hnonce)⟩,
          tail.drop 23, ?_⟩)
        exact congrArg (fun fields => RECORD_MAGIC ++ 0x01 :: fields)
          (List.take_append_drop 23 tail).symm
    · refine .inr (.inr ⟨.invalidVersion, ?_⟩)
      rw [decryptRecordChecked_version, if_neg hv2, if_neg hv1]

section

variable (hx : P.xchacha20Poly1305.Correct) (ha : P.aes256GcmSiv.Correct) {record : Bytes}
  (hshort : 2 * record.length < t.limit)
include hx ha hshort

theorem decryptRecordChecked_ok {filename : String} {declared : UInt64} {data : Bytes}
    (h : Record P cipherId key record filename declared data) :
    ∃ r, decryptRecordChecked t P cipherId key record = Faults.lift (.ok r) := by
  cases h with
  | v2 hframes hmetadata =>
    rw [decryptRecordChecked_v2]
    exact decryptV2Checked_ok hx ha hshort hframes hmetadata
  | v1 hdecrypt hmetadata =>
    have hlength := cipherDecrypt_length hx ha hdecrypt
    have hbound := hshort
    rw [v1Record_length] at hbound
    obtain ⟨f, heq⟩ := decryptV1Checked_eq hx ha hshort hdecrypt
    rw [decryptRecordChecked_v1, heq, parseMetadataChecked_ok hmetadata (by omega), lift_ok_bind]
    exact ⟨_, rfl⟩

theorem decryptRecordChecked_wraps (h : Wraps t P cipherId key record) :
    decryptRecordChecked t P cipherId key record = fault .slice := by
  cases h with
  | frame hwraps => rw [decryptRecordChecked_v2, decryptV2Checked_frame hshort hwraps]
  | name hframes hwraps =>
    rw [decryptRecordChecked_v2, decryptV2Checked_name hx ha hshort hframes hwraps]
  | nameV1 hdecrypt hwraps =>
    have hlength := cipherDecrypt_length hx ha hdecrypt
    have hbound := hshort
    rw [v1Record_length] at hbound
    obtain ⟨f, heq⟩ := decryptV1Checked_eq hx ha hshort hdecrypt
    rw [decryptRecordChecked_v1, heq, parseMetadataChecked_wraps hwraps (by omega), fault_bind]

theorem decryptRecordChecked_holds :
    (∃ filename declared data, Record P cipherId key record filename declared data)
      ∨ Wraps t P cipherId key record
      ∨ ∃ e, decryptRecordChecked t P cipherId key record = Faults.lift (.error e) := by
  rcases decryptRecordChecked_cases t P cipherId key record
    with ⟨baseNonce, frames, rfl⟩ | ⟨nonce, body, rfl⟩ | h
  · rw [decryptRecordChecked_v2]
    exact decryptV2Checked_holds hx ha hshort
  · rw [decryptRecordChecked_v1]
    exact decryptV1Checked_holds hx ha hshort
  · exact .inr (.inr h)

end

/-! ## One reading -/

theorem Metadata.unique {metadata : Bytes} {filename filename' : String}
    {declared declared' : UInt64} (h : Metadata metadata filename declared)
    (h' : Metadata metadata filename' declared') : declared = declared' := by
  obtain ⟨hname, trailing, hmetadata⟩ := h
  obtain ⟨hname', trailing', hmetadata'⟩ := h'
  have heq := (List.cons.inj (hmetadata.symm.trans hmetadata')).2
  obtain ⟨-, hrest⟩ := prefixed_append_inj hname hname' heq
  exact (u64le_append_inj hrest).1

theorem v2Record_inj {baseNonce' : ByteVec 24} {frames frames' : Bytes}
    (h : v2Record P key baseNonce frames = v2Record P key baseNonce' frames') :
    baseNonce = baseNonce' ∧ frames = frames' := by
  have hlength := congrArg List.length h
  rw [v2Record_length, v2Record_length] at hlength
  simp only [v2Record, List.append_assoc, List.cons_append] at h
  obtain ⟨hnonce, hrest⟩ := vec_append_inj (List.cons.inj (List.append_cancel_left h)).2
  exact ⟨hnonce, (append_inj_of_length (by omega) hrest).1⟩

theorem v1Record_inj {nonce nonce' : ByteVec 23} {body body' : Bytes}
    (h : v1Record nonce body = v1Record nonce' body') : body = body' :=
  (vec_append_inj (List.cons.inj (List.append_cancel_left h)).2).2

theorem v2Record_ne_v1Record {nonce : ByteVec 23} {frames body : Bytes} :
    v2Record P key baseNonce frames ≠ v1Record nonce body := by
  intro h
  simp only [v2Record, v1Record, List.append_assoc, List.cons_append] at h
  exact absurd (List.cons.inj (List.append_cancel_left h)).1 (by decide)

theorem Frames.unique {chunks : List Bytes} :
    ∀ {chunks' : List Bytes} {chunkIndex : UInt64} {frames : Bytes},
      Frames P cipherId key baseNonce chunkIndex frames chunks [] →
      Frames P cipherId key baseNonce chunkIndex frames chunks' [] → chunks = chunks' := by
  induction chunks with
  | nil =>
    intro chunks' chunkIndex frames h h'
    obtain rfl : [] = frames := h
    cases chunks' with
    | nil => rfl
    | cons chunk' chunks' =>
      obtain ⟨encrypted, frames', hframes, -⟩ := h'
      have hlength := congrArg List.length hframes
      rw [List.length_append, u32le_length, List.length_nil] at hlength
      omega
  | cons chunk chunks ih =>
    rintro chunks' chunkIndex frames ⟨encrypted, frames', rfl, hencrypted, hdecrypt, h⟩ h'
    cases chunks' with
    | nil =>
      have hempty : [] = u32le (UInt32.ofNat encrypted.length) ++ (encrypted ++ frames') := h'
      have hlength := congrArg List.length hempty
      rw [List.length_append, u32le_length, List.length_nil] at hlength
      omega
    | cons chunk' chunks' =>
      obtain ⟨encrypted', frames'', hframes, hencrypted', hdecrypt', h'⟩ := h'
      obtain ⟨rfl, rfl⟩ := prefixed_append_inj hencrypted hencrypted' hframes
      rw [hdecrypt] at hdecrypt'
      rw [Except.ok.inj hdecrypt', ih h h']

theorem Record.unique {record : Bytes} {filename filename' : String} {declared declared' : UInt64}
    {data data' : Bytes} (h : Record P cipherId key record filename declared data)
    (h' : Record P cipherId key record filename' declared' data') :
    declared = declared' ∧ data = data' := by
  cases h with
  | @v2 baseNonce frames metadata chunks _ _ hframes hmetadata =>
    generalize hrecord : v2Record P key baseNonce frames = record at h'
    cases h' with
    | v2 hframes' hmetadata' =>
      obtain ⟨rfl, rfl⟩ := v2Record_inj hrecord
      obtain ⟨rfl, rfl⟩ := List.cons.inj (hframes.unique hframes')
      exact ⟨hmetadata.unique hmetadata', rfl⟩
    | v1 => exact absurd hrecord v2Record_ne_v1Record
  | @v1 nonce body metadata _ _ hdecrypt hmetadata =>
    generalize hrecord : v1Record nonce body = record at h'
    cases h' with
    | v2 => exact absurd hrecord.symm v2Record_ne_v1Record
    | v1 hdecrypt' hmetadata' =>
      obtain rfl := v1Record_inj hrecord
      rw [hdecrypt] at hdecrypt'
      obtain rfl := Except.ok.inj hdecrypt'
      exact ⟨hmetadata.unique hmetadata', rfl⟩

/-! ## What the decryption promises -/

/-- The bytes are no record that holds all the data its metadata declares. -/
def Malformed (P : Primitives) (cipherId : CipherId) (key : ByteVec 32) (record : Bytes) : Prop :=
  ¬∃ filename declared data,
    Record P cipherId key record filename declared data ∧ declared.toNat ≤ data.length

/-- A record with less data than its metadata declares. -/
def CutShort (P : Primitives) (cipherId : CipherId) (key : ByteVec 32) (record : Bytes) : Prop :=
  ∃ filename declared data,
    Record P cipherId key record filename declared data ∧ data.length < declared.toNat

theorem CutShort.malformed {record : Bytes} (h : CutShort P cipherId key record) :
    Malformed P cipherId key record := by
  obtain ⟨filename, declared, data, hrecord, hshort⟩ := h
  rintro ⟨filename', declared', data', hrecord', hlong⟩
  obtain ⟨rfl, rfl⟩ := hrecord.unique hrecord'
  omega

theorem not_wraps_bits64 {record : Bytes}
    (hshort : 2 * record.length < Target.bits64.limit) :
    ¬Wraps .bits64 P cipherId key record := by
  have hlimit : Target.bits64.limit = 2 ^ 64 := rfl
  have hname : ∀ metadata, ¬NameWraps .bits64 metadata := by
    rintro metadata ⟨n, rest, -, hwraps⟩
    have hn := n.toNat_lt
    omega
  intro h
  cases h with
  | frame hwraps =>
    obtain ⟨chunks, n, rest, -, hwraps⟩ := hwraps
    have hn := n.toNat_lt
    have hsize : HEADER_SIZE = 29 := rfl
    rw [v2Record_length] at hshort
    omega
  | name _ hwraps => exact hname _ hwraps
  | nameV1 _ hwraps => exact hname _ hwraps

theorem parseMetadataChecked_safe_iff (metadata : t.Slice) :
    (Returns (parseMetadataChecked t metadata.1)
        ∧ ((¬∃ filename declared, Metadata metadata.1 filename declared) →
          ∃ e, parseMetadataChecked t metadata.1 = Faults.lift (.error e)))
      ↔ ¬NameWraps t metadata.1 := by
  constructor
  · rintro ⟨hreturns, -⟩ hwraps
    rw [parseMetadataChecked_wraps hwraps metadata.2] at hreturns
    exact not_returns_fault _ hreturns
  · intro hwraps
    rcases parseMetadataChecked_cases metadata.1 metadata.2
      with ⟨filename, declared, hmetadata⟩ | h | ⟨e, he⟩
    · refine ⟨?_, fun hnone => absurd ⟨filename, declared, hmetadata⟩ hnone⟩
      rw [parseMetadataChecked_ok hmetadata metadata.2]
      exact returns_lift _
    · exact absurd h hwraps
    · exact ⟨by rw [he]; exact returns_lift _, fun _ => ⟨e, he⟩⟩

/-- **When record decryption is safe**: it meets no fault and refuses every
malformed record, exactly when no length field that it reaches overflows the
`usize` of the target, as none does on 64 bits, and the record does not hold
less data than its metadata declares. The parser of the metadata is safe
exactly when the length of the name does not overflow. -/
theorem decryptRecordChecked_safe_iff (t : Target) (P : Primitives)
    (hx : P.xchacha20Poly1305.Correct) (ha : P.aes256GcmSiv.Correct) (cipherId : CipherId)
    (key : ByteVec 32) :
    (∀ record : t.Slice,
      (Returns (decryptRecordChecked t P cipherId key record.1)
          ∧ (Malformed P cipherId key record.1 →
            ∃ e, decryptRecordChecked t P cipherId key record.1 = Faults.lift (.error e)))
        ↔ ¬Wraps t P cipherId key record.1 ∧ ¬CutShort P cipherId key record.1)
      ∧ (∀ metadata : t.Slice,
        (Returns (parseMetadataChecked t metadata.1)
            ∧ ((¬∃ filename declared, Metadata metadata.1 filename declared) →
              ∃ e, parseMetadataChecked t metadata.1 = Faults.lift (.error e)))
          ↔ ¬NameWraps t metadata.1)
      ∧ (t = .bits64 → ∀ record : t.Slice, ¬Wraps t P cipherId key record.1) := by
  refine ⟨?_, parseMetadataChecked_safe_iff, ?_⟩
  · rintro ⟨record, hshort⟩
    dsimp only
    constructor
    · rintro ⟨hreturns, hrefuses⟩
      refine ⟨fun hwraps => ?_, fun hcut => ?_⟩
      · rw [decryptRecordChecked_wraps hx ha hshort hwraps] at hreturns
        exact not_returns_fault _ hreturns
      · obtain ⟨e, he⟩ := hrefuses hcut.malformed
        obtain ⟨_, _, _, hrecord, -⟩ := hcut
        obtain ⟨r, hr⟩ := decryptRecordChecked_ok hx ha hshort hrecord
        rw [hr] at he
        cases he
    · rintro ⟨hwraps, hcut⟩
      rcases decryptRecordChecked_holds (t := t) (P := P) hx ha hshort
        with ⟨filename, declared, data, hrecord⟩ | h | ⟨e, he⟩
      · obtain ⟨r, hr⟩ := decryptRecordChecked_ok hx ha hshort hrecord
        refine ⟨by rw [hr]; exact returns_lift _, fun hmalformed => absurd ?_ hmalformed⟩
        refine ⟨filename, declared, data, hrecord, ?_⟩
        by_contra hless
        exact hcut ⟨filename, declared, data, hrecord, Nat.not_le.mp hless⟩
      · exact absurd h hwraps
      · exact ⟨by rw [he]; exact returns_lift _, fun _ => ⟨e, he⟩⟩
  · rintro rfl record
    exact not_wraps_bits64 record.2

/-! ## Two exceptions -/

/-- The metadata of a file "a" with a declared length. -/
def sampleMetadata (declared : UInt64) : Bytes :=
  RECORD_TYPE_PUT :: (u32le (UInt32.ofNat (utf8 "a").length)
    ++ (utf8 "a" ++ (u64le declared ++ [])))

/-- A record of the first version with metadata and no data. -/
def sampleRecord (declared : UInt64) : Bytes :=
  v1Record (zeroVec 23) (zeros 24 ++ (sampleMetadata declared ++ zeros 16))

theorem sampleMetadata_length (declared : UInt64) : (sampleMetadata declared).length = 14 := by
  have hname : (utf8 "a").length = 1 := by
    rw [utf8_length]
    rfl
  simp only [sampleMetadata, List.length_cons, List.length_append, u32le_length, u64le_length,
    hname, List.length_nil]

theorem sampleRecord_short (declared : UInt64) :
    2 * (sampleRecord declared).length < Target.bits64.limit := by
  have hlimit : Target.bits64.limit = 2 ^ 64 := rfl
  simp only [sampleRecord, v1Record_length, List.length_append, sampleMetadata_length,
    List.length_replicate, zeros]
  omega

theorem sampleRecord_record (declared : UInt64) :
    Record transparentPrimitives .xchacha20Poly1305 (zeroVec 32) (sampleRecord declared) "a"
      declared [] := by
  have hopen : transparentPrimitives.xchacha20Poly1305.decrypt (zeroVec 32) (zeroVec 24) []
      (sampleMetadata declared ++ zeros 16) = some (sampleMetadata declared) :=
    (transparentAead_correct 24).decrypt_encrypt rfl
  have hbody : ((zeroVec 24).toList ++ (sampleMetadata declared ++ zeros 16)).length = 54 := by
    simp only [List.length_append, List.Vector.toList_length, zeros_length, sampleMetadata_length]
  have hdecrypt : cipherDecrypt transparentPrimitives .xchacha20Poly1305 (zeroVec 32)
      ((zeroVec 24).toList ++ (sampleMetadata declared ++ zeros 16))
        = .ok (sampleMetadata declared) := by
    rw [cipherDecrypt]
    dsimp only
    rw [dif_neg (by omega), splitNonce_append]
    dsimp only
    rw [hopen]
  have hdata : v1Data transparentPrimitives .xchacha20Poly1305 (zeroVec 32)
      ((zeroVec 24).toList ++ (sampleMetadata declared ++ zeros 16)) = [] := by
    rw [v1Data, CipherId.nonceSize, List.drop_of_length_le (by omega)]
    rfl
  have hname : (utf8 "a").length < 2 ^ 32 := by
    rw [utf8_length]
    decide
  rw [← hdata]
  exact .v1 hdecrypt ⟨hname, [], rfl⟩

/-- The record of an empty file decrypts safely; one that declares five bytes
does not. -/
theorem decryptRecordChecked_safe_iff_sample :
    Returns (decryptRecordChecked .bits64 transparentPrimitives .xchacha20Poly1305 (zeroVec 32)
        (sampleRecord 0))
      ∧ ¬(Malformed transparentPrimitives .xchacha20Poly1305 (zeroVec 32) (sampleRecord 5) →
        ∃ e, decryptRecordChecked .bits64 transparentPrimitives .xchacha20Poly1305 (zeroVec 32)
          (sampleRecord 5) = Faults.lift (.error e)) := by
  obtain ⟨hsafe, -, hwraps⟩ := decryptRecordChecked_safe_iff .bits64 transparentPrimitives
    (transparentAead_correct 24) (transparentAead_correct 12) .xchacha20Poly1305 (zeroVec 32)
  constructor
  · refine ((hsafe ⟨_, sampleRecord_short 0⟩).mpr ⟨hwraps rfl ⟨_, sampleRecord_short 0⟩, ?_⟩).1
    rintro ⟨filename, declared, data, hrecord, hless⟩
    obtain ⟨rfl, -⟩ := hrecord.unique (sampleRecord_record 0)
    exact absurd hless (Nat.not_lt_zero _)
  · intro hrefuses
    have hcut : CutShort transparentPrimitives .xchacha20Poly1305 (zeroVec 32) (sampleRecord 5) :=
      ⟨"a", 5, [], sampleRecord_record 5, by decide⟩
    by_cases hreturns : Returns (decryptRecordChecked .bits64 transparentPrimitives
      .xchacha20Poly1305 (zeroVec 32) (sampleRecord 5))
    · exact ((hsafe ⟨_, sampleRecord_short 5⟩).mp ⟨hreturns, hrefuses⟩).2 hcut
    · obtain ⟨e, he⟩ := hrefuses hcut.malformed
      rw [he] at hreturns
      exact hreturns (returns_lift _)

/-- A record of the second version whose first length field is the largest. -/
def largestLengthRecord : Bytes :=
  v2Record transparentPrimitives (zeroVec 32) (zeroVec 24) (u32le 0xffffffff)

theorem largestLengthRecord_length : largestLengthRecord.length = 65 := by
  rw [largestLengthRecord, v2Record_length, u32le_length]

/-- A malformed record that decrypts, and on 32 bits a record that panics. -/
theorem decryptRecordChecked_unsafe :
    (∃ record : Target.bits64.Slice,
      Malformed transparentPrimitives .xchacha20Poly1305 (zeroVec 32) record.1
        ∧ ∃ r, decryptRecordChecked .bits64 transparentPrimitives .xchacha20Poly1305 (zeroVec 32)
          record.1 = Faults.lift (.ok r))
      ∧ ∃ record : Target.bits32.Slice,
        ¬Returns (decryptRecordChecked .bits32 transparentPrimitives .xchacha20Poly1305
          (zeroVec 32) record.1) := by
  constructor
  · refine ⟨⟨_, sampleRecord_short 5⟩, ?_, ?_⟩
    · exact CutShort.malformed ⟨"a", 5, [], sampleRecord_record 5, by decide⟩
    · exact decryptRecordChecked_ok (transparentAead_correct 24) (transparentAead_correct 12)
        (sampleRecord_short 5) (sampleRecord_record 5)
  · have hlimit : Target.bits32.limit = 2 ^ 32 := rfl
    have hshort : 2 * largestLengthRecord.length < Target.bits32.limit := by
      rw [largestLengthRecord_length]
      omega
    have hframe : FrameWraps .bits32 transparentPrimitives .xchacha20Poly1305 (zeroVec 32)
        (zeroVec 24) (u32le 0xffffffff) := by
      refine ⟨[], 0xffffffff, [], List.append_nil _, ?_⟩
      have hn : (0xffffffff : UInt32).toNat = 2 ^ 32 - 1 := rfl
      have hsize : HEADER_SIZE = 29 := rfl
      rw [u32le_length, hn, List.length_nil]
      omega
    refine ⟨⟨_, hshort⟩, ?_⟩
    rw [decryptRecordChecked_wraps (transparentAead_correct 24) (transparentAead_correct 12)
      hshort (.frame hframe)]
    exact not_returns_fault _

end UsbVault.StreamingDecryptor
