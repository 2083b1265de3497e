import UsbVault.Crypto.Streaming

/-!
# StreamingRoundTrip

Decrypting what `encrypt_record` wrote. `Sealed` relates the chunks of a
record to their plaintexts, by position; the encryptor's loop
establishes it and the decryptor's loop is inverted by it, both by
induction on the chunks. What is left is the metadata chunk, whose
length the encryptor writes as a `u32` without a check.
-/

namespace UsbVault

open Wire StreamingEncryptor StreamingDecryptor

variable {P : Primitives}

/-! ## One chunk -/

theorem deriveChunkKey_agree (P : Primitives) (self : StreamingEncryptor)
    (index : UInt64) :
    StreamingDecryptor.deriveChunkKey P self.masterKey self.baseNonce index
      = self.deriveChunkKey P (self.deriveChunkNonce P index) := rfl

/-- The two AEADs meet their contract. -/
structure AeadsCorrect (P : Primitives) : Prop where
  xchacha : P.xchacha20Poly1305.Correct
  gcmSiv : P.aes256GcmSiv.Correct

theorem AeadsCorrect.chunkAead (hA : AeadsCorrect P) (cipherId : CipherId) :
    (chunkAead P cipherId).Correct := by
  cases cipherId with
  | xchacha20Poly1305 => exact hA.xchacha
  | aes256GcmSiv =>
    exact ⟨fun h => hA.gcmSiv.decrypt_encrypt h,
      fun h => hA.gcmSiv.encrypt_length h,
      fun h => hA.gcmSiv.decrypt_length h⟩

/-- An encrypted chunk decrypts under the same key, and is the plaintext
with 24 bytes of nonce and 16 of tag. -/
theorem decryptWithKey_encryptWithKey (hA : AeadsCorrect P)
    {self : StreamingEncryptor} {plaintext encrypted : Bytes}
    {nonce : ByteVec 24}
    (h : self.encryptWithKey P plaintext nonce = .ok encrypted) :
    decryptWithKey P self.cipherId (self.deriveChunkKey P nonce) encrypted
        = .ok plaintext
      ∧ encrypted.length = plaintext.length + 40 := by
  have hcorrect := hA.chunkAead self.cipherId
  simp only [encryptWithKey] at h
  split at h
  · cases h
  · rename_i ciphertext hct
    cases h
    have hlen := hcorrect.encrypt_length hct
    have hshort : ¬(nonce.toList ++ ciphertext).length < 24 := by simp
    constructor
    · rw [decryptWithKey, dif_neg hshort, splitNonce_append]
      simp only [hcorrect.decrypt_encrypt hct]
    · simp only [List.length_append, List.Vector.toList_length, hlen]
      omega

theorem decryptWithKey_length (hA : AeadsCorrect P) {cipherId : CipherId}
    {key : ByteVec 32} {data plaintext : Bytes}
    (h : decryptWithKey P cipherId key data = .ok plaintext) :
    data.length = plaintext.length + 40 := by
  unfold decryptWithKey at h
  split at h
  · cases h
  · rename_i hshort
    simp only [splitNonce] at h
    split at h
    · cases h
    · rename_i opened hopened
      cases h
      have hlen := (hA.chunkAead cipherId).decrypt_length hopened
      rw [List.length_drop] at hlen
      omega

/-! ## The encryptor's run -/

/-- The fields an encryptor never changes. -/
structure SameKeys (s s' : StreamingEncryptor) : Prop where
  cipherId : s'.cipherId = s.cipherId
  baseNonce : s'.baseNonce = s.baseNonce
  masterKey : s'.masterKey = s.masterKey

theorem SameKeys.refl (self : StreamingEncryptor) : SameKeys self self :=
  ⟨rfl, rfl, rfl⟩

theorem SameKeys.trans {s₁ s₂ s₃ : StreamingEncryptor} (h12 : SameKeys s₁ s₂)
    (h23 : SameKeys s₂ s₃) : SameKeys s₁ s₃ :=
  ⟨h23.cipherId.trans h12.cipherId, h23.baseNonce.trans h12.baseNonce,
    h23.masterKey.trans h12.masterKey⟩

theorem encryptor_bind_ok {α β : Type} {x : EncryptorM α}
    {f : α → EncryptorM β} {s s' : StreamingEncryptor} {b : β}
    (h : (x >>= f) s = .ok b s') :
    ∃ a s₁, x s = .ok a s₁ ∧ f a s₁ = .ok b s' := by
  change EStateM.bind x f s = _ at h
  unfold EStateM.bind at h
  cases hx : x s with
  | ok a s₁ => rw [hx] at h; exact ⟨a, s₁, rfl, h⟩
  | error e s₁ => rw [hx] at h; cases h

theorem checkNonceReuse_ok {nonce : ByteVec 24} {self self' : StreamingEncryptor}
    (h : checkNonceReuse nonce self = .ok () self') : SameKeys self self' := by
  obtain ⟨s, s₁, hget, h⟩ := encryptor_bind_ok h
  cases hget
  split_ifs at h
  · cases h
  · cases h
    exact ⟨rfl, rfl, rfl⟩

theorem encryptChunk_ok {index : UInt64} {plaintext encrypted : Bytes}
    {self self' : StreamingEncryptor}
    (h : encryptChunk P index plaintext self = .ok encrypted self') :
    SameKeys self self'
      ∧ self.encryptWithKey P plaintext (self.deriveChunkNonce P index)
        = .ok encrypted := by
  obtain ⟨s, s₁, hget, h⟩ := encryptor_bind_ok h
  cases hget
  obtain ⟨u, s₂, hcheck, h⟩ := encryptor_bind_ok h
  cases henc : self.encryptWithKey P plaintext (self.deriveChunkNonce P index) with
  | error e => rw [henc] at h; cases h
  | ok ct =>
    rw [henc] at h
    cases h
    exact ⟨checkNonceReuse_ok hcheck, rfl⟩

/-- `encrypted` are the chunks of `plaintexts` from position `index` on:
each opens under the key the decryptor derives for its position. -/
inductive Sealed (P : Primitives) (self : StreamingEncryptor) :
    Nat → List Bytes → List Bytes → Prop where
  | nil (index : Nat) : Sealed P self index [] []
  | cons {index : Nat} {plaintext encrypted : Bytes}
      {plaintexts encrypteds : List Bytes}
      (hopen : decryptWithKey P self.cipherId
        (StreamingDecryptor.deriveChunkKey P self.masterKey self.baseNonce
          (UInt64.ofNat index)) encrypted = .ok plaintext)
      (hlen : encrypted.length = plaintext.length + 40)
      (hrest : Sealed P self (index + 1) plaintexts encrypteds) :
      Sealed P self index (plaintext :: plaintexts) (encrypted :: encrypteds)

theorem Sealed.of_encryptChunk (hA : AeadsCorrect P) {index : Nat}
    {plaintext encrypted : Bytes} {plaintexts encrypteds : List Bytes}
    {self s s' : StreamingEncryptor} (hs : SameKeys self s)
    (h : encryptChunk P (UInt64.ofNat index) plaintext s = .ok encrypted s')
    (hrest : Sealed P self (index + 1) plaintexts encrypteds) :
    Sealed P self index (plaintext :: plaintexts) (encrypted :: encrypteds) := by
  obtain ⟨-, henc⟩ := encryptChunk_ok h
  obtain ⟨hopen, hlen⟩ := decryptWithKey_encryptWithKey hA henc
  rw [← deriveChunkKey_agree, hs.cipherId, hs.masterKey, hs.baseNonce] at hopen
  exact .cons hopen hlen hrest

/-- **The encryptor's loop** writes the frames of sealed chunks. -/
theorem encryptChunks_ok (hA : AeadsCorrect P) {self : StreamingEncryptor}
    (chunks : List Bytes) :
    ∀ {index : Nat} {s s' : StreamingEncryptor} {out : Bytes},
      SameKeys self s → encryptChunks P index chunks s = .ok out s' →
      ∃ encrypteds, out = encrypteds.flatMap frame
        ∧ Sealed P self index chunks encrypteds := by
  induction chunks with
  | nil =>
    intro index s s' out _ h
    cases h
    exact ⟨[], rfl, .nil index⟩
  | cons chunk chunks ih =>
    intro index s s' out hs h
    obtain ⟨encrypted, s₁, hchunk, h⟩ := encryptor_bind_ok h
    obtain ⟨rest, s₂, hrest, h⟩ := encryptor_bind_ok h
    cases h
    have hs₁ : SameKeys self s₁ := hs.trans (encryptChunk_ok hchunk).1
    obtain ⟨encrypteds, rfl, hsealed⟩ := ih hs₁ hrest
    exact ⟨encrypted :: encrypteds, rfl, .of_encryptChunk hA hs hchunk hsealed⟩

/-- What the final HMAC is computed over. -/
def recordBody (baseNonce : ByteVec 24) (encrypteds : List Bytes) : Bytes :=
  RECORD_MAGIC ++ [FORMAT_VERSION] ++ baseNonce.toList ++ encrypteds.flatMap frame

/-- **A record is the header, the frames of its sealed chunks and the
final HMAC.** -/
theorem encryptRecord_ok (hA : AeadsCorrect P) {self self' : StreamingEncryptor}
    {filename : String} {data record : Bytes}
    (h : encryptRecord P filename data self = .ok record self') :
    ∃ encrypteds, Sealed P self 0
        (metadataOf filename data :: chunksOf CHUNK_SIZE data.length data) encrypteds
      ∧ record = recordBody self.baseNonce encrypteds
        ++ (computeFinalHmac P self.masterKey
          (recordBody self.baseNonce encrypteds)).toList := by
  have hvalid : validateChunkSize CHUNK_SIZE = .ok () := rfl
  unfold encryptRecord at h
  rw [hvalid] at h
  obtain ⟨s, s₁, hget, h⟩ := encryptor_bind_ok h
  cases hget
  obtain ⟨chunk0, s₂, hchunk0, h⟩ := encryptor_bind_ok h
  obtain ⟨rest, s₃, hrest, h⟩ := encryptor_bind_ok h
  cases h
  obtain ⟨encrypteds, rfl, hsealed⟩ :=
    encryptChunks_ok hA _ (encryptChunk_ok hchunk0).1 hrest
  refine ⟨chunk0 :: encrypteds, .of_encryptChunk hA (.refl self) hchunk0 hsealed, ?_⟩
  simp only [recordBody, List.flatMap_cons, List.append_assoc]

/-! ## The decryptor's run -/

theorem frame_length (encrypted : Bytes) :
    (frame encrypted).length = encrypted.length + 4 := by
  simp [frame]
  omega

theorem Sealed.length_eq {self : StreamingEncryptor} {index : Nat}
    {plaintexts encrypteds : List Bytes}
    (hs : Sealed P self index plaintexts encrypteds) :
    ∀ e ∈ encrypteds, ∃ p ∈ plaintexts, e.length = p.length + 40 := by
  induction hs with
  | nil => simp
  | cons _ hlen _ ih =>
    intro e he
    rcases List.mem_cons.mp he with rfl | he
    · exact ⟨_, List.mem_cons_self, hlen⟩
    · obtain ⟨p, hp, heq⟩ := ih e he
      exact ⟨p, List.mem_cons_of_mem _ hp, heq⟩

/-- The frames are longer than there are chunks, so the loop has fuel. -/
theorem Sealed.length_le {self : StreamingEncryptor} {index : Nat}
    {plaintexts encrypteds : List Bytes}
    (hs : Sealed P self index plaintexts encrypteds) :
    plaintexts.length ≤ (encrypteds.flatMap frame).length := by
  induction hs with
  | nil => simp
  | cons _ _ _ ih =>
    rw [List.length_cons, List.flatMap_cons, List.length_append, frame_length]
    omega

/-- **The decryptor's loop** reads the frames of sealed chunks back to
their plaintexts, when every length fits its header. -/
theorem Sealed.yields {self : StreamingEncryptor} {index : Nat}
    {plaintexts encrypteds : List Bytes}
    (hs : Sealed P self index plaintexts encrypteds)
    (hfit : ∀ e ∈ encrypteds, e.length < 2 ^ 32) :
    ∀ fuel, plaintexts.length ≤ fuel →
      Yields (readChunks P self.cipherId self.masterKey self.baseNonce fuel
        (UInt64.ofNat index)) (encrypteds.flatMap frame) [] plaintexts := by
  induction hs with
  | nil index =>
    intro fuel _
    cases fuel with
    | zero => exact .pure [] []
    | succ fuel =>
      exact (yields_hasRoom_short (by decide)).bind (.pure [] [])
  | @cons index plaintext encrypted plaintexts encrypteds hopen hlen _ ih =>
    intro fuel hfuel
    cases fuel with
    | zero => simp at hfuel
    | succ fuel =>
      have hrest := ih (fun e he => hfit e (List.mem_cons_of_mem _ he)) fuel
        (by simpa using hfuel)
      -- the chunk index of both loops, also where it wraps
      have hnext : UInt64.ofNat index + 1 = UInt64.ofNat (index + 1) := by
        rw [UInt64.ofNat_add]
        rfl
      have hheader : (UInt32.ofNat encrypted.length).toNat
          = encrypted.length := by
        rw [UInt32.toNat_ofNat', Nat.mod_eq_of_lt (hfit _ List.mem_cons_self)]
      have hroom : 1 ≤ (frame encrypted ++ encrypteds.flatMap frame).length := by
        rw [List.length_append, frame_length]
        omega
      rw [List.flatMap_cons]
      refine (yields_hasRoom hroom).bind ?_
      rw [if_pos rfl, frame, List.append_assoc]
      refine (yields_readU32le _ _ _).bind ?_
      refine (yields_take _ hheader.symm _).bind ?_
      refine (yields_lift hopen _).bind ?_
      rw [hnext]
      exact hrest.bind (.pure _ _)

/-! ## Chunks of the data -/

theorem chunksOf_flatten {size : Nat} (hsize : 0 < size) (fuel : Nat)
    (data : Bytes) (hfuel : data.length ≤ fuel) :
    (chunksOf size fuel data).flatten = data := by
  induction fuel generalizing data with
  | zero => simp [chunksOf, List.eq_nil_of_length_eq_zero (Nat.le_zero.mp hfuel)]
  | succ fuel ih =>
    by_cases hd : data = []
    · simp [chunksOf, hd]
    · have hpos := List.length_pos_iff.mpr hd
      have hdrop : (data.drop size).length ≤ fuel := by
        rw [List.length_drop]
        omega
      simp [chunksOf, hd, ih _ hdrop]

theorem chunksOf_length_le (size fuel : Nat) (data : Bytes) :
    ∀ chunk ∈ chunksOf size fuel data, chunk.length ≤ size := by
  induction fuel generalizing data with
  | zero => simp [chunksOf]
  | succ fuel ih =>
    by_cases hd : data = []
    · simp [chunksOf, hd]
    · simp only [chunksOf, if_neg hd, List.mem_cons]
      rintro chunk (rfl | hchunk)
      · exact List.length_take_le _ _
      · exact ih _ chunk hchunk

/-! ## The metadata chunk -/

theorem metadataOf_length (filename : String) (data : Bytes) :
    (metadataOf filename data).length = (utf8 filename).length + 13 := by
  simp [metadataOf]
  omega

theorem parseMetadata_metadataOf {filename : String} {data : Bytes}
    (hname : (utf8 filename).length < 2 ^ 32) (hdata : data.length < 2 ^ 64) :
    parseMetadata (metadataOf filename data) = .ok (filename, data.length) := by
  have hlen : (utf8 filename).length
      = (UInt32.ofNat (utf8 filename).length).toNat := by
    rw [UInt32.toNat_ofNat', Nat.mod_eq_of_lt hname]
  have hsize : (UInt64.ofNat data.length).toNat = data.length := by
    rw [UInt64.toNat_ofNat', Nat.mod_eq_of_lt hdata]
  have hyields : Yields readMetadata (metadataOf filename data) []
      (filename, data.length) := by
    have htail : u64le (UInt64.ofNat data.length)
        = u64le (UInt64.ofNat data.length) ++ [] := (List.append_nil _).symm
    rw [metadataOf, htail]
    simp only [List.append_assoc, List.singleton_append]
    refine (yields_readU8 _ _ _).bind ?_
    rw [if_neg (by decide)]
    refine (yields_readU32le _ _ _).bind ?_
    refine (yields_take _ hlen _).bind ?_
    refine (yields_lift (fromUtf8_utf8 filename) _).bind ?_
    refine (yields_readU64le _ _ _).bind ?_
    rw [hsize]
    exact .pure _ _
  obtain ⟨c', hread, -⟩ := hyields (Cursor.start _) (Cursor.start_rest _)
  rw [parseMetadata, hread]
  rfl

theorem parseMetadata_length {metadata : Bytes} {r : String × Nat}
    (h : parseMetadata metadata = .ok r) : 13 ≤ metadata.length := by
  have hconsumes : Consumes readMetadata (1 + (4 + (0 + (0 + (8 + 0))))) := by
    refine (consumes_readU8 _).bind fun recordType => ?_
    by_cases htype : recordType ≠ RECORD_TYPE_PUT
    · rw [if_pos htype]
      exact consumes_fail _ _
    · rw [if_neg htype]
      refine (consumes_readU32le _).bind fun filenameLen => ?_
      refine ((consumes_take _ _).mono (Nat.zero_le _)).bind fun bytes => ?_
      refine (consumes_lift _).bind fun filename => ?_
      exact (consumes_readU64le _).bind fun dataLen => .pure _
  unfold parseMetadata at h
  cases hread : readMetadata (Cursor.start metadata) with
  | error e => rw [hread] at h; cases h
  | ok a =>
    have hlen := hconsumes _ a.1 a.2 hread
    rw [Cursor.start_rest] at hlen
    omega

/-! ## Records with a valid HMAC -/

theorem recordBody_rest (baseNonce : ByteVec 24) (encrypteds : List Bytes) :
    (recordBody baseNonce encrypteds).drop 29 = encrypteds.flatMap frame := by
  refine List.drop_left' ?_
  simp [RECORD_MAGIC, ascii]

theorem recordBody_nonce (baseNonce : ByteVec 24) (encrypteds : List Bytes)
    (tail : Bytes) :
    ((recordBody baseNonce encrypteds ++ tail).drop 5).take 24
      = baseNonce.toList := by
  have hprefix : (RECORD_MAGIC ++ [FORMAT_VERSION]).length = 5 := by decide
  rw [recordBody, List.append_assoc, List.append_assoc,
    List.drop_left' hprefix, List.take_left' baseNonce.toList_length]

theorem recordBody_length (baseNonce : ByteVec 24) (encrypteds : List Bytes) :
    (recordBody baseNonce encrypteds).length
      = 29 + (encrypteds.flatMap frame).length := by
  have hmagic : RECORD_MAGIC.length = 4 := by decide
  simp only [recordBody, List.length_append, hmagic, List.length_singleton,
    List.Vector.toList_length]

/-- A record whose HMAC is the one of its body is decrypted by the chunk
loop alone. -/
theorem decryptRecord_signed (cipherId : CipherId) (key : ByteVec 32)
    (baseNonce : ByteVec 24) (encrypteds : List Bytes) :
    ∃ c : Cursor, c.rest = encrypteds.flatMap frame
      ∧ decryptRecord P cipherId key (recordBody baseNonce encrypteds
          ++ (computeFinalHmac P key (recordBody baseNonce encrypteds)).toList)
        = (do
          let (allChunks, _) ← readChunks P cipherId key baseNonce
            (recordBody baseNonce encrypteds).length 0 c
          assemble allChunks) := by
  let body := recordBody baseNonce encrypteds
  let mac := computeFinalHmac P key body
  have hbody : body.length = 29 + (encrypteds.flatMap frame).length :=
    recordBody_length baseNonce encrypteds
  have hlen : (body ++ mac.toList).length = body.length + 32 := by simp
  have hmagic : (body ++ mac.toList).take 4 = RECORD_MAGIC := rfl
  have hversion : (body ++ mac.toList).getD 4 0 = 0x02 := rfl
  have htake : (body ++ mac.toList).take ((body ++ mac.toList).length - 32)
      = body := by
    rw [hlen, Nat.add_sub_cancel, List.take_left]
  have hdrop : (body ++ mac.toList).drop ((body ++ mac.toList).length - 32)
      = mac.toList := by
    rw [hlen, Nat.add_sub_cancel, List.drop_left]
  have hnonce : ((body ++ mac.toList).drop 5).take 24 = baseNonce.toList :=
    recordBody_nonce baseNonce encrypteds mac.toList
  refine ⟨⟨body, HEADER_SIZE, by simp only [HEADER_SIZE]; omega⟩,
    recordBody_rest baseNonce encrypteds, ?_⟩
  -- magic and version lead to `decrypt_v2`
  have hv2 : decryptRecord P cipherId key (body ++ mac.toList)
      = decryptV2 P cipherId key (body ++ mac.toList) := by
    have hvalid : validateChunkSize CHUNK_SIZE = .ok () := rfl
    simp only [decryptRecord, hvalid, bind, Except.bind]
    rw [if_neg (by omega), if_neg (not_not.mpr hmagic), if_neg (by omega),
      if_pos hversion]
  have hv2len : ¬(body ++ mac.toList).length < HEADER_SIZE + 32 := by
    simp only [HEADER_SIZE]
    omega
  have hvec : (⟨((body ++ mac.toList).drop 5).take 24, by
      rw [hnonce, baseNonce.toList_length]⟩ : ByteVec 24) = baseNonce :=
    List.Vector.eq _ _ hnonce
  show decryptRecord P cipherId key (body ++ mac.toList) = _
  rw [hv2, decryptV2, dif_neg hv2len]
  -- the HMAC received is the one computed
  simp only [htake, hdrop, hvec]
  exact if_neg (not_not.mpr rfl)

/-- The loop has read its first chunk when it returned: the bytes the
length header announces, decrypted under the first key. -/
theorem readChunks_first {cipherId : CipherId} {key : ByteVec 32}
    {baseNonce : ByteVec 24} {fuel : Nat} {index : UInt64} {c c' : Cursor}
    {header : UInt32} {body : Bytes} {chunks : List Bytes}
    (hc : c.rest = u32le header ++ body) (hle : header.toNat ≤ body.length)
    (h : readChunks P cipherId key baseNonce (fuel + 1) index c
      = .ok (chunks, c')) :
    ∃ first rest, chunks = first :: rest
      ∧ decryptWithKey P cipherId
          (StreamingDecryptor.deriveChunkKey P key baseNonce index)
          (body.take header.toNat) = .ok first := by
  have hroom : 1 ≤ c.rest.length := by
    rw [hc, List.length_append, u32le_length]
    omega
  have hsplit : body.take header.toNat ++ body.drop header.toNat = body :=
    List.take_append_drop _ _
  have htake : (body.take header.toNat).length = header.toNat :=
    List.length_take_of_le hle
  rw [readChunks] at h
  obtain ⟨c₁, hc₁, h⟩ := (yields_hasRoom hroom).of_bind_ok rfl h
  rw [if_pos rfl] at h
  rw [hc] at hc₁
  obtain ⟨c₂, hc₂, h⟩ := (yields_readU32le _ _ _).of_bind_ok hc₁ h
  rw [← hsplit] at hc₂
  obtain ⟨c₃, hc₃, h⟩ := (yields_take _ htake _).of_bind_ok hc₂ h
  obtain ⟨first, hfirst, h⟩ := lift_bind_ok h
  obtain ⟨rest, c₄, hrest, h⟩ := reader_bind_ok h
  cases h
  exact ⟨first, rest, rfl, hfirst⟩

/-! ## The round trip -/

/-- The metadata chunk of a record the decryptor accepted: its length fits
the header. A wrapped header announces at most 52 bytes, too few for a
chunk that holds metadata. -/
theorem metadata_fits (hA : AeadsCorrect P) {self : StreamingEncryptor}
    {filename : String} {data : Bytes} {chunks encrypteds : List Bytes}
    {fuel : Nat} {c : Cursor} {r : List Bytes × Cursor} {result : String × Bytes}
    (hsealed : Sealed P self 0 (metadataOf filename data :: chunks) encrypteds)
    (hname : (utf8 filename).length < 2 ^ 32)
    (hrest : c.rest = encrypteds.flatMap frame)
    (hread : readChunks P self.cipherId self.masterKey self.baseNonce (fuel + 1)
      0 c = .ok r)
    (hok : assemble r.1 = .ok result) :
    (utf8 filename).length + 53 < 2 ^ 32 := by
  cases hsealed with
  | @cons _ _ encrypted _ encrypteds hopen hlen hsealed =>
    by_contra hlong
    rw [metadataOf_length] at hlen
    have hheader : (UInt32.ofNat encrypted.length).toNat
        = (utf8 filename).length + 53 - 2 ^ 32 := by
      rw [UInt32.toNat_ofNat']
      omega
    have hc : c.rest = u32le (UInt32.ofNat encrypted.length)
        ++ (encrypted ++ encrypteds.flatMap frame) := by
      rw [hrest, List.flatMap_cons, frame, List.append_assoc]
    have hle : (UInt32.ofNat encrypted.length).toNat
        ≤ (encrypted ++ encrypteds.flatMap frame).length := by
      rw [List.length_append]
      omega
    obtain ⟨allChunks, c'⟩ := r
    obtain ⟨first, rest, rfl, hdec⟩ := readChunks_first hc hle hread
    -- what the wrapped header leaves of the first chunk is no metadata
    have hshort := decryptWithKey_length hA hdec
    rw [List.length_take_of_le hle] at hshort
    cases hmeta : parseMetadata first with
    | error e =>
      simp only [assemble, hmeta] at hok
      cases hok
    | ok m =>
      have hmin := parseMetadata_length hmeta
      omega

theorem Sealed.fit {self : StreamingEncryptor} {filename : String} {data : Bytes}
    {encrypteds : List Bytes}
    (hsealed : Sealed P self 0
      (metadataOf filename data :: chunksOf CHUNK_SIZE data.length data) encrypteds)
    (hfit : (utf8 filename).length + 53 < 2 ^ 32) :
    ∀ e ∈ encrypteds, e.length < 2 ^ 32 := by
  intro e he
  obtain ⟨plaintext, hmem, hlen⟩ := hsealed.length_eq e he
  rcases List.mem_cons.mp hmem with rfl | hchunk
  · rw [metadataOf_length] at hlen
    omega
  · have hle := chunksOf_length_le _ _ _ plaintext hchunk
    simp only [CHUNK_SIZE] at hle
    omega

theorem assemble_chunks {filename : String} {data : Bytes}
    (hname : (utf8 filename).length < 2 ^ 32) (hdata : data.length < 2 ^ 64) :
    assemble (metadataOf filename data :: chunksOf CHUNK_SIZE data.length data)
      = .ok (filename, data) := by
  have hpos : 0 < CHUNK_SIZE := by decide
  have hflat := chunksOf_flatten hpos data.length data (Nat.le_refl _)
  simp only [assemble, parseMetadata_metadataOf hname hdata, bind, Except.bind,
    hflat, List.take_length, pure, Except.pure]

/-- An encrypted record decrypts to the filename and the data exactly when
the length of its metadata chunk fits the `u32` it is written as. -/
theorem decryptRecord_ok_iff (hA : AeadsCorrect P)
    {self self' : StreamingEncryptor} {filename : String} {data record : Bytes}
    (henc : encryptRecord P filename data self = .ok record self')
    (hname : (utf8 filename).length < 2 ^ 32) (hdata : data.length < 2 ^ 64) :
    decryptRecord P self.cipherId self.masterKey record = .ok (filename, data)
      ↔ (utf8 filename).length + 53 < 2 ^ 32 := by
  obtain ⟨encrypteds, hsealed, rfl⟩ := encryptRecord_ok hA henc
  obtain ⟨c, hrest, hdecrypt⟩ := decryptRecord_signed (P := P) self.cipherId
    self.masterKey self.baseNonce encrypteds
  have hbody := recordBody_length self.baseNonce encrypteds
  rw [hdecrypt]
  constructor
  · intro hok
    obtain ⟨fuel, hfuel⟩ : ∃ fuel,
        (recordBody self.baseNonce encrypteds).length = fuel + 1 :=
      ⟨_, by rw [hbody, Nat.add_comm 29, Nat.add_succ]⟩
    rw [hfuel] at hok
    cases hread : readChunks P self.cipherId self.masterKey self.baseNonce
        (fuel + 1) 0 c with
    | error e => rw [hread] at hok; cases hok
    | ok r =>
      rw [hread] at hok
      exact metadata_fits hA hsealed hname hrest hread hok
  · intro hfit
    have hcount := hsealed.length_le
    obtain ⟨c', hread, -⟩ := hsealed.yields (hsealed.fit hfit)
      (recordBody self.baseNonce encrypteds).length (by omega) c hrest
    have hread' : readChunks P self.cipherId self.masterKey self.baseNonce
        (recordBody self.baseNonce encrypteds).length 0 c = .ok (_, c') := hread
    rw [hread']
    simp only [bind, Except.bind]
    exact assemble_chunks hname hdata

/-- **When a record decrypts to what was encrypted.** The decryptor derives
the encryptor's keys, and gives back the filename and the data exactly
when the metadata chunk's length, 53 bytes more than the filename's, fits
the `u32` it is written as. -/
theorem decryptRecord_roundTrip_iff (hA : AeadsCorrect P)
    {self self' : StreamingEncryptor} {filename : String} {data record : Bytes}
    (henc : encryptRecord P filename data self = .ok record self')
    (hname : (utf8 filename).length < 2 ^ 32) (hdata : data.length < 2 ^ 64) :
    ((∀ index, StreamingDecryptor.deriveChunkKey P self.masterKey self.baseNonce
          index = self.deriveChunkKey P (self.deriveChunkNonce P index))
      ∧ decryptRecord P self.cipherId self.masterKey record
        = .ok (filename, data))
      ↔ (utf8 filename).length + 53 < 2 ^ 32 := by
  have hiff := decryptRecord_ok_iff hA henc hname hdata
  constructor
  · rintro ⟨-, hok⟩
    exact hiff.mp hok
  · intro hfit
    exact ⟨deriveChunkKey_agree P self, hiff.mpr hfit⟩

/-- A fresh encryptor over the transparent primitives. -/
def sampleEncryptor : StreamingEncryptor :=
  StreamingEncryptor.new (zeroVec 24) .xchacha20Poly1305 (zeroVec 32)

theorem transparentPrimitives_aeads : AeadsCorrect transparentPrimitives :=
  ⟨transparentAead_correct 24, transparentAead_correct 12⟩

theorem decryptRecord_roundTrip_iff_sample :
    ∃ record s',
      encryptRecord transparentPrimitives "a" [7] sampleEncryptor = .ok record s'
      ∧ decryptRecord transparentPrimitives .xchacha20Poly1305 (zeroVec 32) record
        = .ok ("a", [7]) := by
  have hname : (utf8 "a").length = 1 := by
    rw [utf8_length]
    rfl
  obtain ⟨record, s', henc⟩ : ∃ record s',
      encryptRecord transparentPrimitives "a" [7] sampleEncryptor = .ok record s' :=
    ⟨_, _, rfl⟩
  have hiff := decryptRecord_roundTrip_iff transparentPrimitives_aeads henc
    (by omega) (by decide)
  exact ⟨record, s', henc, (hiff.mpr (by omega)).2⟩

/-! ### The filename that wraps -/

/-- A filename of `n` bytes. -/
def longFilename (n : Nat) : String := String.ofList (List.replicate n 'a')

theorem longFilename_length (n : Nat) : (utf8 (longFilename n)).length = n := by
  rw [utf8_length]
  induction n with
  | zero => rfl
  | succ n ih =>
    have hpush : longFilename (n + 1) = String.singleton 'a' ++ longFilename n := by
      rw [String.singleton_eq_ofList, longFilename, longFilename,
        ← String.ofList_append, List.singleton_append, List.replicate_succ]
    have hsize : 'a'.utf8Size = 1 := by decide
    rw [hpush, String.utf8ByteSize_append, String.utf8ByteSize_singleton, ih, hsize,
      Nat.add_comm]

/-- An encryptor that has used no nonce writes the record of an empty file. -/
theorem encryptRecord_empty (filename : String) :
    ∃ record s', encryptRecord transparentPrimitives filename [] sampleEncryptor
      = .ok record s' :=
  ⟨_, _, rfl⟩

/-- At 53 bytes below `2 ^ 32` the metadata chunk announces no bytes, and the
record of an empty file does not decrypt to it. -/
theorem longFilename_record_lost :
    (utf8 (longFilename (2 ^ 32 - 53))).length < 2 ^ 32
      ∧ AeadsCorrect transparentPrimitives
      ∧ ∃ record s',
        encryptRecord transparentPrimitives (longFilename (2 ^ 32 - 53)) []
            sampleEncryptor = .ok record s'
        ∧ decryptRecord transparentPrimitives .xchacha20Poly1305 (zeroVec 32) record
          ≠ .ok (longFilename (2 ^ 32 - 53), []) := by
  have hlen := longFilename_length (2 ^ 32 - 53)
  have hname : (utf8 (longFilename (2 ^ 32 - 53))).length < 2 ^ 32 := by omega
  obtain ⟨record, s', henc⟩ := encryptRecord_empty (longFilename (2 ^ 32 - 53))
  refine ⟨hname, transparentPrimitives_aeads, record, s', henc, fun hok => ?_⟩
  have hiff := decryptRecord_ok_iff transparentPrimitives_aeads henc hname
    (by decide)
  have hfit := hiff.mp hok
  omega

end UsbVault
