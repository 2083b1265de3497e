import UsbVault.Lib.Bits
import UsbVault.Lib.Utf8

/-!
# Steganography

`services/crypto/steganography.ts`: encrypted data in the lowest bits of the
red channel of an image. An image is its pixels; a PNG of opaque pixels is
read back as it was written. Keys enter as the bytes of their hex text.

The red channel carries one bit for each pixel. The reported capacity counts
three, and what does not fit is silently not written; extraction hands
everything behind the header to the decryption; and `detectStego` reads the
bits of one byte where the magic has four (`detectStego_eq_false`). Where the
payload fills the image exactly, extraction does return the data
(`extract_embed`).
-/

namespace UsbVault.App.Steganography

open Wire Bits
open Utf8 (decodeText)

/-- The pixels of an opaque image, four bytes each: red, green, blue, alpha. -/
structure Image where
  width : Nat
  height : Nat
  pixels : Bytes
  length_eq : pixels.length = 4 * (width * height)
  alpha_eq : ∀ i, i < width * height → pixels.getD (4 * i + 3) 0 = 255

/-- AES-GCM of the browser: `importKey`, `encrypt` and `decrypt` throw an
error with a message. -/
structure AesGcm where
  Key : Type
  importKey : Bytes → Except String Key
  encrypt : Key → ByteVec 12 → Bytes → Bytes
  decrypt : Key → Bytes → Bytes → Except String Bytes
  decrypt_encrypt : ∀ key iv data, decrypt key iv.toList (encrypt key iv data) = .ok data
  encrypt_length : ∀ key iv data, (encrypt key iv data).length = data.length + 16

def MAGIC_BYTES : List Char := "USVS".toList
def HEADER_SIZE : Nat := 28
def IV_SIZE : Nat := 12

structure StegoCapacity where
  maxBytes : Nat
  availableBytes : Nat

/-- `calculateCapacity` -/
def calculateCapacity (image : Image) : StegoCapacity :=
  let totalBits := image.width * image.height * 3
  let maxBytes := totalBits / 8
  { maxBytes, availableBytes := maxBytes - HEADER_SIZE }

/-! ## Bits in pixels -/

/-- `(pixelData[pixelIndex] & 0xfe) | bitValue`; a write past the end of the
array is ignored. -/
def writeBit (s : Bytes × Nat) (bitValue : UInt8) : Bytes × Nat :=
  let (pixelData, bitIndex) := s
  let pixelIndex := bitIndex * 4
  (pixelData.set pixelIndex (pixelData.getD pixelIndex 0 &&& 0xfe ||| bitValue), bitIndex + 1)

def writeByte (s : Bytes × Nat) (byte : UInt8) : Bytes × Nat :=
  (List.range 8).foldl
    (fun s bit => writeBit s (byte >>> UInt8.ofNat (7 - bit) &&& 1)) s

/-- The loop of `embed` over the payload. -/
def writePayload (pixelData payload : Bytes) : Bytes :=
  (payload.foldl writeByte (pixelData, 0)).1

/-- The lowest bit of the red channel. -/
def redLsb (pixelData : Bytes) (i : Nat) : Bool := pixelData.getD (i * 4) 0 &&& 1 == 1

/-- `extractedBits` -/
def extractBits (pixelData : Bytes) : List Bool :=
  (List.range ((pixelData.length + 3) / 4)).map (redLsb pixelData)

/-! ## Writing bits -/

/-- A bit as `bitValue`. -/
def ofBit (bit : Bool) : UInt8 := if bit then 1 else 0

theorem shiftRight_and_one (byte : UInt8) {bit : Nat} (h : bit < 8) :
    byte >>> UInt8.ofNat (7 - bit) &&& 1 = ofBit (byte.toNat.testBit (7 - bit)) := by
  have hshift : (UInt8.ofNat (7 - bit)).toNat % 8 = 7 - bit := by
    rw [UInt8.toNat_ofNat']
    omega
  apply UInt8.toNat_inj.mp
  rw [UInt8.toNat_and, UInt8.toNat_shiftRight, hshift, UInt8.toNat_one, Nat.and_one_is_mod,
    Nat.testBit_eq_decide_div_mod_eq, ← Nat.shiftRight_eq_div_pow, ofBit]
  rcases Nat.mod_two_eq_zero_or_one (byte.toNat >>> (7 - bit)) with hmod | hmod <;>
    simp [hmod]

/-- The two loops write the bits of the payload one after the other. -/
theorem foldl_writeByte (payload : Bytes) (s : Bytes × Nat) :
    payload.foldl writeByte s
      = (bitsOf payload).foldl (fun s bit => writeBit s (ofBit bit)) s := by
  induction payload generalizing s with
  | nil => rfl
  | cons byte payload ih =>
    have hbyte : writeByte s byte
        = (bits 8 byte.toNat).foldl (fun s bit => writeBit s (ofBit bit)) s := by
      rw [writeByte, bits, List.foldl_map]
      refine List.foldl_ext _ _ _ fun s bit hmem => ?_
      rw [shiftRight_and_one byte (List.mem_range.mp hmem)]
    rw [List.foldl_cons, ih, hbyte, bitsOf_cons, List.foldl_append]

theorem foldl_writeBit_frame (bs : List Bool) (s : Bytes × Nat) :
    (bs.foldl (fun s bit => writeBit s (ofBit bit)) s).1.length = s.1.length
      ∧ ∀ i, i % 4 ≠ 0 →
        (bs.foldl (fun s bit => writeBit s (ofBit bit)) s).1.getD i 0 = s.1.getD i 0 := by
  induction bs generalizing s with
  | nil => exact ⟨rfl, fun _ _ => rfl⟩
  | cons bit bs ih =>
    obtain ⟨hlen, hrest⟩ := ih (writeBit s (ofBit bit))
    constructor
    · rw [List.foldl_cons, hlen]
      simp [writeBit]
    · intro i hi
      have hne : s.2 * 4 ≠ i := by omega
      rw [List.foldl_cons, hrest i hi]
      simp [writeBit, List.getElem?_set_ne hne]

/-- The image with a payload written into it. -/
def Image.write (image : Image) (payload : Bytes) : Image where
  width := image.width
  height := image.height
  pixels := writePayload image.pixels payload
  length_eq := by
    rw [writePayload, foldl_writeByte, (foldl_writeBit_frame _ _).1, image.length_eq]
  alpha_eq := by
    intro i hi
    have halpha : (4 * i + 3) % 4 ≠ 0 := by omega
    rw [writePayload, foldl_writeByte, (foldl_writeBit_frame _ _).2 _ halpha,
      image.alpha_eq i hi]

/-! ## The service -/

section

variable (gcm : AesGcm)

structure StegoResult where
  success : Bool
  carrierImage : Option Image
  originalSize : Nat
  embeddedSize : Nat
  error : Option String

/-- The header and the encrypted data. -/
def buildPayload (iv : ByteVec 12) (secretData encryptedBytes : Bytes) : Bytes :=
  Utf8.encode MAGIC_BYTES ++ (leBytes 4 secretData.length).reverse ++ iv.toList
    ++ encryptedBytes

/-- `embed`, with the random IV. -/
def embed (image : Image) (secretData keyBytes : Bytes) (iv : ByteVec 12) : StegoResult :=
  let capacity := calculateCapacity image
  if secretData.length > capacity.availableBytes then
    { success := false
      carrierImage := none
      originalSize := 0
      embeddedSize := secretData.length
      error := s!"Data too large: {secretData.length} bytes exceeds capacity of "
        ++ s!"{capacity.availableBytes} bytes" }
  else
    match gcm.importKey keyBytes with
    | .error errorMsg =>
      { success := false
        carrierImage := none
        originalSize := 0
        embeddedSize := 0
        error := s!"Embedding failed: {errorMsg}" }
    | .ok cryptoKey =>
      let encryptedBytes := gcm.encrypt cryptoKey iv secretData
      let payload := buildPayload iv secretData encryptedBytes
      { success := true
        carrierImage := some (image.write payload)
        originalSize := secretData.length
        embeddedSize := payload.length
        error := none }

/-- `extract`. `offsetError` is the message of a `DataView` outside of its
buffer. -/
def extract (offsetError : String) (image : Image) (keyBytes : Bytes) :
    Except String Bytes :=
  let payload := bytesOf (extractBits image.pixels)
  let magicString := decodeText (payload.take 4)
  if magicString ≠ MAGIC_BYTES then
    .error "Invalid steganographic image: magic bytes not found"
  else if payload.length < 8 then .error s!"Extraction failed: {offsetError}"
  else
    let dataLength := beNat ((payload.drop 4).take 4)
    let iv := (payload.drop 8).take IV_SIZE
    let encryptedData := payload.drop (8 + IV_SIZE)
    if dataLength ≤ 0 ∨ dataLength > encryptedData.length then
      .error "Invalid data length in steganographic header"
    else
      match gcm.importKey keyBytes with
      | .error errorMsg => .error s!"Extraction failed: {errorMsg}"
      | .ok cryptoKey =>
        match gcm.decrypt cryptoKey iv encryptedData with
        | .error errorMsg => .error s!"Extraction failed: {errorMsg}"
        | .ok decryptedData => .ok (decryptedData.take dataLength)

end

/-- `detectStego`: `i` counts bytes of the pixels, and is compared with 32. -/
def detectStego (image : Image) : Bool :=
  let magicBits := ((List.range 8).filter fun i =>
    i * 4 < 32 && i * 4 < image.pixels.length).map (redLsb image.pixels)
  let extractedMagic := decodeText (bytesOf magicBits)
  extractedMagic == MAGIC_BYTES

/-! ## Detection -/

theorem decodeText_byte (byte : UInt8) : decodeText [byte] ≠ MAGIC_BYTES := by
  have hall : ∀ n < 256, decodeText [UInt8.ofNat n] ≠ MAGIC_BYTES := by decide +kernel
  have hbyte := hall byte.toNat byte.toNat_lt
  rwa [UInt8.ofNat_toNat] at hbyte

/-- **No image is ever detected**: the bits that are read make one byte. -/
theorem detectStego_eq_false (image : Image) : detectStego image = false := by
  let magicBits := ((List.range 8).filter fun i =>
    i * 4 < 32 && i * 4 < image.pixels.length).map (redLsb image.pixels)
  have hbits : magicBits.length ≤ 8 := by
    rw [List.length_map]
    exact (List.length_filter_le _ _).trans (by simp)
  have hlen := bytesOf_length magicBits
  rw [detectStego, beq_eq_false_iff_ne]
  change decodeText (bytesOf magicBits) ≠ MAGIC_BYTES
  match hbytes : bytesOf magicBits with
  | [] => decide
  | [byte] => exact decodeText_byte byte
  | _ :: _ :: _ =>
    rw [hbytes, List.length_cons, List.length_cons] at hlen
    omega

/-! ## Extraction -/

theorem extractBits_length (image : Image) :
    (extractBits image.pixels).length = image.width * image.height := by
  rw [extractBits, List.length_map, List.length_range, image.length_eq]
  omega

theorem and_ofBit (byte : UInt8) (bit : Bool) :
    ((byte &&& 0xfe ||| ofBit bit) &&& 1 == 1) = bit := by
  have hall : ∀ n < 256, ∀ bit, ((UInt8.ofNat n &&& 0xfe ||| ofBit bit) &&& 1 == 1) = bit := by
    decide +kernel
  have hbyte := hall byte.toNat byte.toNat_lt bit
  rwa [UInt8.ofNat_toNat] at hbyte

theorem extractBits_writeBit (pixelData : Bytes) (i : Nat) (bit : Bool) :
    extractBits (writeBit (pixelData, i) (ofBit bit)).1 = (extractBits pixelData).set i bit := by
  refine List.ext_getElem (by simp [extractBits, writeBit]) fun j hj hj' => ?_
  have hjlen : j * 4 < pixelData.length := by
    simp only [extractBits, List.length_set, List.length_map, List.length_range] at hj'
    omega
  rw [List.getElem_set]
  simp only [extractBits, List.getElem_map, List.getElem_range, redLsb, writeBit]
  split_ifs with hij
  · subst hij
    rw [List.getD_eq_getElem _ _ (by simpa using hjlen), List.getElem_set_self]
    exact and_ofBit _ bit
  · have hne : i * 4 ≠ j * 4 := by omega
    simp [List.getElem?_set_ne hne]

/-- The bits that were written are read back, and the others are as before. -/
theorem extractBits_foldl {pixelData : Bytes} (bs : List Bool) {k : Nat}
    (hfit : k + bs.length ≤ (extractBits pixelData).length) :
    extractBits (bs.foldl (fun s bit => writeBit s (ofBit bit)) (pixelData, k)).1
      = (extractBits pixelData).take k ++ bs ++ (extractBits pixelData).drop (k + bs.length) := by
  induction bs generalizing pixelData k with
  | nil => simp
  | cons bit bs ih =>
    have hset := extractBits_writeBit pixelData k bit
    rw [List.length_cons] at hfit
    have hk : k < (extractBits pixelData).length := by omega
    have hstep : writeBit (pixelData, k) (ofBit bit)
        = ((writeBit (pixelData, k) (ofBit bit)).1, k + 1) := rfl
    have htake : ((extractBits pixelData).set k bit).take (k + 1)
        = (extractBits pixelData).take k ++ [bit] := by
      rw [List.take_succ_eq_append_getElem (by simpa using hk), List.getElem_set_self,
        List.take_set_of_le le_rfl]
    rw [List.foldl_cons, hstep, ih (by rw [hset, List.length_set]; omega), hset, htake,
      List.drop_set_of_lt (by omega), List.length_cons]
    simp [Nat.add_assoc, Nat.add_comm 1]

theorem bytesOf_write {image : Image} {payload : Bytes}
    (h : image.width * image.height = 8 * payload.length) :
    bytesOf (extractBits (image.write payload).pixels) = payload := by
  have hlen := extractBits_length image
  have hfit : 0 + (bitsOf payload).length ≤ (extractBits image.pixels).length := by
    rw [bitsOf_length, hlen]
    omega
  have hbits := extractBits_foldl (bitsOf payload) hfit
  rw [bitsOf_length, Nat.zero_add, List.take_zero, List.nil_append,
    List.drop_of_length_le (by omega), List.append_nil] at hbits
  show bytesOf (extractBits (payload.foldl writeByte (image.pixels, 0)).1) = payload
  rw [foldl_writeByte, hbits, bytesOf_bitsOf]

theorem buildPayload_length (iv : ByteVec 12) (secretData encryptedBytes : Bytes) :
    (buildPayload iv secretData encryptedBytes).length = 20 + encryptedBytes.length := by
  have hmagic : (Utf8.encode MAGIC_BYTES).length = 4 := by decide
  simp only [buildPayload, List.length_append, hmagic, List.length_reverse, leBytes_length,
    List.Vector.toList_length]

/-- The parts of a payload, at the places where `extract` looks for them. -/
theorem buildPayload_parts (iv : ByteVec 12) {secretData : Bytes} (encryptedBytes : Bytes)
    (hlt : secretData.length < 2 ^ 32) :
    let payload := buildPayload iv secretData encryptedBytes
    decodeText (payload.take 4) = MAGIC_BYTES
      ∧ beNat ((payload.drop 4).take 4) = secretData.length
      ∧ (payload.drop 8).take IV_SIZE = iv.toList
      ∧ payload.drop (8 + IV_SIZE) = encryptedBytes := by
  have hmagic : Utf8.encode MAGIC_BYTES = [0x55, 0x53, 0x56, 0x53] := by decide
  have hsize : ((leBytes 4 secretData.length).reverse).length = 4 := by simp
  obtain ⟨b0, b1, b2, b3, hbytes⟩ : ∃ b0 b1 b2 b3,
      (leBytes 4 secretData.length).reverse = [b0, b1, b2, b3] := by
    match (leBytes 4 secretData.length).reverse, hsize with
    | [b0, b1, b2, b3], _ => exact ⟨b0, b1, b2, b3, rfl⟩
  have hvalue : beNat [b0, b1, b2, b3] = secretData.length := by
    rw [← hbytes, beNat, List.reverse_reverse, leNat_leBytes hlt]
  have hiv : iv.toList.length = 12 := iv.toList_length
  simp only [buildPayload, hmagic, hbytes]
  refine ⟨?_, hvalue, ?_, ?_⟩
  · show decodeText [0x55, 0x53, 0x56, 0x53] = MAGIC_BYTES
    decide
  · simp [IV_SIZE, hiv]
  · simp [IV_SIZE, hiv]

/-- **Extraction works where the payload fills the image**: data that is not
empty, in an image with one pixel for each bit of the payload. -/
theorem extract_embed (gcm : AesGcm) (offsetError : String) {image : Image}
    {secretData keyBytes : Bytes} {key : gcm.Key} (iv : ByteVec 12)
    (hkey : gcm.importKey keyBytes = .ok key) (hdata : secretData ≠ [])
    (hlt : secretData.length < 2 ^ 32)
    (hsize : image.width * image.height = 8 * (secretData.length + 36)) :
    ∃ stego, (embed gcm image secretData keyBytes iv).carrierImage = some stego
      ∧ extract gcm offsetError stego keyBytes = .ok secretData := by
  let payload := buildPayload iv secretData (gcm.encrypt key iv secretData)
  have hlen : payload.length = secretData.length + 36 := by
    rw [buildPayload_length, gcm.encrypt_length]
    omega
  have hcapacity : ¬secretData.length > (calculateCapacity image).availableBytes := by
    simp only [calculateCapacity, hsize, HEADER_SIZE]
    omega
  have hread : bytesOf (extractBits (image.write payload).pixels) = payload :=
    bytesOf_write (by rw [hsize, hlen])
  obtain ⟨hmagic, hlength, hiv, hencrypted⟩ :=
    buildPayload_parts iv (gcm.encrypt key iv secretData) hlt
  have hpos : 0 < secretData.length := List.length_pos_iff.mpr hdata
  refine ⟨image.write payload, by rw [embed, if_neg hcapacity, hkey], ?_⟩
  have henough : ¬payload.length < 8 := by omega
  have hvalid : ¬(secretData.length ≤ 0
      ∨ secretData.length > (gcm.encrypt key iv secretData).length) := by
    rw [gcm.encrypt_length]
    omega
  simp only [extract, hread, hmagic, hlength, hiv, hencrypted, ne_eq, not_true_eq_false,
    if_false, henough, hvalid, hkey, gcm.decrypt_encrypt, List.take_length, payload]

/-! ## The round trip -/

/-- Embedding succeeds, the result is detected, and extraction returns the
data. -/
def RoundTrips (gcm : AesGcm) (offsetError : String) (image : Image)
    (secretData keyBytes : Bytes) (iv : ByteVec 12) : Prop :=
  ∃ stego, (embed gcm image secretData keyBytes iv).success = true
    ∧ (embed gcm image secretData keyBytes iv).carrierImage = some stego
    ∧ detectStego stego = true
    ∧ extract gcm offsetError stego keyBytes = .ok secretData

/-- **Nothing makes the round trip**: no image is detected. -/
theorem not_roundTrips (gcm : AesGcm) (offsetError : String) (image : Image)
    (secretData keyBytes : Bytes) (iv : ByteVec 12) :
    ¬RoundTrips gcm offsetError image secretData keyBytes iv := by
  rintro ⟨stego, -, -, hdetect, -⟩
  rw [detectStego_eq_false] at hdetect
  cases hdetect

/-- A cipher that appends its tag and changes nothing. -/
def sampleGcm : AesGcm where
  Key := Unit
  importKey _ := .ok ()
  encrypt _ _ data := data ++ zeros 16
  decrypt _ _ encrypted := .ok (encrypted.take (encrypted.length - 16))
  decrypt_encrypt _ _ data := by simp
  encrypt_length _ _ data := by simp

/-- A white image of 20 by 20 pixels. -/
def sampleImage : Image where
  width := 20
  height := 20
  pixels := List.replicate 1600 255
  length_eq := List.length_replicate
  alpha_eq i hi := by
    rw [List.getD_replicate]
    omega

/-- Fourteen bytes fill the white image. -/
theorem extract_embed_sample :
    ∃ stego, (embed sampleGcm sampleImage (List.replicate 14 1) (zeros 32)
        (zeroVec 12)).carrierImage = some stego
      ∧ extract sampleGcm "" stego (zeros 32) = .ok (List.replicate 14 1) :=
  @extract_embed sampleGcm "" sampleImage (List.replicate 14 1) (zeros 32) () (zeroVec 12) rfl
    (by decide) (by decide) (by decide)

/-- One byte in a white image, which has room for its payload. -/
theorem roundTrips_sampleImage :
    ¬ ∀ (gcm : AesGcm) (offsetError : String) (image : Image) (secretData keyBytes : Bytes)
        (iv : ByteVec 12) (key : gcm.Key),
      gcm.importKey keyBytes = .ok key →
      secretData.length ≤ (calculateCapacity image).availableBytes →
      RoundTrips gcm offsetError image secretData keyBytes iv := by
  intro h
  obtain ⟨stego, -, -, hdetect, -⟩ := h sampleGcm "" sampleImage [1] (zeros 32) (zeroVec 12) ()
    rfl (by decide)
  rw [detectStego_eq_false] at hdetect
  cases hdetect

end UsbVault.App.Steganography
