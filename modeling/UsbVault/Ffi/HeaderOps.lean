import UsbVault.Lib.Run
import UsbVault.Vault.HeaderFormat

/-!
# HeaderOps

The header operations of the C ABI (`ffi/mod.rs`): fail-counter
increment and reset, index commit and self-destruct. Each takes header
bytes, reads them, changes the header and writes it to the caller's
buffer; a panic in between is caught and reported as
`ERR_MEMORY_ERROR`. Pointer validity is the caller's and not modelled.

`Effect` says once what a call that produces output has done to the
header; every result about calls is derived from it.
-/

namespace UsbVault

open Wire

/-! ## Return values -/

def ERR_SUCCESS : Int := 0
def ERR_INVALID_KEY : Int := -1
def ERR_MEMORY_ERROR : Int := -13
def ERR_BUFFER_TOO_SMALL : Int := -15
def ERR_FAIL_COUNTER_EXCEEDED : Int := -19

/-- `crypto_error_to_code`. -/
def cryptoErrorToCode : CryptoError → Int
  | .invalidKey => -1
  | .invalidNonce => -2
  | .decryptionFailed => -3
  | .invalidHeader => -4
  | .invalidMagic => -5
  | .invalidVersion => -6
  | .corruptedChunk => -7
  | .corruptedIndex => -8
  | .keyDerivationFailed => -9
  | .sharingError => -10
  | .serializationError => -11
  | .ioError => -12
  | .memoryError => -13
  | .invalidCipher => -14
  | .bufferTooSmall => -15
  | .invalidArgument => -16
  | .srpError _ => -16
  | .nonceReuse => -2
  | .keyWrappingFailed => -9
  | .rollbackDetected => -20
  | .invalidInput _ => -16
  | .passwordWrong => -17
  | .failCounterTampered => -18
  | .failCounterExceeded => -19
  | .selfDestructed => -21
  | .diskFull => -22
  | .fileNotFound => -23
  | .tfaFailed => -24
  | .noAuthenticator => -25
  | .lockedOut => -26

/-- The code a call returns and the bytes it wrote to the caller's
buffer, if it wrote any. -/
structure FfiReturn where
  code : Int
  out : Option Bytes
  deriving DecidableEq

def failWith (code : Int) : FfiReturn := ⟨code, none⟩

/-- The common tail of the header calls: write the header and copy it
out when the caller's buffer is large enough. -/
def emitHeader (code : Int) (outCapacity : Nat) (header : VaultHeader) :
    FfiReturn :=
  match header.write with
  | none => failWith ERR_MEMORY_ERROR
  | some bytes =>
    if bytes.length > outCapacity then failWith ERR_BUFFER_TOO_SMALL
    else ⟨code, some bytes⟩

/-- The key check of the keyed calls. -/
def withHmacKey (hmacKey : Bytes) (body : ByteVec 32 → FfiReturn) : FfiReturn :=
  if h : hmacKey.length = 32 then body ⟨hmacKey, h⟩
  else failWith ERR_INVALID_KEY

def withHeader (data : Bytes) (body : VaultHeader → FfiReturn) : FfiReturn :=
  match VaultHeader.read data with
  | .ok header => body header
  | .error e => failWith (cryptoErrorToCode e)

/-! ## The calls -/

/-- `usbvault_vault_fail_counter_read`: the code and the count. -/
def usbvaultVaultFailCounterRead (P : Primitives) (data hmacKey : Bytes) :
    Int × Option UInt32 :=
  if h : hmacKey.length = 32 then
    match VaultHeader.read data with
    | .error e => (cryptoErrorToCode e, none)
    | .ok header =>
      match header.readFailCounter P ⟨hmacKey, h⟩ with
      | .error e => (cryptoErrorToCode e, none)
      | .ok count => (ERR_SUCCESS, some count)
  else (ERR_INVALID_KEY, none)

/-- What an increment below the limit writes. -/
def incrementedHeader (P : Primitives) (key : ByteVec 32) (newCount : UInt32)
    (header : VaultHeader) : VaultHeader :=
  ((header.writeFailCounter P key newCount).incrementStateVersion).resign P key

/-- `usbvault_vault_fail_counter_increment`. -/
def usbvaultVaultFailCounterIncrement (P : Primitives)
    (entropy : VaultHeader.EraseEntropy) (data hmacKey : Bytes)
    (outCapacity : Nat) : FfiReturn :=
  withHmacKey hmacKey fun key => withHeader data fun header =>
    match header.readFailCounter P key with
    | .error e => failWith (cryptoErrorToCode e)
    | .ok current =>
      let newCount := saturatingAdd32 current 1
      if newCount ≥ VaultHeader.MAX_FAIL_ATTEMPTS then
        emitHeader ERR_FAIL_COUNTER_EXCEEDED outCapacity
          (header.selfDestruct P key entropy)
      else
        emitHeader ERR_SUCCESS outCapacity
          (incrementedHeader P key newCount header)

/-- What a reset writes. -/
def resetHeader (P : Primitives) (key : ByteVec 32) (header : VaultHeader) :
    VaultHeader :=
  ((header.upgradeToV5IfEligible.writeFailCounter P key 0).incrementStateVersion
    ).resign P key

/-- `usbvault_vault_fail_counter_reset`. -/
def usbvaultVaultFailCounterReset (P : Primitives) (data hmacKey : Bytes)
    (outCapacity : Nat) : FfiReturn :=
  withHmacKey hmacKey fun key => withHeader data fun header =>
    emitHeader ERR_SUCCESS outCapacity (resetHeader P key header)

/-- `usbvault_vault_commit_index`. -/
def usbvaultVaultCommitIndex (P : Primitives) (data hmacKey : Bytes)
    (newIndexOffset newIndexLength : UInt32) (outCapacity : Nat) : FfiReturn :=
  withHmacKey hmacKey fun key => withHeader data fun header =>
    emitHeader ERR_SUCCESS outCapacity
      (header.commitNewIndex P key newIndexOffset newIndexLength)

/-- `usbvault_vault_self_destruct`. -/
def usbvaultVaultSelfDestruct (entropy : VaultHeader.EraseEntropy)
    (data : Bytes) (outCapacity : Nat) : FfiReturn :=
  withHeader data fun header =>
    emitHeader ERR_SUCCESS outCapacity (header.selfDestructWipe entropy)

/-- One call of a mutating header operation, with everything but the
header bytes. -/
inductive HeaderOp where
  | failCounterIncrement (entropy : VaultHeader.EraseEntropy) (hmacKey : Bytes)
      (outCapacity : Nat)
  | failCounterReset (hmacKey : Bytes) (outCapacity : Nat)
  | commitIndex (hmacKey : Bytes) (newIndexOffset newIndexLength : UInt32)
      (outCapacity : Nat)
  | selfDestruct (entropy : VaultHeader.EraseEntropy) (outCapacity : Nat)

/-- The size of the caller's output buffer. -/
def HeaderOp.outCapacity : HeaderOp → Nat
  | .failCounterIncrement _ _ cap => cap
  | .failCounterReset _ cap => cap
  | .commitIndex _ _ _ cap => cap
  | .selfDestruct _ cap => cap

def HeaderOp.call (P : Primitives) (op : HeaderOp) (data : Bytes) : FfiReturn :=
  match op with
  | .failCounterIncrement entropy hmacKey cap =>
    usbvaultVaultFailCounterIncrement P entropy data hmacKey cap
  | .failCounterReset hmacKey cap =>
    usbvaultVaultFailCounterReset P data hmacKey cap
  | .commitIndex hmacKey off len cap =>
    usbvaultVaultCommitIndex P data hmacKey off len cap
  | .selfDestruct entropy cap => usbvaultVaultSelfDestruct entropy data cap

/-- The stored header bytes after a call: the output when there is one,
else what was there. -/
def HeaderOp.apply (P : Primitives) (data : Bytes) (op : HeaderOp) : Bytes :=
  (op.call P data).out.getD data

/-- The stored header bytes after a run of calls, failed calls included. -/
def runCalls (P : Primitives) (ops : List HeaderOp) (data : Bytes) : Bytes :=
  ops.foldl (HeaderOp.apply P) data

/-- The output of a call that reports success. -/
def HeaderOp.succeed (P : Primitives) (data : Bytes) (op : HeaderOp) :
    Option Bytes :=
  if (op.call P data).code = ERR_SUCCESS then (op.call P data).out else none

/-! ## What a call can do -/

/-- What a call that produced output has done to the header it read:
the operation, the code it returned and the header it wrote. -/
inductive Effect (P : Primitives) (h : VaultHeader) :
    HeaderOp → Int → VaultHeader → Prop where
  | incremented {entropy} {key : ByteVec 32} {cap current}
      (hread : h.readFailCounter P key = .ok current)
      (hlt : saturatingAdd32 current 1 < VaultHeader.MAX_FAIL_ATTEMPTS) :
      Effect P h (.failCounterIncrement entropy key.toList cap) ERR_SUCCESS
        (incrementedHeader P key (saturatingAdd32 current 1) h)
  | exceeded {entropy} {key : ByteVec 32} {cap current}
      (hread : h.readFailCounter P key = .ok current)
      (hge : saturatingAdd32 current 1 ≥ VaultHeader.MAX_FAIL_ATTEMPTS) :
      Effect P h (.failCounterIncrement entropy key.toList cap)
        ERR_FAIL_COUNTER_EXCEEDED (h.selfDestruct P key entropy)
  | reset {key : ByteVec 32} {cap} :
      Effect P h (.failCounterReset key.toList cap) ERR_SUCCESS
        (resetHeader P key h)
  | committed {key : ByteVec 32} {off len cap} :
      Effect P h (.commitIndex key.toList off len cap) ERR_SUCCESS
        (h.commitNewIndex P key off len)
  | wiped {entropy cap} :
      Effect P h (.selfDestruct entropy cap) ERR_SUCCESS
        (h.selfDestructWipe entropy)

@[simp] theorem failWith_out (code : Int) : (failWith code).out = none := rfl

/-- A header call copies out what the writer produced, when it fits the
caller's buffer. -/
theorem emitHeader_out_iff {code : Int} {cap : Nat} {h : VaultHeader}
    {bytes : Bytes} :
    (emitHeader code cap h).out = some bytes
      ↔ h.write = some bytes ∧ bytes.length ≤ cap := by
  unfold emitHeader
  cases hw : h.write with
  | none => simp
  | some b =>
    by_cases hcap : b.length > cap
    · simp only [if_pos hcap, failWith_out, Option.some.injEq]
      constructor
      · intro hn; cases hn
      · rintro ⟨rfl, hle⟩; omega
    · simp only [if_neg hcap, Option.some.injEq]
      constructor
      · rintro rfl; exact ⟨rfl, by omega⟩
      · exact fun hb => hb.1

theorem emitHeader_code {code : Int} {cap : Nat} {h : VaultHeader}
    {bytes : Bytes} (hout : (emitHeader code cap h).out = some bytes) :
    (emitHeader code cap h).code = code := by
  obtain ⟨hw, hle⟩ := emitHeader_out_iff.mp hout
  rw [emitHeader, hw]
  show (if bytes.length > cap then failWith ERR_BUFFER_TOO_SMALL
    else ⟨code, some bytes⟩ : FfiReturn).code = code
  rw [if_neg (by omega)]

theorem withHmacKey_out {hmacKey : Bytes} {body : ByteVec 32 → FfiReturn}
    {bytes : Bytes} (hout : (withHmacKey hmacKey body).out = some bytes) :
    ∃ key : ByteVec 32, hmacKey = key.toList
      ∧ withHmacKey hmacKey body = body key := by
  by_cases hk : hmacKey.length = 32
  · exact ⟨⟨hmacKey, hk⟩, rfl, by rw [withHmacKey, dif_pos hk]⟩
  · rw [withHmacKey, dif_neg hk] at hout
    cases hout

@[simp] theorem withHmacKey_vec (key : ByteVec 32)
    (body : ByteVec 32 → FfiReturn) :
    withHmacKey key.toList body = body key := by
  rw [withHmacKey, dif_pos key.toList_length]
  rfl

theorem withHeader_out {data : Bytes} {body : VaultHeader → FfiReturn}
    {bytes : Bytes} (hout : (withHeader data body).out = some bytes) :
    ∃ h, VaultHeader.read data = .ok h ∧ withHeader data body = body h := by
  unfold withHeader at hout ⊢
  cases hr : VaultHeader.read data with
  | error e => rw [hr] at hout; cases hout
  | ok h => exact ⟨h, rfl, rfl⟩

theorem withHeader_ok {data : Bytes} {h : VaultHeader}
    (hr : VaultHeader.read data = .ok h) (body : VaultHeader → FfiReturn) :
    withHeader data body = body h := by
  rw [withHeader, hr]

/-- A keyed call with output had a key of 32 bytes and a header to read. -/
theorem keyed_out {data hmacKey bytes : Bytes}
    {body : ByteVec 32 → VaultHeader → FfiReturn}
    (hout : (withHmacKey hmacKey fun key => withHeader data (body key)).out
      = some bytes) :
    ∃ (key : ByteVec 32) (h : VaultHeader), hmacKey = key.toList
      ∧ VaultHeader.read data = .ok h
      ∧ (withHmacKey hmacKey fun key => withHeader data (body key)) = body key h := by
  obtain ⟨key, hkey, hbody⟩ := withHmacKey_out hout
  rw [hbody] at hout
  obtain ⟨h, hr, hheader⟩ := withHeader_out hout
  exact ⟨key, h, hkey, hr, hbody.trans hheader⟩

theorem Effect.of_emitHeader {P : Primitives} {op : HeaderOp}
    {data bytes : Bytes} {h h' : VaultHeader} {code : Int} {cap : Nat}
    (he : Effect P h op code h') (hr : VaultHeader.read data = .ok h)
    (hout : (emitHeader code cap h').out = some bytes) :
    ∃ h₀ h₁, VaultHeader.read data = .ok h₀
      ∧ Effect P h₀ op (emitHeader code cap h').code h₁
      ∧ h₁.write = some bytes := by
  rw [emitHeader_code hout]
  exact ⟨h, h', hr, he, (emitHeader_out_iff.mp hout).1⟩

/-- **What a call with output has done**: it read the header, applied
one of the effects, and wrote the result. -/
theorem HeaderOp.call_out {P : Primitives} {op : HeaderOp}
    {data bytes : Bytes} (hout : (op.call P data).out = some bytes) :
    ∃ h h', VaultHeader.read data = .ok h
      ∧ Effect P h op (op.call P data).code h' ∧ h'.write = some bytes := by
  cases op with
  | failCounterIncrement entropy hmacKey cap =>
    simp only [call, usbvaultVaultFailCounterIncrement] at hout ⊢
    obtain ⟨key, h, rfl, hr, hbody⟩ := keyed_out hout
    rw [hbody] at hout ⊢
    cases hcount : h.readFailCounter P key with
    -- a tampered counter fails before anything is written
    | error e => rw [hcount] at hout; cases hout
    | ok current =>
      rw [hcount] at hout
      by_cases hge : saturatingAdd32 current 1 ≥ VaultHeader.MAX_FAIL_ATTEMPTS
      · simp only [if_pos hge] at hout ⊢
        exact (Effect.exceeded hcount hge).of_emitHeader hr hout
      · simp only [if_neg hge] at hout ⊢
        have hlt := UInt32.not_le.mp hge
        exact (Effect.incremented hcount hlt).of_emitHeader hr hout
  | failCounterReset hmacKey cap =>
    simp only [call, usbvaultVaultFailCounterReset] at hout ⊢
    obtain ⟨key, h, rfl, hr, hbody⟩ := keyed_out hout
    rw [hbody] at hout ⊢
    exact Effect.reset.of_emitHeader hr hout
  | commitIndex hmacKey off len cap =>
    simp only [call, usbvaultVaultCommitIndex] at hout ⊢
    obtain ⟨key, h, rfl, hr, hbody⟩ := keyed_out hout
    rw [hbody] at hout ⊢
    exact Effect.committed.of_emitHeader hr hout
  | selfDestruct entropy cap =>
    simp only [call, usbvaultVaultSelfDestruct] at hout ⊢
    obtain ⟨h, hr, hbody⟩ := withHeader_out hout
    rw [hbody] at hout ⊢
    exact Effect.wiped.of_emitHeader hr hout

/-- An effect is what the call writes: with `call_out`, the effects are
exactly the calls that reach the writer. -/
theorem Effect.call_eq {P : Primitives} {op : HeaderOp} {data : Bytes}
    {h h' : VaultHeader} {code : Int} (he : Effect P h op code h')
    (hr : VaultHeader.read data = .ok h) :
    op.call P data = emitHeader code op.outCapacity h' := by
  cases he with
  | incremented hread hlt =>
    simp only [HeaderOp.call, usbvaultVaultFailCounterIncrement,
      withHmacKey_vec, withHeader_ok hr, hread]
    exact if_neg (UInt32.not_le.mpr hlt)
  | exceeded hread hge =>
    simp only [HeaderOp.call, usbvaultVaultFailCounterIncrement,
      withHmacKey_vec, withHeader_ok hr, hread]
    exact if_pos hge
  | reset =>
    simp only [HeaderOp.call, usbvaultVaultFailCounterReset,
      withHmacKey_vec, withHeader_ok hr]
    rfl
  | committed =>
    simp only [HeaderOp.call, usbvaultVaultCommitIndex,
      withHmacKey_vec, withHeader_ok hr]
    rfl
  | wiped =>
    simp only [HeaderOp.call, usbvaultVaultSelfDestruct, withHeader_ok hr]
    rfl

/-! ## The format is kept -/

/-- The well-formed headers from V4 on, where every field is carried. -/
structure ModernForm (h : VaultHeader) : Prop where
  version : h.version = 4 ∨ h.version = 5 ∨ h.version = 6
  cipher : ∃ c, CipherId.fromByte h.cipherId = .ok c
  verifyCt : h.verifyCiphertext.length ≤ VaultHeader.MAX_VERIFY_CT_LEN
  identity : VaultHeader.BlockCarried h.identityBlock
  tfa : VaultHeader.BlockCarried h.tfaBlock
  failCounter : VaultHeader.BlockCarried h.failCounterBlock
  wrapped : VaultHeader.BlockCarried h.wrappedMek

theorem ModernForm.version_ge {h : VaultHeader} (hm : ModernForm h) :
    h.version ≥ 4 := by
  rcases hm.version with hv | hv | hv <;> rw [hv] <;> decide

theorem ModernForm.headerSize_eq {h : VaultHeader} (hm : ModernForm h) :
    VaultHeader.headerSize h.version = HEADER_SIZE_V6 := by
  rcases hm.version with h4 | h5 | h6
  · rw [h4]; rfl
  · rw [h5]; rfl
  · rw [h6]; rfl

theorem ModernForm.of_wellFormed {h : VaultHeader} (hwf : h.WellFormed)
    (hv : h.version ≥ 4) : ModernForm h where
  version := by
    rcases hwf.version with h2 | h2 | h2 | h2 | h2
    · rw [h2] at hv; exact absurd hv (by decide)
    · rw [h2] at hv; exact absurd hv (by decide)
    · exact .inl h2
    · exact .inr (.inl h2)
    · exact .inr (.inr h2)
  cipher := hwf.cipher
  verifyCt := hwf.verifyCt
  identity := hwf.identity
  tfa := hwf.tfa
  failCounter := hwf.failCounter
  wrapped := hwf.wrapped

theorem ModernForm.wellFormed {h : VaultHeader} (hm : ModernForm h) :
    h.WellFormed where
  version := by
    rcases hm.version with hv | hv | hv
    · exact .inr (.inr (.inl hv))
    · exact .inr (.inr (.inr (.inl hv)))
    · exact .inr (.inr (.inr (.inr hv)))
  cipher := hm.cipher
  verifyCt := hm.verifyCt
  identity := hm.identity
  tfa := hm.tfa
  failCounter := hm.failCounter
  wrapped := hm.wrapped
  noOptional := fun hlt =>
    absurd (UInt8.lt_of_lt_of_le hlt (by decide : (3 : UInt8) ≤ 4))
      (UInt8.not_lt.mpr hm.version_ge)
  noExtended := fun hlt => absurd hlt (UInt8.not_lt.mpr hm.version_ge)

theorem failCounterBlock_carried (P : Primitives) (key : ByteVec 32)
    (count : UInt32) (h : VaultHeader) :
    VaultHeader.BlockCarried (h.writeFailCounter P key count).failCounterBlock := by
  intro hempty
  have hlen := congrArg List.length (Option.some.inj hempty)
  simp at hlen

theorem ModernForm.upgrade {h : VaultHeader} (hm : ModernForm h) :
    ModernForm h.upgradeToV5IfEligible := by
  unfold VaultHeader.upgradeToV5IfEligible
  split_ifs
  · exact { hm with version := .inr (.inl rfl) }
  · exact hm

theorem ModernForm.flipIndexSlot {h : VaultHeader} (hm : ModernForm h)
    (off len : UInt32) : ModernForm (h.flipIndexSlot off len) := by
  unfold VaultHeader.flipIndexSlot
  split_ifs
  · exact { hm with }
  · exact { hm with }

theorem ModernForm.writeFailCounter {h : VaultHeader} (hm : ModernForm h)
    (P : Primitives) (key : ByteVec 32) (count : UInt32) :
    ModernForm (h.writeFailCounter P key count) :=
  { hm with failCounter := failCounterBlock_carried P key count h }

theorem ModernForm.setCommitCounter {h : VaultHeader} (hm : ModernForm h)
    (n : UInt64) : ModernForm { h with commitCounter := n } :=
  { hm with }

theorem ModernForm.incrementStateVersion {h : VaultHeader}
    (hm : ModernForm h) : ModernForm h.incrementStateVersion :=
  { hm with }

theorem ModernForm.setHeaderHmac {h : VaultHeader} (hm : ModernForm h)
    (mac : ByteVec 32) : ModernForm { h with headerHmac := mac } :=
  { hm with }

theorem ModernForm.resign {h : VaultHeader} (hm : ModernForm h)
    (P : Primitives) (key : ByteVec 32) : ModernForm (h.resign P key) :=
  hm.setHeaderHmac _

theorem ModernForm.counterUpdate {h : VaultHeader} (hm : ModernForm h)
    (P : Primitives) (key : ByteVec 32) (count : UInt32) :
    ModernForm (incrementedHeader P key count h) :=
  ((hm.writeFailCounter P key count).incrementStateVersion).resign P key

theorem ModernForm.resetHeader {h : VaultHeader} (hm : ModernForm h)
    (P : Primitives) (key : ByteVec 32) : ModernForm (resetHeader P key h) :=
  hm.upgrade.counterUpdate P key 0

theorem ModernForm.commitNewIndex {h : VaultHeader} (hm : ModernForm h)
    (P : Primitives) (key : ByteVec 32) (off len : UInt32) :
    ModernForm (h.commitNewIndex P key off len) :=
  ((hm.upgrade.flipIndexSlot off len).setCommitCounter
    _).incrementStateVersion.resign P key

theorem ModernForm.cryptoEraseFields {h : VaultHeader} (hm : ModernForm h)
    (entropy : VaultHeader.EraseEntropy) :
    ModernForm (h.cryptoEraseFields entropy) :=
  { hm with
    verifyCt := Nat.zero_le _
    identity := VaultHeader.blockCarried_none
    tfa := VaultHeader.blockCarried_none
    failCounter := VaultHeader.blockCarried_none
    wrapped := VaultHeader.blockCarried_none }

theorem ModernForm.selfDestruct {h : VaultHeader} (hm : ModernForm h)
    (P : Primitives) (key : ByteVec 32) (entropy : VaultHeader.EraseEntropy) :
    ModernForm (h.selfDestruct P key entropy) :=
  ((hm.cryptoEraseFields entropy).incrementStateVersion).resign P key

theorem ModernForm.selfDestructWipe {h : VaultHeader} (hm : ModernForm h)
    (entropy : VaultHeader.EraseEntropy) :
    ModernForm (h.selfDestructWipe entropy) :=
  ((hm.cryptoEraseFields entropy).incrementStateVersion).setHeaderHmac _

theorem Effect.modernForm {P : Primitives} {h h' : VaultHeader} {op : HeaderOp}
    {code : Int} (he : Effect P h op code h') (hm : ModernForm h) :
    ModernForm h' := by
  cases he with
  | incremented => exact hm.counterUpdate P _ _
  | exceeded => exact hm.selfDestruct P _ _
  | reset => exact hm.resetHeader P _
  | committed => exact hm.commitNewIndex P _ _ _
  | wiped => exact hm.selfDestructWipe _

/-- **Reading back the output of a call** on a V4+ header: the effect on
the header that was read. -/
theorem HeaderOp.call_read {P : Primitives} {op : HeaderOp}
    {data bytes : Bytes} {h : VaultHeader} (hr : VaultHeader.read data = .ok h)
    (hv : h.version ≥ 4) (hout : (op.call P data).out = some bytes) :
    ∃ h', Effect P h op (op.call P data).code h' ∧ ModernForm h'
      ∧ VaultHeader.read bytes = .ok h' := by
  obtain ⟨h₀, h', hr₀, he, hw⟩ := HeaderOp.call_out hout
  cases hr.symm.trans hr₀
  have hm : ModernForm h' :=
    he.modernForm (.of_wellFormed (VaultHeader.read_wellFormed hr) hv)
  exact ⟨h', he, hm, VaultHeader.read_of_write hm.wellFormed hw⟩

/-! ## The count a header carries -/

theorem readFailCounter_writeFailCounter (P : Primitives) (key : ByteVec 32)
    (count : UInt32) (h : VaultHeader) :
    (h.writeFailCounter P key count).readFailCounter P key = .ok count := by
  have hlen : (u32le count
      ++ (VaultHeader.computeFailCounterHmac P key count).toList).length = 36 := by
    rw [List.length_append, u32le_length, List.Vector.toList_length]
  have htake : (u32le count
      ++ (VaultHeader.computeFailCounterHmac P key count).toList).take 4
        = u32le count := List.take_left' (u32le_length count)
  have hdrop : (u32le count
      ++ (VaultHeader.computeFailCounterHmac P key count).toList).drop 4
        = (VaultHeader.computeFailCounterHmac P key count).toList :=
    List.drop_left' (u32le_length count)
  simp only [VaultHeader.readFailCounter, VaultHeader.writeFailCounter, hlen,
    htake, hdrop, u32OfLe_u32le, ne_eq, not_true_eq_false, if_false]

theorem failCounterBlock_upgrade (h : VaultHeader) :
    h.upgradeToV5IfEligible.failCounterBlock = h.failCounterBlock := by
  unfold VaultHeader.upgradeToV5IfEligible
  split_ifs <;> rfl

theorem failCounterBlock_flipIndexSlot (off len : UInt32) (h : VaultHeader) :
    (h.flipIndexSlot off len).failCounterBlock = h.failCounterBlock := by
  unfold VaultHeader.flipIndexSlot
  split_ifs <;> rfl

theorem failCounterBlock_commitNewIndex (P : Primitives) (key : ByteVec 32)
    (off len : UInt32) (h : VaultHeader) :
    (h.commitNewIndex P key off len).failCounterBlock = h.failCounterBlock := by
  have hflip := failCounterBlock_flipIndexSlot off len h.upgradeToV5IfEligible
  rw [failCounterBlock_upgrade] at hflip
  rw [← hflip, VaultHeader.commitNewIndex]
  generalize h.upgradeToV5IfEligible.flipIndexSlot off len = g
  rfl

theorem readFailCounter_congr {h h' : VaultHeader}
    (hblock : h'.failCounterBlock = h.failCounterBlock) (P : Primitives)
    (key : ByteVec 32) : h'.readFailCounter P key = h.readFailCounter P key := by
  unfold VaultHeader.readFailCounter
  rw [hblock]

theorem readFailCounter_counterUpdate (P : Primitives) (key : ByteVec 32)
    (count : UInt32) (h : VaultHeader) :
    (incrementedHeader P key count h).readFailCounter P key = .ok count :=
  (readFailCounter_congr rfl P key).trans
    (readFailCounter_writeFailCounter P key count h)

theorem readFailCounter_commitNewIndex (P : Primitives) (key key' : ByteVec 32)
    (off len : UInt32) (h : VaultHeader) :
    (h.commitNewIndex P key' off len).readFailCounter P key
      = h.readFailCounter P key :=
  readFailCounter_congr (failCounterBlock_commitNewIndex P key' off len h) P key

/-! ## Room for the fail counter

A header of the fixed size that also fits with a 36-byte fail-counter
block stays one under every operation, so no call on it panics. -/

/-- The encoding fits, also with a 36-byte fail-counter block. -/
structure Roomy (h : VaultHeader) : Prop where
  fits : h.Fits
  fitsCounter : VaultHeader.Fits { h with failCounterBlock := some (zeros 36) }

/-- The length of the encoding without the fail-counter block's bytes. -/
def restLen (h : VaultHeader) : Nat :=
  159 + h.verifyCiphertext.length + VaultHeader.blockSize h.identityBlock
    + VaultHeader.blockSize h.tfaBlock + VaultHeader.blockSize h.wrappedMek

theorem fits_iff_restLen {h : VaultHeader}
    (hv : h.version = 4 ∨ h.version = 5 ∨ h.version = 6) :
    h.Fits ↔ restLen h + VaultHeader.blockSize h.failCounterBlock ≤ 24576 := by
  have h3 : h.version ≥ 3 := by rcases hv with h4 | h5 | h6 <;> simp [*]
  have h4 : h.version ≥ 4 := by rcases hv with h4 | h5 | h6 <;> simp [*]
  have hsize : VaultHeader.headerSize h.version = 24576 := by
    rcases hv with h4 | h5 | h6
    · rw [h4]; rfl
    · rw [h5]; rfl
    · rw [h6]; rfl
  rw [VaultHeader.Fits, VaultHeader.encodedLen, if_pos h3, if_pos h4, hsize,
    restLen]
  omega

theorem ModernForm.fits_iff {h : VaultHeader} (hm : ModernForm h) :
    h.Fits ↔ restLen h + VaultHeader.blockSize h.failCounterBlock ≤ 24576 :=
  fits_iff_restLen hm.version

theorem ModernForm.roomy_iff {h : VaultHeader} (hm : ModernForm h) :
    Roomy h ↔ restLen h + VaultHeader.blockSize h.failCounterBlock ≤ 24576
      ∧ restLen h + 36 ≤ 24576 := by
  have hm' : ModernForm { h with failCounterBlock := some (zeros 36) } :=
    { hm with failCounter := VaultHeader.blockCarried_zeros (by decide) }
  have h36 : restLen { h with failCounterBlock := some (zeros 36) }
      + VaultHeader.blockSize (some (zeros 36)) = restLen h + 36 := rfl
  constructor
  · rintro ⟨hf, hc⟩
    exact ⟨hm.fits_iff.mp hf, by rw [← h36]; exact hm'.fits_iff.mp hc⟩
  · rintro ⟨hf, hc⟩
    exact ⟨hm.fits_iff.mpr hf, hm'.fits_iff.mpr (by rw [h36]; exact hc)⟩

theorem restLen_upgrade (h : VaultHeader) :
    restLen h.upgradeToV5IfEligible = restLen h := by
  unfold VaultHeader.upgradeToV5IfEligible
  split_ifs <;> rfl

theorem restLen_flipIndexSlot (off len : UInt32) (h : VaultHeader) :
    restLen (h.flipIndexSlot off len) = restLen h := by
  unfold VaultHeader.flipIndexSlot
  split_ifs <;> rfl

theorem blockSize_writeFailCounter (P : Primitives) (key : ByteVec 32)
    (count : UInt32) (h : VaultHeader) :
    VaultHeader.blockSize (h.writeFailCounter P key count).failCounterBlock
      = 36 := by
  show (u32le count ++ (VaultHeader.computeFailCounterHmac P key count).toList).length
    = 36
  rw [List.length_append, u32le_length, List.Vector.toList_length]

/-- What an increment or a reset writes is as long as what it read, but
for the fail-counter block, which is 36 bytes then. -/
theorem restLen_counterUpdate (P : Primitives) (key : ByteVec 32)
    (count : UInt32) (h : VaultHeader) :
    restLen (incrementedHeader P key count h) = restLen h := rfl

theorem blockSize_counterUpdate (P : Primitives) (key : ByteVec 32)
    (count : UInt32) (h : VaultHeader) :
    VaultHeader.blockSize (incrementedHeader P key count h).failCounterBlock
      = 36 :=
  blockSize_writeFailCounter P key count h

theorem resetHeader_eq (P : Primitives) (key : ByteVec 32) (h : VaultHeader) :
    resetHeader P key h = incrementedHeader P key 0 h.upgradeToV5IfEligible :=
  rfl

theorem restLen_commitNewIndex (P : Primitives) (key : ByteVec 32)
    (off len : UInt32) (h : VaultHeader) :
    restLen (h.commitNewIndex P key off len) = restLen h := by
  have hcommit : restLen (h.commitNewIndex P key off len)
      = restLen (h.upgradeToV5IfEligible.flipIndexSlot off len) := by
    simp only [restLen, VaultHeader.commitNewIndex, VaultHeader.resign,
      VaultHeader.incrementStateVersion]
  rw [hcommit, restLen_flipIndexSlot, restLen_upgrade]

theorem erased_restLen (entropy : VaultHeader.EraseEntropy) (h : VaultHeader) :
    restLen (h.cryptoEraseFields entropy)
        + VaultHeader.blockSize (h.cryptoEraseFields entropy).failCounterBlock
      ≤ 24576
      ∧ restLen (h.cryptoEraseFields entropy) + 36 ≤ 24576 := by
  have hrest : restLen (h.cryptoEraseFields entropy) = 159 := rfl
  have hblock :
      VaultHeader.blockSize (h.cryptoEraseFields entropy).failCounterBlock = 0 :=
    rfl
  omega

theorem Effect.roomy {P : Primitives} {h h' : VaultHeader} {op : HeaderOp}
    {code : Int} (he : Effect P h op code h') (hm : ModernForm h)
    (hroom : Roomy h) : Roomy h' := by
  have hm' : ModernForm h' := he.modernForm hm
  obtain ⟨hf, hc⟩ := hm.roomy_iff.mp hroom
  refine hm'.roomy_iff.mpr ?_
  -- a re-signing call keeps every length but the counter block's
  cases he with
  | incremented =>
    rw [restLen_counterUpdate, blockSize_counterUpdate]
    exact ⟨hc, hc⟩
  | reset =>
    rw [resetHeader_eq, restLen_counterUpdate, blockSize_counterUpdate,
      restLen_upgrade]
    exact ⟨hc, hc⟩
  | committed =>
    rw [restLen_commitNewIndex, failCounterBlock_commitNewIndex]
    exact ⟨hf, hc⟩
  | @exceeded entropy => exact erased_restLen entropy h
  | @wiped entropy => exact erased_restLen entropy h

/-- A header that fits is written to any buffer of the header size. -/
theorem emitHeader_of_fits {cap : Nat} {h : VaultHeader} (code : Int)
    (hf : h.Fits) (hcap : 24576 ≤ cap) :
    ∃ bytes, h.write = some bytes ∧ emitHeader code cap h = ⟨code, some bytes⟩ := by
  have hw := VaultHeader.write_of_fits hf
  refine ⟨_, hw, ?_⟩
  have hlen := VaultHeader.write_length hw
  have hle := VaultHeader.headerSize_le h.version
  simp only [emitHeader, hw]
  exact if_neg (by omega)

/-- **A call on a roomy header goes through**: with a buffer of the
header size, an effect that is enabled is carried out, and its output
reads back to the header it wrote. -/
theorem Effect.call_roomy {P : Primitives} {op : HeaderOp} {data : Bytes}
    {h h' : VaultHeader} {code : Int} (he : Effect P h op code h')
    (hr : VaultHeader.read data = .ok h) (hm : ModernForm h)
    (hroom : Roomy h) (hcap : 24576 ≤ op.outCapacity) :
    ∃ bytes, op.call P data = ⟨code, some bytes⟩
      ∧ VaultHeader.read bytes = .ok h' := by
  have hm' : ModernForm h' := he.modernForm hm
  obtain ⟨bytes, hw, hemit⟩ :=
    emitHeader_of_fits code (he.roomy hm hroom).fits hcap
  exact ⟨bytes, (he.call_eq hr).trans hemit,
    VaultHeader.read_of_write hm'.wellFormed hw⟩

theorem Effect.succeed_roomy {P : Primitives} {op : HeaderOp} {data : Bytes}
    {h h' : VaultHeader} (he : Effect P h op ERR_SUCCESS h')
    (hr : VaultHeader.read data = .ok h) (hm : ModernForm h)
    (hroom : Roomy h) (hcap : 24576 ≤ op.outCapacity) :
    ∃ bytes, op.succeed P data = some bytes
      ∧ VaultHeader.read bytes = .ok h' := by
  obtain ⟨bytes, hcall, hr'⟩ := he.call_roomy hr hm hroom hcap
  exact ⟨bytes, by rw [HeaderOp.succeed, hcall]; rfl, hr'⟩

/-! ## A concrete vault

A V4 header whose seals open with any password under the transparent
primitives. -/

def sampleVault : VaultHeader :=
  { VaultHeader.sampleHeader with
    version := 4
    verifyCiphertext := VaultHeader.VERIFY_PLAINTEXT ++ zeros 16 }

theorem sampleVault_modern : ModernForm sampleVault where
  version := .inl rfl
  cipher := ⟨.xchacha20Poly1305, rfl⟩
  verifyCt := by decide
  identity := VaultHeader.blockCarried_none
  tfa := VaultHeader.blockCarried_none
  failCounter := VaultHeader.blockCarried_zeros (by decide)
  wrapped := VaultHeader.blockCarried_zeros (by decide)

theorem sampleVault_roomy : Roomy sampleVault :=
  sampleVault_modern.roomy_iff.mpr ⟨by decide, by decide⟩

theorem Roomy.stored {h : VaultHeader} (hroom : Roomy h) (hm : ModernForm h) :
    ∃ data, VaultHeader.read data = .ok h := by
  have hw := VaultHeader.write_of_fits hroom.fits
  exact ⟨_, VaultHeader.read_of_write hm.wellFormed hw⟩

end UsbVault
