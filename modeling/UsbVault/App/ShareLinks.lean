import Mathlib.Logic.Function.Basic
import UsbVault.Crypto.Primitives
import UsbVault.Lib.Calls
import UsbVault.Lib.Digits
import UsbVault.Lib.Keyed
import UsbVault.Lib.Utf8

/-!
# Share links

The external shares, which are opened with a token and perhaps a PIN, and the
shares of the portal, which are downloaded. `accessShare` checks a share, awaits
the decryption, and then counts; `recordDownload` only counts; and a token has an
expiry of its own, which an extension leaves as it is.

`Honoured` says of each step of a run that it respects the limits of the share.
It holds along every run in which nothing happens to a share between the checks
of a call and its opening, and the portal is asked before each download
(`honoured_run`).
-/

namespace UsbVault.App.ShareLinks

open Wire Digits Calls

/-! ## External shares -/

inductive Status where
  | active
  | expired
  | revoked
  deriving DecidableEq, Repr

def Status.text : Status → String
  | .active => "active"
  | .expired => "expired"
  | .revoked => "revoked"

/-- What `verifyShareToken` reads of a token; the signature is not verified. -/
structure Token where
  shareId : String
  expiresAt : Nat
  deriving DecidableEq, Repr

/-- Dates are in milliseconds; `pin` is the hash. The code keeps all but the
last four: the file's content, the PIN, whether the share has been extended,
and how often it has been opened. -/
structure ExternalShare where
  token : Token
  encryptedContentHex : List Char
  shareKeyHex : List Char
  pin : Option (List Char)
  expiresAt : Nat
  maxAccessCount : Option Nat
  accessCount : Nat
  status : Status
  content : Bytes
  secretPin : Option String
  extended : Bool
  opened : Nat

/-- AES-GCM and SHA-256 of the browser. -/
structure Env where
  aesGcm : Aead 12
  sha256 : Bytes → ByteVec 32

variable (E : Env)

def hashPin (pin : String) : List Char := encodeHex (E.sha256 (Utf8.encode pin.toList)).toList

def hours (n : Nat) : Nat := n * 60 * 60 * 1000

def generateShareId (now : Nat) (randomBytes : Bytes) : String :=
  String.ofList ("share-".toList ++ Nat.toDigits 10 now ++ '-' :: encodeHex randomBytes)

/-- Four or six digits. -/
def generateRandomPin (six : Bool) (random : Nat) : String :=
  String.ofList (if six then padded 6 (random % 10 ^ 6) else padded 4 (random % 10 ^ 4))

/-- What `createShare` stores, with the PIN it has generated if one is required. -/
def createShare (shareId : String) (createdAt : Nat) (fileContent : Bytes) (shareKey : ByteVec 32)
    (iv : ByteVec 12) (expiryHours : Nat) (pin : Option String) (maxAccess : Option Nat) :
    Option ExternalShare :=
  (E.aesGcm.encrypt shareKey iv [] fileContent).map fun encrypted =>
    { token := ⟨shareId, createdAt + hours expiryHours⟩
      encryptedContentHex := encodeHex (iv.toList ++ encrypted)
      shareKeyHex := encodeHex shareKey.toList
      pin := pin.map (hashPin E)
      expiresAt := createdAt + hours expiryHours
      maxAccessCount := maxAccess
      accessCount := 0
      status := .active
      content := fileContent
      secretPin := pin
      extended := false
      opened := 0 }

/-- The content, with the key and the nonce that are stored. -/
def decryptContent (share : ExternalShare) : Option Bytes :=
  let encryptedBytes := decodeHex share.encryptedContentHex
  let shareKey := decodeHex share.shareKeyHex
  if h : shareKey.length = 32 ∧ (encryptedBytes.take 12).length = 12 then
    E.aesGcm.decrypt ⟨shareKey, h.1⟩ ⟨encryptedBytes.take 12, h.2⟩ [] (encryptedBytes.drop 12)
  else none

/-! ## Shares of the portal -/

structure PortalConfig where
  defaultExpiry : Nat
  maxExpiry : Nat
  requirePin : Bool
  maxDownloads : Nat
  deriving DecidableEq, Repr

def defaultConfig : PortalConfig := ⟨24, 720, false, 10⟩

structure PortalShare where
  id : String
  accessPin : Option String
  expiresAt : Nat
  maxDownloads : Nat
  downloadCount : Nat
  createdAt : Nat
  isActive : Bool
  deriving DecidableEq, Repr

/-! ## The services -/

structure Store where
  clock : Nat
  shares : String → Option ExternalShare
  portalShares : List PortalShare
  portalConfig : PortalConfig

def Store.initial : Store := ⟨0, fun _ => none, [], defaultConfig⟩

/-- A call of `accessShare` at an await, by what comes next, or at its end. -/
inductive Pc where
  | verified (shareId : String) (pin : Option String)
  | hashing (shareId : String) (pin : String)
  | decrypting (shareId : String) (pin : Option String)
  | opened (content : Bytes)
  | failed (message : String)
  deriving DecidableEq, Repr

/-- Whether what a call awaits ends well, whether the shares can be stored, and
the message of the error if not. -/
structure Outcome where
  works : Bool
  stores : Bool
  message : String
  deriving DecidableEq, Repr

def accessFailed (message : String) : Pc := .failed s!"Failed to access share: {message}"

namespace Store

def setShare (shareId : String) (share : ExternalShare) (st : Store) : Store :=
  { st with shares := Function.update st.shares shareId (some share) }

@[simp] theorem setShare_self (shareId : String) (share : ExternalShare) (st : Store) :
    (st.setShare shareId share).shares shareId = some share :=
  Function.update_self _ _ _

theorem setShare_of_ne {shareId id : String} (hid : id ≠ shareId) (share : ExternalShare)
    (st : Store) : (st.setShare shareId share).shares id = st.shares id :=
  Function.update_of_ne hid _ _

/-- `accessShare` up to its first await. A token that cannot be read is none. -/
def verifyShareToken (token : Option Token) (pin : Option String) (st : Store) : Pc :=
  match token with
  | none => accessFailed "Invalid token format"
  | some token =>
    if token.shareId = "" then accessFailed "Invalid token payload"
    else if token.expiresAt < st.clock then accessFailed "Token expired"
    else .verified token.shareId pin

/-- The checks of `accessShare`, up to its next await. -/
def checkShare (shareId : String) (pin : Option String) (st : Store) : Store × Pc :=
  match st.shares shareId with
  | none => (st, accessFailed "Share not found")
  | some share =>
    if share.status ≠ .active then (st, accessFailed s!"Share is {share.status.text}")
    else if share.expiresAt < st.clock then
      (st.setShare shareId { share with status := .expired }, accessFailed "Share has expired")
    else if share.maxAccessCount.any fun max => max ≤ share.accessCount then
      (st, accessFailed "Maximum access count reached")
    else if share.pin.isNone then (st, .decrypting shareId pin)
    else
      match pin.filter fun pin => pin ≠ "" with
      | none => (st, accessFailed "PIN required for this share")
      | some pin => (st, .hashing shareId pin)

def revokeExternalShare (shareId : String) (st : Store) : Store :=
  match st.shares shareId with
  | none => st
  | some share => st.setShare shareId { share with status := .revoked }

def extendShare (shareId : String) (additionalHours : Nat) (st : Store) : Store :=
  match st.shares shareId with
  | none => st
  | some share =>
    if share.status = .active then
      st.setShare shareId
        { share with expiresAt := share.expiresAt + hours additionalHours, extended := true }
    else st

/-! ### The portal -/

def findPortalShare (shareId : String) (st : Store) : Option PortalShare :=
  Keyed.find PortalShare.id shareId st.portalShares

def updatePortalShare (share : PortalShare) (st : Store) : Store :=
  { st with portalShares := Keyed.upsert PortalShare.id share st.portalShares }

def createPortalShare (shareId : String) (accessPin : Option String)
    (expiresAt maxDownloads : Option Nat) (st : Store) : Store :=
  { st with
    portalShares := st.portalShares ++
      [⟨shareId, accessPin, expiresAt.getD (st.clock + hours st.portalConfig.defaultExpiry),
        maxDownloads.getD st.portalConfig.maxDownloads, 0, st.clock, true⟩] }

def validateAccess (shareId : String) (pin : Option String) (st : Store) :
    Store × Except String PortalShare :=
  match st.findPortalShare shareId with
  | none => (st, .error "Share not found")
  | some share =>
    if share.isActive = false then (st, .error "Share has been revoked")
    else if share.expiresAt < st.clock then
      (st.updatePortalShare { share with isActive := false }, .error "Share has expired")
    else if share.maxDownloads ≤ share.downloadCount then
      (st, .error "Maximum downloads exceeded")
    else if st.portalConfig.requirePin ∧ (share.accessPin.any fun p => p ≠ "" ∧ pin ≠ some p) then
      (st, .error "Invalid access PIN")
    else (st, .ok share)

def recordDownload (shareId : String) (st : Store) : Store :=
  match st.findPortalShare shareId with
  | none => st
  | some share =>
    st.updatePortalShare { share with downloadCount := share.downloadCount + 1 }

def revokePortalShare (shareId : String) (st : Store) : Store :=
  match st.findPortalShare shareId with
  | none => st
  | some share => st.updatePortalShare { share with isActive := false }

def extendPortalExpiry (shareId : String) (additionalHours : Nat) (st : Store) : Store :=
  match st.findPortalShare shareId with
  | none => st
  | some share =>
    let newExpiry := st.clock + hours additionalHours
    if newExpiry - share.createdAt ≤ hours st.portalConfig.maxExpiry then
      st.updatePortalShare { share with expiresAt := newExpiry }
    else st

end Store

/-- The end of `accessShare`, when the content is there: it counts, and fails
if the shares cannot be stored. -/
def openShare (shareId : String) (share : ExternalShare) (content : Bytes) (o : Outcome)
    (st : Store) : Store × Pc :=
  let counted := { share with accessCount := share.accessCount + 1 }
  if o.stores then
    (st.setShare shareId { counted with opened := share.opened + 1 }, .opened content)
  else (st.setShare shareId counted, accessFailed o.message)

def exec (_ : Nat) (st : Store) (pc : Pc) (o : Outcome) : Store × Pc :=
  match pc with
  | .verified shareId pin => st.checkShare shareId pin
  | .hashing shareId pin =>
    -- an error of the hash counts as a wrong PIN
    if o.works ∧ (st.shares shareId).any fun share => share.pin = some (hashPin E pin) then
      (st, .decrypting shareId (some pin))
    else (st, accessFailed "Invalid PIN")
  | .decrypting shareId _ =>
    match st.shares shareId with
    | none => (st, accessFailed "Share not found")
    | some share =>
      match if o.works then decryptContent E share else none with
      | none => (st, accessFailed o.message)
      | some content => openShare shareId share content o st
  | .opened content => (st, .opened content)
  | .failed message => (st, .failed message)

inductive Event where
  | advance (ms : Nat)
  | createShare (elapsed : Nat) (randomBytes fileContent : Bytes) (shareKey : ByteVec 32)
      (iv : ByteVec 12) (expiryHours : Nat) (pin : Option (Bool × Nat)) (maxAccess : Option Nat)
  | accessShare (token : Option Token) (pin : Option String)
  | revokeExternalShare (shareId : String)
  | extendShare (shareId : String) (additionalHours : Nat)
  | createPortalShare (shareId : String) (accessPin : Option String)
      (expiresAt maxDownloads : Option Nat)
  | validateAccess (shareId : String) (pin : Option String)
  | recordDownload (shareId : String)
  | revokePortalShare (shareId : String)
  | extendPortalExpiry (shareId : String) (additionalHours : Nat)
  | updatePortalConfig (config : PortalConfig)

def world (st : Store) : Event → Store × Option Pc
  | .advance ms => ({ st with clock := st.clock + ms }, none)
  | .createShare elapsed randomBytes fileContent shareKey iv expiryHours pin maxAccess =>
    let createdAt := st.clock - elapsed
    let shareId := generateShareId createdAt randomBytes
    match createShare E shareId createdAt fileContent shareKey iv expiryHours
        (pin.map fun random => generateRandomPin random.1 random.2) maxAccess with
    | none => (st, none)
    | some share => (st.setShare shareId share, none)
  | .accessShare token pin => (st, some (st.verifyShareToken token pin))
  | .revokeExternalShare shareId => (st.revokeExternalShare shareId, none)
  | .extendShare shareId additionalHours => (st.extendShare shareId additionalHours, none)
  | .createPortalShare shareId accessPin expiresAt maxDownloads =>
    (st.createPortalShare shareId accessPin expiresAt maxDownloads, none)
  | .validateAccess shareId pin => ((st.validateAccess shareId pin).1, none)
  | .recordDownload shareId => (st.recordDownload shareId, none)
  | .revokePortalShare shareId => (st.revokePortalShare shareId, none)
  | .extendPortalExpiry shareId additionalHours =>
    (st.extendPortalExpiry shareId additionalHours, none)
  | .updatePortalConfig config => ({ st with portalConfig := config }, none)

def service : Service Store Pc Event Outcome := ⟨world E, exec E⟩

/-! ## Limits -/

/-- The share which a call has checked and not yet opened. -/
def Pc.awaits : Pc → Option String
  | .verified _ _ => none
  | .hashing shareId _ => some shareId
  | .decrypting shareId _ => some shareId
  | .opened _ => none
  | .failed _ => none

namespace ExternalShare

def Open (now : Nat) (share : ExternalShare) : Prop :=
  share.status = .active ∧ now ≤ share.expiresAt
    ∧ ∀ max ∈ share.maxAccessCount, share.accessCount < max

def KnowsPin (share : ExternalShare) (pin : Option String) : Prop :=
  ∀ secret ∈ share.secretPin, pin = some secret

end ExternalShare

namespace PortalShare

def Open (now : Nat) (share : PortalShare) : Prop :=
  share.isActive = true ∧ now ≤ share.expiresAt ∧ share.downloadCount < share.maxDownloads

/-- No PIN is set by an empty text. -/
def KnowsPin (share : PortalShare) (pin : Option String) : Prop :=
  ∀ secret ∈ share.accessPin, secret ≠ "" → pin = some secret

end PortalShare

/-- The call alone opens the share. -/
def Opens (st : Store) (k : Nat) (pc : Pc) (content : Bytes) : Prop :=
  ∃ st', Service.Reaches (service E) k ⟨true, true, ""⟩ st pc st' (.opened content)

/-- A share is opened, granted and downloaded within its limits only, and with
its token as long as it has not expired once it has been extended. -/
def Honoured (s : State Store Pc) : Action Event Outcome → Prop
  | .exec k o => ∀ pc content, s.calls[k]? = some pc → pc ≠ .opened content →
      (exec E k s.store pc o).2 = .opened content →
      ∃ shareId pin share, pc = .decrypting shareId pin ∧ s.store.shares shareId = some share
        ∧ share.status = .active ∧ s.store.clock ≤ share.expiresAt
        ∧ (∀ max ∈ share.maxAccessCount, share.opened < max) ∧ share.KnowsPin pin
  | .world (.accessShare (some token) pin) => ∀ share,
      s.store.shares token.shareId = some share → share.token = token → share.extended = true →
      share.Open s.store.clock → share.KnowsPin pin →
      Opens E s.store s.calls.length (s.store.verifyShareToken (some token) pin) share.content
  | .world (.validateAccess shareId pin) => ∀ share,
      (s.store.validateAccess shareId pin).2 = .ok share →
      share.Open s.store.clock ∧ share.KnowsPin pin
  | .world (.recordDownload shareId) => ∀ share,
      s.store.findPortalShare shareId = some share → share.Open s.store.clock
  | .world _ => True

/-- No share has been opened or downloaded more often than it may. -/
structure WithinLimits (st : Store) : Prop where
  opened : ∀ shareId share, st.shares shareId = some share →
    ∀ max ∈ share.maxAccessCount, share.opened ≤ max
  downloads : ∀ share ∈ st.portalShares, share.downloadCount ≤ share.maxDownloads

/-- The condition. A share that a call has checked does not expire, is not
revoked and is not used up before the call opens it; an extended share is
opened while its token has not expired; the portal is set to require the PIN,
and has just granted what is downloaded. An id is not drawn twice, and no PIN
is tried that has the hash of another. -/
def Careful (s : State Store Pc) : Action Event Outcome → Prop
  | .world (.advance ms) => ∀ pc ∈ s.calls, ∀ shareId ∈ pc.awaits,
      ∀ share ∈ s.store.shares shareId, s.store.clock + ms ≤ share.expiresAt
  | .world (.createShare elapsed randomBytes _ _ _ _ _ _) =>
    s.store.shares (generateShareId (s.store.clock - elapsed) randomBytes) = none
  | .world (.accessShare (some token) _) => ∀ share ∈ s.store.shares token.shareId,
      share.token = token → share.extended = true → share.Open s.store.clock →
      s.store.clock ≤ token.expiresAt
  | .world (.revokeExternalShare shareId) => ∀ pc ∈ s.calls, pc.awaits ≠ some shareId
  | .world (.validateAccess shareId pin) => ∀ share ∈ s.store.findPortalShare shareId,
      share.Open s.store.clock → s.store.portalConfig.requirePin = true ∨ share.KnowsPin pin
  | .world (.recordDownload shareId) => ∀ share ∈ s.store.findPortalShare shareId,
      (s.store.validateAccess shareId share.accessPin).2 = .ok share
  | .exec k _ =>
    match s.calls[k]? with
    | some (.hashing shareId pin) => ∀ share ∈ s.store.shares shareId,
        ∀ secret ∈ share.secretPin, hashPin E pin = hashPin E secret → pin = secret
    | some (.decrypting shareId _) => ∀ share ∈ s.store.shares shareId,
        ∀ max ∈ share.maxAccessCount, share.accessCount + 1 < max
          ∨ ∀ pc ∈ s.calls.eraseIdx k, pc.awaits ≠ some shareId
    | _ => True
  | .world _ => True

instance (now : Nat) (share : ExternalShare) : Decidable (share.Open now) :=
  inferInstanceAs (Decidable (_ ∧ _ ∧ ∀ max ∈ share.maxAccessCount, share.accessCount < max))

instance (now : Nat) (share : PortalShare) : Decidable (share.Open now) :=
  inferInstanceAs (Decidable (_ ∧ _ ∧ _))

instance (share : PortalShare) (pin : Option String) : Decidable (share.KnowsPin pin) :=
  inferInstanceAs (Decidable (∀ secret ∈ share.accessPin, secret ≠ "" → pin = some secret))

instance Careful.decidable (s : State Store Pc) :
    (a : Action Event Outcome) → Decidable (Careful E s a)
  | .world (.advance ms) => inferInstanceAs (Decidable (∀ pc ∈ s.calls, ∀ shareId ∈ pc.awaits,
      ∀ share ∈ s.store.shares shareId, s.store.clock + ms ≤ share.expiresAt))
  | .world (.createShare elapsed randomBytes _ _ _ _ _ _) =>
    decidable_of_iff
      ((s.store.shares (generateShareId (s.store.clock - elapsed) randomBytes)).isNone = true)
      Option.isNone_iff_eq_none
  | .world (.accessShare none _) => isTrue trivial
  | .world (.accessShare (some token) _) =>
    inferInstanceAs (Decidable (∀ share ∈ s.store.shares token.shareId,
      share.token = token → share.extended = true → share.Open s.store.clock →
      s.store.clock ≤ token.expiresAt))
  | .world (.revokeExternalShare shareId) =>
    inferInstanceAs (Decidable (∀ pc ∈ s.calls, pc.awaits ≠ some shareId))
  | .world (.validateAccess shareId pin) =>
    inferInstanceAs (Decidable (∀ share ∈ s.store.findPortalShare shareId,
      share.Open s.store.clock → s.store.portalConfig.requirePin = true ∨ share.KnowsPin pin))
  | .world (.recordDownload shareId) =>
    inferInstanceAs (Decidable (∀ share ∈ s.store.findPortalShare shareId,
      (s.store.validateAccess shareId share.accessPin).2 = .ok share))
  | .exec k _ =>
    match h : s.calls[k]? with
    | some (.hashing shareId pin) => decidable_of_iff (∀ share ∈ s.store.shares shareId,
        ∀ secret ∈ share.secretPin, hashPin E pin = hashPin E secret → pin = secret)
        (by rw [Careful, h])
    | some (.decrypting shareId _) => decidable_of_iff (∀ share ∈ s.store.shares shareId,
        ∀ max ∈ share.maxAccessCount, share.accessCount + 1 < max
          ∨ ∀ pc ∈ s.calls.eraseIdx k, pc.awaits ≠ some shareId) (by rw [Careful, h])
    | some (.verified _ _) => isTrue (by rw [Careful, h]; trivial)
    | some (.opened _) => isTrue (by rw [Careful, h]; trivial)
    | some (.failed _) => isTrue (by rw [Careful, h]; trivial)
    | none => isTrue (by rw [Careful, h]; trivial)
  | .world (.extendShare _ _) => isTrue trivial
  | .world (.createPortalShare _ _ _ _) => isTrue trivial
  | .world (.revokePortalShare _) => isTrue trivial
  | .world (.extendPortalExpiry _ _) => isTrue trivial
  | .world (.updatePortalConfig _) => isTrue trivial

/-! ## The shares -/

theorem generateShareId_ne_empty (now : Nat) (randomBytes : Bytes) :
    generateShareId now randomBytes ≠ "" := by
  intro h
  have hchars := String.ofList_eq_empty_iff.mp h
  have hlast := (List.append_eq_nil_iff.mp hchars).2
  exact List.cons_ne_nil _ _ hlast

theorem generateRandomPin_ne_empty (six : Bool) (random : Nat) :
    generateRandomPin six random ≠ "" := by
  intro h
  rw [generateRandomPin, String.ofList_eq_empty_iff] at h
  cases six with
  | true =>
    have hlength := length_padded (Nat.mod_lt random (by decide : 0 < 10 ^ 6)) (by decide)
    rw [if_pos rfl] at h
    rw [h] at hlength
    cases hlength
  | false =>
    have hlength := length_padded (Nat.mod_lt random (by decide : 0 < 10 ^ 4)) (by decide)
    rw [if_neg (by decide)] at h
    rw [h] at hlength
    cases hlength

/-- What is stored of a share can be read, and counts what it should. -/
structure ExternalShare.Stored (shareId : String) (share : ExternalShare) : Prop where
  shareId : shareId ≠ ""
  pin : share.pin = share.secretPin.map (hashPin E)
  secretPin : ∀ secret ∈ share.secretPin, secret ≠ ""
  content : decryptContent E share = some share.content
  opened : share.opened ≤ share.accessCount
  accessCount : ∀ max ∈ share.maxAccessCount, share.accessCount ≤ max

variable {E}

theorem ExternalShare.Stored.opened_le {shareId : String} {share : ExternalShare}
    (h : share.Stored E shareId) {max : Nat} (hmax : max ∈ share.maxAccessCount) :
    share.opened ≤ max :=
  h.opened.trans (h.accessCount max hmax)

theorem ExternalShare.Stored.marked {shareId : String} {share : ExternalShare}
    (h : share.Stored E shareId) (status : Status) (expiresAt : Nat) (extended : Bool) :
    ({ share with
      status := status, expiresAt := expiresAt, extended := extended }).Stored E shareId :=
  ⟨h.shareId, h.pin, h.secretPin, h.content, h.opened, h.accessCount⟩

theorem ExternalShare.Stored.counted {shareId : String} {share : ExternalShare}
    (h : share.Stored E shareId) {accessCount opened : Nat} (hopened : opened ≤ accessCount)
    (hcount : ∀ max ∈ share.maxAccessCount, accessCount ≤ max) :
    ({ share with accessCount := accessCount, opened := opened }).Stored E shareId :=
  ⟨h.shareId, h.pin, h.secretPin, h.content, hopened, hcount⟩

theorem createShare_stored (hcorrect : E.aesGcm.Correct) {shareId : String} {createdAt : Nat}
    {fileContent : Bytes} {shareKey : ByteVec 32} {iv : ByteVec 12} {expiryHours : Nat}
    {pin : Option String} {maxAccess : Option Nat} {share : ExternalShare}
    (hid : shareId ≠ "") (hpin : ∀ secret ∈ pin, secret ≠ "")
    (h : createShare E shareId createdAt fileContent shareKey iv expiryHours pin maxAccess
      = some share) : share.Stored E shareId := by
  obtain ⟨encrypted, hencrypted, rfl⟩ := Option.map_eq_some_iff.mp h
  refine ⟨hid, rfl, hpin, ?_, Nat.le_refl 0, fun max _ => Nat.zero_le max⟩
  have hiv : (iv.toList ++ encrypted).take 12 = iv.toList := by
    rw [List.take_append_of_le_length (by simp), List.take_of_length_le (by simp)]
  have hrest : (iv.toList ++ encrypted).drop 12 = encrypted := by
    rw [List.drop_append_of_le_length (by simp), List.drop_of_length_le (by simp)]
    rfl
  simp only [decryptContent, decodeHex_encodeHex, hiv, hrest]
  have hlengths : shareKey.toList.length = 32 ∧ iv.toList.length = 12 := by simp
  rw [dif_pos hlengths]
  exact hcorrect.decrypt_encrypt hencrypted

/-- The limits, as the code counts them. -/
structure StoreOk (E : Env) (st : Store) : Prop where
  shares : ∀ shareId share, st.shares shareId = some share → share.Stored E shareId
  portalShares : ∀ share ∈ st.portalShares, share.downloadCount ≤ share.maxDownloads

theorem StoreOk.withinLimits {st : Store} (h : StoreOk E st) : WithinLimits st where
  opened shareId share hshare _ hmax := (h.shares shareId share hshare).opened_le hmax
  downloads := h.portalShares

theorem initial_storeOk : StoreOk E .initial where
  shares := by rintro _ _ ⟨⟩
  portalShares := by rintro _ ⟨⟩

theorem StoreOk.setShare {st : Store} (h : StoreOk E st) {shareId : String} {share : ExternalShare}
    (hshare : share.Stored E shareId) : StoreOk E (st.setShare shareId share) where
  shares id other hother := by
    by_cases hid : id = shareId
    · subst hid
      rw [Store.setShare_self] at hother
      obtain rfl := Option.some.inj hother
      exact hshare
    · rw [Store.setShare_of_ne hid] at hother
      exact h.shares id other hother
  portalShares := h.portalShares

theorem StoreOk.updatePortalShare {st : Store} (h : StoreOk E st) {share : PortalShare}
    (hshare : share.downloadCount ≤ share.maxDownloads) :
    StoreOk E (st.updatePortalShare share) where
  shares := h.shares
  portalShares other hother := by
    rcases Keyed.of_mem_upsert hother with rfl | hmem
    · exact hshare
    · exact h.portalShares other hmem

theorem StoreOk.of_find {st : Store} (h : StoreOk E st) {shareId : String} {share : PortalShare}
    (hfind : st.findPortalShare shareId = some share) :
    share.downloadCount ≤ share.maxDownloads :=
  h.portalShares share (Keyed.mem_of_find hfind)

/-! ## The calls -/

/-- Up to the opening, the checks still hold. -/
def PcOk (st : Store) : Pc → Prop
  | .hashing shareId _ => ∃ share, st.shares shareId = some share ∧ share.Open st.clock
  | .decrypting shareId pin =>
    ∃ share, st.shares shareId = some share ∧ share.Open st.clock ∧ share.KnowsPin pin
  | _ => True

/-- A share that can be opened still can, with the same PIN. -/
def Keeps (st st' : Store) (shareId : String) : Prop :=
  ∀ share, st.shares shareId = some share → share.Open st.clock →
    ∃ share', st'.shares shareId = some share' ∧ share'.Open st'.clock
      ∧ share'.secretPin = share.secretPin

theorem PcOk.keeps {st st' : Store} {pc : Pc} (h : PcOk st pc)
    (hkeeps : ∀ shareId ∈ pc.awaits, Keeps st st' shareId) : PcOk st' pc := by
  cases pc with
  | verified shareId pin => trivial
  | hashing shareId pin =>
    obtain ⟨share, hshare, hopen⟩ := h
    obtain ⟨share', hshare', hopen', -⟩ := hkeeps shareId rfl share hshare hopen
    exact ⟨share', hshare', hopen'⟩
  | decrypting shareId pin =>
    obtain ⟨share, hshare, hopen, hpin⟩ := h
    obtain ⟨share', hshare', hopen', hsecret⟩ := hkeeps shareId rfl share hshare hopen
    refine ⟨share', hshare', hopen', ?_⟩
    rw [ExternalShare.KnowsPin, hsecret]
    exact hpin
  | opened content => trivial
  | failed message => trivial

theorem Keeps.of_eq {st st' : Store} {shareId : String}
    (hshares : st'.shares shareId = st.shares shareId) (hclock : st'.clock = st.clock) :
    Keeps st st' shareId := by
  intro share hshare hopen
  refine ⟨share, hshares.trans hshare, ?_, rfl⟩
  rw [hclock]
  exact hopen

theorem setShare_keeps_other {st : Store} {shareId id : String} {share : ExternalShare}
    (hid : id ≠ shareId) : Keeps st (st.setShare shareId share) id :=
  .of_eq (Store.setShare_of_ne hid share st) rfl

theorem setShare_keeps {st : Store} {shareId : String} {share share' : ExternalShare}
    (hshare : st.shares shareId = some share)
    (hopen : share.Open st.clock → share'.Open st.clock)
    (hsecret : share'.secretPin = share.secretPin) (id : String) : Keeps st (st.setShare shareId share') id := by
  by_cases hid : id = shareId
  · subst hid
    intro old hold hwas
    obtain rfl := Option.some.inj (hshare.symm.trans hold)
    exact ⟨share', Store.setShare_self id share' st, hopen hwas, hsecret⟩
  · exact setShare_keeps_other hid

/-- **What the checks of `accessShare` decide.** -/
theorem checkShare_cases (shareId : String) (pin : Option String) (st : Store) :
    (∃ message, st.checkShare shareId pin = (st, .failed message))
      ∨ (∃ share message, st.shares shareId = some share ∧ share.expiresAt < st.clock
          ∧ st.checkShare shareId pin
            = (st.setShare shareId { share with status := .expired }, .failed message))
      ∨ ∃ share, st.shares shareId = some share ∧ share.Open st.clock
          ∧ (share.pin = none ∧ st.checkShare shareId pin = (st, .decrypting shareId pin)
            ∨ ∃ given, st.checkShare shareId pin = (st, .hashing shareId given)) := by
  rw [Store.checkShare]
  cases hshare : st.shares shareId with
  | none => exact .inl ⟨_, rfl⟩
  | some share =>
    dsimp only
    by_cases hactive : share.status ≠ .active
    · rw [if_pos hactive]
      exact .inl ⟨_, rfl⟩
    rw [if_neg hactive]
    by_cases hexpired : share.expiresAt < st.clock
    · rw [if_pos hexpired]
      exact .inr (.inl ⟨share, _, rfl, hexpired, rfl⟩)
    rw [if_neg hexpired]
    by_cases hused : (share.maxAccessCount.any fun max => max ≤ share.accessCount) = true
    · rw [if_pos hused]
      exact .inl ⟨_, rfl⟩
    rw [if_neg hused]
    have hopen : share.Open st.clock := by
      refine ⟨not_not.mp hactive, Nat.le_of_not_lt hexpired, ?_⟩
      intro max hmax
      rw [Option.mem_def.mp hmax, Option.any_some, decide_eq_true_iff] at hused
      exact Nat.lt_of_not_le hused
    refine .imp_right (fun h => .inr ⟨share, rfl, hopen, h⟩) ?_
    by_cases hpin : share.pin.isNone = true
    · rw [if_pos hpin]
      exact .inr (.inl ⟨Option.isNone_iff_eq_none.mp hpin, rfl⟩)
    rw [if_neg hpin]
    cases pin.filter fun pin => pin ≠ "" with
    | none => exact .inl ⟨_, rfl⟩
    | some given => exact .inr (.inr ⟨given, rfl⟩)

theorem checkShare_ok {st : Store} (h : StoreOk E st) (shareId : String) (pin : Option String) :
    StoreOk E (st.checkShare shareId pin).1
      ∧ PcOk (st.checkShare shareId pin).1 (st.checkShare shareId pin).2
      ∧ ∀ id, Keeps st (st.checkShare shareId pin).1 id := by
  rcases checkShare_cases shareId pin st with ⟨message, heq⟩ |
    ⟨share, message, hshare, hexpired, heq⟩ | ⟨share, hshare, hopen, hrest⟩
  · rw [heq]
    exact ⟨h, trivial, fun id => .of_eq rfl rfl⟩
  · rw [heq]
    have hstored := h.shares shareId share hshare
    refine ⟨h.setShare (hstored.marked .expired _ _), trivial, setShare_keeps hshare ?_ rfl⟩
    intro hopen
    exact absurd hopen.2.1 (Nat.not_le_of_lt hexpired)
  · rcases hrest with ⟨hpin, heq⟩ | ⟨given, heq⟩
    · rw [heq]
      refine ⟨h, ⟨share, hshare, hopen, ?_⟩, fun id => .of_eq rfl rfl⟩
      intro secret hsecret
      rw [(h.shares shareId share hshare).pin, Option.mem_def.mp hsecret] at hpin
      cases hpin
    · rw [heq]
      exact ⟨h, ⟨share, hshare, hopen⟩, fun id => .of_eq rfl rfl⟩

/-- With the stored hash, the PIN is the share's unless the hashes collide. -/
theorem knowsPin_of_hash {shareId : String} {share : ExternalShare} {pin : String}
    (h : share.Stored E shareId) (hpin : share.pin = some (hashPin E pin))
    (hcollision : ∀ secret ∈ share.secretPin, hashPin E pin = hashPin E secret → pin = secret) :
    share.KnowsPin (some pin) := by
  intro secret hsecret
  rw [h.pin, Option.mem_def.mp hsecret] at hpin
  rw [hcollision secret hsecret (Option.some.inj hpin).symm]

theorem openShare_ok {st : Store} (h : StoreOk E st) {shareId : String} {share : ExternalShare}
    (hshare : st.shares shareId = some share) (hopen : share.Open st.clock) (content : Bytes)
    (o : Outcome) :
    StoreOk E (openShare shareId share content o st).1
      ∧ PcOk (openShare shareId share content o st).1 (openShare shareId share content o st).2 := by
  have hstored := h.shares shareId share hshare
  have hcount : ∀ max ∈ share.maxAccessCount, share.accessCount + 1 ≤ max := hopen.2.2
  rw [openShare]
  dsimp only
  split
  · exact ⟨h.setShare (hstored.counted (Nat.succ_le_succ hstored.opened) hcount), trivial⟩
  · exact ⟨h.setShare (hstored.counted (Nat.le_succ_of_le hstored.opened) hcount), trivial⟩

/-- The share that is opened can be opened again if it is not used up. -/
theorem openShare_keeps {st : Store} {shareId : String} {share : ExternalShare}
    (hshare : st.shares shareId = some share) (content : Bytes) (o : Outcome) {id : String}
    (hleft : id = shareId → ∀ max ∈ share.maxAccessCount, share.accessCount + 1 < max) :
    Keeps st (openShare shareId share content o st).1 id := by
  by_cases hid : id = shareId
  · rw [openShare]
    dsimp only
    split
    · refine setShare_keeps hshare ?_ ?_ id
      · exact fun hopen => ⟨hopen.1, hopen.2.1, hleft hid⟩
      · rfl
    · refine setShare_keeps hshare ?_ ?_ id
      · exact fun hopen => ⟨hopen.1, hopen.2.1, hleft hid⟩
      · rfl
  · rw [openShare]
    dsimp only
    split
    · exact setShare_keeps_other hid
    · exact setShare_keeps_other hid

theorem exec_decrypting {st : Store} {shareId : String} {share : ExternalShare} (h : StoreOk E st)
    (hshare : st.shares shareId = some share) (pin : Option String) (k : Nat) (o : Outcome) :
    exec E k st (.decrypting shareId pin) o
      = if o.works then openShare shareId share share.content o st
        else (st, accessFailed o.message) := by
  simp only [exec, hshare]
  by_cases hworks : o.works = true
  · simp only [if_pos hworks, (h.shares shareId share hshare).content]
  · simp only [if_neg hworks]

theorem exec_hashing_cases (st : Store) (shareId pin : String) (k : Nat) (o : Outcome) :
    (∃ message, exec E k st (.hashing shareId pin) o = (st, .failed message))
      ∨ exec E k st (.hashing shareId pin) o = (st, .decrypting shareId (some pin))
        ∧ ∃ share, st.shares shareId = some share ∧ share.pin = some (hashPin E pin) := by
  rw [exec]
  split
  · rename_i hvalid
    obtain ⟨share, hshare, hpin⟩ := (Option.any_eq_true _ _).mp hvalid.2
    exact .inr ⟨rfl, share, hshare, of_decide_eq_true hpin⟩
  · exact .inl ⟨_, rfl⟩

/-- **A statement of a call** keeps the limits, and what the other calls have
checked. -/
theorem exec_ok {s : State Store Pc} {k : Nat} {pc : Pc} {o : Outcome} (h : StoreOk E s.store)
    (hpc : PcOk s.store pc) (hk : s.calls[k]? = some pc) (hcareful : Careful E s (.exec k o)) :
    StoreOk E (exec E k s.store pc o).1
      ∧ PcOk (exec E k s.store pc o).1 (exec E k s.store pc o).2
      ∧ ∀ j q, j ≠ k → s.calls[j]? = some q →
          ∀ id ∈ q.awaits, Keeps s.store (exec E k s.store pc o).1 id := by
  rw [Careful, hk] at hcareful
  cases pc with
  | verified shareId pin =>
    obtain ⟨hstore, hnext, hkeeps⟩ := checkShare_ok h shareId pin
    exact ⟨hstore, hnext, fun _ _ _ _ id _ => hkeeps id⟩
  | hashing shareId pin =>
    rcases exec_hashing_cases s.store shareId pin k o with ⟨message, heq⟩ |
      ⟨heq, share', hshare', hhash⟩
    · rw [heq]
      exact ⟨h, trivial, fun _ _ _ _ _ _ => .of_eq rfl rfl⟩
    · obtain ⟨share, hshare, hopen⟩ := hpc
      obtain rfl := Option.some.inj (hshare.symm.trans hshare')
      rw [heq]
      exact ⟨h, ⟨share, hshare, hopen,
        knowsPin_of_hash (h.shares shareId share hshare) hhash (hcareful share hshare)⟩,
        fun _ _ _ _ _ _ => .of_eq rfl rfl⟩
  | decrypting shareId pin =>
    obtain ⟨share, hshare, hopen, -⟩ := hpc
    rw [exec_decrypting h hshare]
    split
    · obtain ⟨hstore, hnext⟩ := openShare_ok h hshare hopen share.content o
      refine ⟨hstore, hnext, fun j q hjk hj id hid => ?_⟩
      refine openShare_keeps hshare share.content o fun hsame max hmax => ?_
      rcases hcareful share hshare max hmax with hleft | hnone
      · exact hleft
      · exact absurd (hsame ▸ Option.mem_def.mp hid)
          (hnone q (List.mem_eraseIdx_iff_getElem?.mpr ⟨j, hjk, hj⟩))
    · exact ⟨h, trivial, fun _ _ _ _ _ _ => .of_eq rfl rfl⟩
  | opened content => exact ⟨h, trivial, fun _ _ _ _ _ _ => .of_eq rfl rfl⟩
  | failed message => exact ⟨h, trivial, fun _ _ _ _ _ _ => .of_eq rfl rfl⟩

/-! ## The world -/

/-- The portal leaves the external shares and the clock as they are. -/
structure PortalOnly (E : Env) (st st' : Store) : Prop where
  store : StoreOk E st'
  shares : st'.shares = st.shares
  clock : st'.clock = st.clock

theorem PortalOnly.refl {st : Store} (h : StoreOk E st) : PortalOnly E st st := ⟨h, rfl, rfl⟩

theorem PortalOnly.update {st : Store} (h : StoreOk E st) {share : PortalShare}
    (hshare : share.downloadCount ≤ share.maxDownloads) :
    PortalOnly E st (st.updatePortalShare share) :=
  ⟨h.updatePortalShare hshare, rfl, rfl⟩

/-- **What the portal decides.** -/
theorem validateAccess_cases (shareId : String) (pin : Option String) (st : Store) :
    (∃ error, st.validateAccess shareId pin = (st, .error error))
      ∨ (∃ share error, st.findPortalShare shareId = some share
          ∧ st.validateAccess shareId pin
            = (st.updatePortalShare { share with isActive := false }, .error error))
      ∨ ∃ share, st.findPortalShare shareId = some share ∧ share.Open st.clock
          ∧ (st.portalConfig.requirePin = true → share.KnowsPin pin)
          ∧ st.validateAccess shareId pin = (st, .ok share) := by
  rw [Store.validateAccess]
  cases hshare : st.findPortalShare shareId with
  | none => exact .inl ⟨_, rfl⟩
  | some share =>
    dsimp only
    by_cases hrevoked : share.isActive = false
    · rw [if_pos hrevoked]
      exact .inl ⟨_, rfl⟩
    rw [if_neg hrevoked]
    by_cases hexpired : share.expiresAt < st.clock
    · rw [if_pos hexpired]
      exact .inr (.inl ⟨share, _, rfl, rfl⟩)
    rw [if_neg hexpired]
    by_cases hused : share.maxDownloads ≤ share.downloadCount
    · rw [if_pos hused]
      exact .inl ⟨_, rfl⟩
    rw [if_neg hused]
    have hopen : share.Open st.clock :=
      ⟨Bool.not_eq_false _ ▸ hrevoked, Nat.le_of_not_lt hexpired, Nat.lt_of_not_le hused⟩
    split
    · exact .inl ⟨_, rfl⟩
    · rename_i hpin
      refine .inr (.inr ⟨share, rfl, hopen, ?_, rfl⟩)
      intro hrequired secret hsecret hset
      by_contra hwrong
      refine hpin ⟨hrequired, ?_⟩
      rw [Option.mem_def.mp hsecret, Option.any_some, decide_eq_true_iff]
      exact ⟨hset, hwrong⟩

theorem portalOnly_validateAccess {st : Store} (h : StoreOk E st) (shareId : String)
    (pin : Option String) : PortalOnly E st (st.validateAccess shareId pin).1 := by
  rcases validateAccess_cases shareId pin st with ⟨error, heq⟩ | ⟨share, error, hshare, heq⟩ |
    ⟨share, -, -, -, heq⟩
  · rw [heq]
    exact .refl h
  · rw [heq]
    have hcount := h.of_find hshare
    exact .update h hcount
  · rw [heq]
    exact .refl h

theorem open_of_validateAccess {shareId : String} {pin : Option String} {st : Store}
    {share : PortalShare} (hgranted : (st.validateAccess shareId pin).2 = .ok share) :
    st.findPortalShare shareId = some share ∧ share.Open st.clock
      ∧ (st.portalConfig.requirePin = true → share.KnowsPin pin) := by
  rcases validateAccess_cases shareId pin st with ⟨error, heq⟩ | ⟨other, error, -, heq⟩ |
    ⟨other, hfind, hopen, hpin, heq⟩
  · rw [heq] at hgranted
    cases hgranted
  · rw [heq] at hgranted
    cases hgranted
  · rw [heq] at hgranted
    cases hgranted
    exact ⟨hfind, hopen, hpin⟩

theorem portalOnly_recordDownload {st : Store} (h : StoreOk E st) {shareId : String}
    (hopen : ∀ share ∈ st.findPortalShare shareId, share.Open st.clock) :
    PortalOnly E st (st.recordDownload shareId) := by
  rw [Store.recordDownload]
  cases hfind : st.findPortalShare shareId with
  | none => exact .refl h
  | some share => exact .update h (hopen share hfind).2.2

theorem portalOnly_revokePortalShare {st : Store} (h : StoreOk E st) (shareId : String) :
    PortalOnly E st (st.revokePortalShare shareId) := by
  rw [Store.revokePortalShare]
  cases hfind : st.findPortalShare shareId with
  | none => exact .refl h
  | some share =>
    have hcount := h.of_find hfind
    exact .update h hcount

theorem portalOnly_extendPortalExpiry {st : Store} (h : StoreOk E st) (shareId : String)
    (additionalHours : Nat) : PortalOnly E st (st.extendPortalExpiry shareId additionalHours) := by
  rw [Store.extendPortalExpiry]
  cases hfind : st.findPortalShare shareId with
  | none => exact .refl h
  | some share =>
    have hcount := h.of_find hfind
    dsimp only
    split
    · exact .update h hcount
    · exact .refl h

theorem verifyShareToken_ok (token : Option Token) (pin : Option String) (st : Store) :
    PcOk st (st.verifyShareToken token pin) := by
  cases token with
  | none => trivial
  | some token =>
    rw [Store.verifyShareToken]
    split
    · trivial
    · split
      · trivial
      · trivial

theorem newShare_ok {st : Store} (h : StoreOk E st) {shareId : String} {share : ExternalShare}
    (hnew : st.shares shareId = none) (hstored : share.Stored E shareId) :
    StoreOk E (st.setShare shareId share) ∧ ∀ id, Keeps st (st.setShare shareId share) id := by
  refine ⟨h.setShare hstored, fun id => ?_⟩
  by_cases hid : id = shareId
  · intro old hold
    rw [hid, hnew] at hold
    cases hold
  · exact setShare_keeps_other hid

theorem revokeExternalShare_ok {st : Store} (h : StoreOk E st) (shareId : String) :
    StoreOk E (st.revokeExternalShare shareId)
      ∧ ∀ id, id ≠ shareId → Keeps st (st.revokeExternalShare shareId) id := by
  rw [Store.revokeExternalShare]
  cases hshare : st.shares shareId with
  | none => exact ⟨h, fun _ _ => .of_eq rfl rfl⟩
  | some share =>
    have hstored := h.shares shareId share hshare
    exact ⟨h.setShare (hstored.marked .revoked _ _), fun _ hid => setShare_keeps_other hid⟩

theorem extendShare_ok {st : Store} (h : StoreOk E st) (shareId : String)
    (additionalHours : Nat) :
    StoreOk E (st.extendShare shareId additionalHours)
      ∧ ∀ id, Keeps st (st.extendShare shareId additionalHours) id := by
  rw [Store.extendShare]
  cases hshare : st.shares shareId with
  | none => exact ⟨h, fun _ => .of_eq rfl rfl⟩
  | some share =>
    have hstored := h.shares shareId share hshare
    dsimp only
    split
    · refine ⟨h.setShare (hstored.marked _ _ true), setShare_keeps hshare ?_ ?_⟩
      · exact fun hopen => ⟨hopen.1, Nat.le_add_right_of_le hopen.2.1, hopen.2.2⟩
      · rfl
    · exact ⟨h, fun _ => .of_eq rfl rfl⟩

/-- **An event of the world** keeps the limits, and what the calls have
checked. -/
theorem world_ok (hcorrect : E.aesGcm.Correct) {s : State Store Pc} {e : Event}
    (h : StoreOk E s.store) (hcareful : Careful E s (.world e)) :
    StoreOk E (world E s.store e).1
      ∧ (∀ pc ∈ s.calls, ∀ id ∈ pc.awaits, Keeps s.store (world E s.store e).1 id)
      ∧ ∀ pc, (world E s.store e).2 = some pc → PcOk (world E s.store e).1 pc := by
  have hportal : ∀ st', PortalOnly E s.store st' →
      StoreOk E st' ∧ (∀ pc ∈ s.calls, ∀ id ∈ pc.awaits, Keeps s.store st' id)
        ∧ ∀ pc, (none : Option Pc) = some pc → PcOk st' pc := by
    intro st' hst'
    refine ⟨hst'.store, fun _ _ id _ => .of_eq (congrFun hst'.shares id) hst'.clock, ?_⟩
    rintro _ ⟨⟩
  cases e with
  | advance ms =>
    refine ⟨⟨h.shares, h.portalShares⟩, ?_, by rintro _ ⟨⟩⟩
    intro pc hpc id hid share hshare hopen
    exact ⟨share, hshare, ⟨hopen.1, hcareful pc hpc id hid share hshare, hopen.2.2⟩, rfl⟩
  | createShare elapsed randomBytes fileContent shareKey iv expiryHours pin maxAccess =>
    rw [world]
    generalize hcreated : createShare E _ _ _ _ _ _ _ _ = created
    cases created with
    | none => exact hportal _ (.refl h)
    | some share =>
      have hpin : ∀ secret ∈ pin.map fun random => generateRandomPin random.1 random.2,
          secret ≠ "" := by
        intro secret hsecret
        obtain ⟨random, -, rfl⟩ := Option.map_eq_some_iff.mp hsecret
        exact generateRandomPin_ne_empty random.1 random.2
      obtain ⟨hstore, hkeeps⟩ := newShare_ok h hcareful
        (createShare_stored hcorrect (generateShareId_ne_empty _ _) hpin hcreated)
      exact ⟨hstore, fun _ _ id _ => hkeeps id, by rintro _ ⟨⟩⟩
  | accessShare token pin =>
    refine ⟨h, fun _ _ _ _ => .of_eq rfl rfl, ?_⟩
    intro pc hpc
    obtain rfl := Option.some.inj hpc
    exact verifyShareToken_ok token pin s.store
  | revokeExternalShare shareId =>
    obtain ⟨hstore, hkeeps⟩ := revokeExternalShare_ok h shareId
    refine ⟨hstore, fun pc hpc id hid => hkeeps id ?_, by rintro _ ⟨⟩⟩
    rintro rfl
    exact hcareful pc hpc hid
  | extendShare shareId additionalHours =>
    obtain ⟨hstore, hkeeps⟩ := extendShare_ok h shareId additionalHours
    exact ⟨hstore, fun _ _ id _ => hkeeps id, by rintro _ ⟨⟩⟩
  | createPortalShare shareId accessPin expiresAt maxDownloads =>
    refine hportal _ ⟨⟨h.shares, ?_⟩, rfl, rfl⟩
    intro share hshare
    rcases List.mem_append.mp hshare with hold | hnew
    · exact h.portalShares share hold
    · rw [List.mem_singleton.mp hnew]
      exact Nat.zero_le _
  | validateAccess shareId pin => exact hportal _ (portalOnly_validateAccess h shareId pin)
  | recordDownload shareId =>
    refine hportal _ (portalOnly_recordDownload h fun share hshare => ?_)
    exact (open_of_validateAccess (hcareful share hshare)).2.1
  | revokePortalShare shareId => exact hportal _ (portalOnly_revokePortalShare h shareId)
  | extendPortalExpiry shareId additionalHours =>
    exact hportal _ (portalOnly_extendPortalExpiry h shareId additionalHours)
  | updatePortalConfig config => exact hportal _ ⟨⟨h.shares, h.portalShares⟩, rfl, rfl⟩

/-! ## Every run -/

theorem checkShare_of_open {st : Store} {shareId : String} {share : ExternalShare}
    (hshare : st.shares shareId = some share) (hopen : share.Open st.clock) (pin : Option String) :
    st.checkShare shareId pin = if share.pin.isNone then (st, .decrypting shareId pin)
      else match pin.filter fun pin => pin ≠ "" with
        | none => (st, accessFailed "PIN required for this share")
        | some pin => (st, .hashing shareId pin) := by
  have hleft : ¬(share.maxAccessCount.any fun max => max ≤ share.accessCount) = true := by
    intro hused
    obtain ⟨max, hmax, hle⟩ := (Option.any_eq_true _ _).mp hused
    exact Nat.not_le_of_lt (hopen.2.2 max hmax) (of_decide_eq_true hle)
  simp only [Store.checkShare, hshare]
  rw [if_neg (not_not.mpr hopen.1), if_neg (Nat.not_lt_of_le hopen.2.1), if_neg hleft]

/-- **A token that has not expired opens its share**, with the PIN. -/
theorem opens_of_token {st : Store} (h : StoreOk E st) {token : Token} {pin : Option String}
    {share : ExternalShare} (hshare : st.shares token.shareId = some share)
    (hopen : share.Open st.clock) (hpin : share.KnowsPin pin) (htoken : st.clock ≤ token.expiresAt)
    (k : Nat) : Opens E st k (st.verifyShareToken (some token) pin) share.content := by
  have hstored := h.shares token.shareId share hshare
  have hverified : st.verifyShareToken (some token) pin = .verified token.shareId pin := by
    simp only [Store.verifyShareToken]
    rw [if_neg hstored.shareId, if_neg (Nat.not_lt_of_le htoken)]
  have hdecrypts : ∀ pin, Service.Reaches (service E) k ⟨true, true, ""⟩ st
      (.decrypting token.shareId pin) (openShare token.shareId share share.content
        ⟨true, true, ""⟩ st).1 (.opened share.content) := by
    intro pin
    exact .exec_eq (exec_decrypting h hshare pin k ⟨true, true, ""⟩)
  refine ⟨(openShare token.shareId share share.content ⟨true, true, ""⟩ st).1, ?_⟩
  rw [hverified]
  have hchecked := checkShare_of_open hshare hopen pin
  cases hsecret : share.secretPin with
  | none =>
    have hnone : share.pin.isNone = true := by rw [hstored.pin, hsecret]; rfl
    rw [if_pos hnone] at hchecked
    exact .of_exec hchecked (hdecrypts pin)
  | some secret =>
    have hhash : share.pin = some (hashPin E secret) := by rw [hstored.pin, hsecret]; rfl
    obtain rfl := hpin secret hsecret
    have hset : ((some secret).filter fun pin => pin ≠ "") = some secret :=
      Option.filter_some_pos (decide_eq_true (hstored.secretPin secret hsecret))
    rw [hhash, Option.isNone_some, if_neg (by decide), hset] at hchecked
    have hvalid : exec E k st (.hashing token.shareId secret) ⟨true, true, ""⟩
        = (st, .decrypting token.shareId (some secret)) := by
      rw [exec, hshare, Option.any_some, if_pos]
      exact ⟨rfl, decide_eq_true hhash⟩
    exact .of_exec hchecked (.of_exec hvalid (hdecrypts (some secret)))

theorem honoured_exec {s : State Store Pc} {k : Nat} {o : Outcome}
    (h : Calls.Holds (StoreOk E) (fun st _ pc => PcOk st pc) s) : Honoured E s (.exec k o) := by
  intro pc content hk hnew hopened
  have hpc := h.call k pc hk
  cases pc with
  | verified shareId pin =>
    rw [exec] at hopened
    rcases checkShare_cases shareId pin s.store with ⟨message, heq⟩ |
      ⟨share, message, -, -, heq⟩ | ⟨share, -, -, ⟨-, heq⟩ | ⟨given, heq⟩⟩
    all_goals
      rw [heq] at hopened
      cases hopened
  | hashing shareId pin =>
    rcases exec_hashing_cases s.store shareId pin k o with ⟨message, heq⟩ | ⟨heq, -⟩
    all_goals
      rw [heq] at hopened
      cases hopened
  | decrypting shareId pin =>
    obtain ⟨share, hshare, hopen, hpin⟩ := hpc
    have hstored := h.store.shares shareId share hshare
    refine ⟨shareId, pin, share, rfl, hshare, hopen.1, hopen.2.1, ?_, hpin⟩
    intro max hmax
    exact hstored.opened.trans_lt (hopen.2.2 max hmax)
  | opened content' =>
    obtain rfl : content' = content := Pc.opened.inj hopened
    exact absurd rfl hnew
  | failed message => cases hopened

theorem honoured_of_careful {s : State Store Pc} {a : Action Event Outcome}
    (h : Calls.Holds (StoreOk E) (fun st _ pc => PcOk st pc) s) (hcareful : Careful E s a) :
    Honoured E s a := by
  cases a with
  | exec k o => exact honoured_exec h
  | world e =>
    cases e with
    | accessShare token pin =>
      cases token with
      | none => trivial
      | some token =>
        intro share hshare htoken hextended hopen hpin
        exact opens_of_token h.store hshare hopen hpin
          (hcareful share hshare htoken hextended hopen) _
    | validateAccess shareId pin =>
      intro share hgranted
      obtain ⟨hfind, hopen, hasked⟩ := open_of_validateAccess hgranted
      refine ⟨hopen, ?_⟩
      rcases hcareful share hfind hopen with hrequired | hpin
      · exact hasked hrequired
      · exact hpin
    | recordDownload shareId =>
      intro share hfind
      exact (open_of_validateAccess (hcareful share hfind)).2.1
    | advance ms => trivial
    | createShare elapsed randomBytes fileContent shareKey iv expiryHours pin maxAccess => trivial
    | revokeExternalShare shareId => trivial
    | extendShare shareId additionalHours => trivial
    | createPortalShare shareId accessPin expiresAt maxDownloads => trivial
    | revokePortalShare shareId => trivial
    | extendPortalExpiry shareId additionalHours => trivial
    | updatePortalConfig config => trivial

theorem step_holds (hcorrect : E.aesGcm.Correct) (s : State Store Pc) (a : Action Event Outcome)
    (hcareful : Careful E s a) (h : Calls.Holds (StoreOk E) (fun st _ pc => PcOk st pc) s) :
    Calls.Holds (StoreOk E) (fun st _ pc => PcOk st pc) ((service E).step s a) := by
  refine Calls.Holds.step ?_ ?_ s a hcareful h
  · intro s e hs hcareful
    obtain ⟨hstore, hkeeps, hnew⟩ := world_ok hcorrect hs.store hcareful
    exact ⟨hstore, fun k pc hk hpc => hpc.keeps (hkeeps pc (List.mem_of_getElem? hk)), hnew⟩
  · intro s k pc o hs hcareful hk
    obtain ⟨hstore, hnext, hkeeps⟩ := exec_ok hs.store (hs.call k pc hk) hk hcareful
    exact ⟨hstore, hnext, fun j q hjk hj hq => hq.keeps (hkeeps j q hjk hj)⟩

/-- **Share links honour their limits** in every run in which nothing happens to
a share that is being opened, tokens are used before they expire, and the portal
requires the PIN and is asked before each download. -/
theorem honoured_run (hcorrect : E.aesGcm.Correct) {actions : List (Action Event Outcome)}
    (hrun : Run.Each (service E).step (Careful E) ⟨.initial, []⟩ actions) :
    Run.Each (service E).step (Honoured E) ⟨.initial, []⟩ actions
      ∧ WithinLimits ((service E).run ⟨.initial, []⟩ actions).store := by
  have hinitial : Calls.Holds (StoreOk E) (fun st _ pc => PcOk st pc) ⟨.initial, []⟩ :=
    Calls.Holds.initial initial_storeOk
  have hstep : ∀ s a, Calls.Holds (StoreOk E) (fun st _ pc => PcOk st pc) s → Careful E s a →
      Honoured E s a := fun _ _ hs hcareful => honoured_of_careful hs hcareful
  constructor
  · exact hrun.imp hstep (fun s a hs hcareful => step_holds hcorrect s a hcareful hs) hinitial
  · exact (hrun.preserves (step_holds hcorrect) hinitial).store.withinLimits

/-- The hash is the first bytes. -/
def sampleEnv : Env :=
  ⟨transparentAead 12, fun bytes => ⟨(bytes ++ zeros 32).take 32, padded32_length bytes⟩⟩

def sampleWorks : Outcome := ⟨true, true, ""⟩

/-- A share that expires in an hour. -/
def sampleShare (pin : Option (Bool × Nat)) (maxAccess : Option Nat) : Action Event Outcome :=
  .world (.createShare 0 [1] [104, 105] (zeroVec 32) (zeroVec 12) 1 pin maxAccess)

def sampleId : String := generateShareId 0 [1]

def sampleToken : Token := ⟨sampleId, hours 1⟩

/-- A share with the PIN 0042 is opened, extended, opened once more and revoked,
and a share of the portal is downloaded. -/
def sharedRun : List (Action Event Outcome) :=
  [sampleShare (some (false, 42)) (some 2), .world (.accessShare (some sampleToken) (some "0042")),
   .exec 0 sampleWorks, .exec 0 sampleWorks, .exec 0 sampleWorks,
   .world (.extendShare sampleId 24), .world (.advance (hours 1)),
   .world (.accessShare (some sampleToken) (some "0042")),
   .exec 1 sampleWorks, .exec 1 sampleWorks, .exec 1 sampleWorks,
   .world (.revokeExternalShare sampleId),
   .world (.updatePortalConfig { defaultConfig with requirePin := true }),
   .world (.createPortalShare "p" (some "1234") none (some 1)),
   .world (.validateAccess "p" (some "1234")), .world (.recordDownload "p")]

theorem honoured_sharedRun :
    Run.Each (service sampleEnv).step (Honoured sampleEnv) ⟨.initial, []⟩ sharedRun
      ∧ WithinLimits ((service sampleEnv).run ⟨.initial, []⟩ sharedRun).store :=
  honoured_run (transparentAead_correct 12) (by decide +kernel)

theorem not_opens_failed (st : Store) (k : Nat) (message : String) (content : Bytes) :
    ¬Opens E st k (.failed message) content := by
  rintro ⟨st', hreaches⟩
  have hfailed : ∀ {st st' : Store} {pc pc' : Pc},
      Service.Reaches (service E) k ⟨true, true, ""⟩ st pc st' pc' →
        pc = .failed message → pc' = .failed message := by
    intro st st' pc pc' h
    induction h with
    | refl => exact id
    | step _ ih =>
      rintro rfl
      exact ih rfl
  cases hfailed hreaches rfl

/-- Two calls open a share that may be opened once. -/
def openedTwice : List (Action Event Outcome) :=
  [sampleShare none (some 1), .world (.accessShare (some sampleToken) none),
   .world (.accessShare (some sampleToken) none), .exec 0 sampleWorks, .exec 1 sampleWorks,
   .exec 0 sampleWorks, .exec 1 sampleWorks]

/-- The token of an extended share is presented after the expiry it was made
with. -/
def extendedShare : List (Action Event Outcome) :=
  [sampleShare none none, .world (.extendShare sampleId 24), .world (.advance (hours 2)),
   .world (.accessShare (some sampleToken) none)]

/-- A share of the portal is revoked, and downloaded. -/
def revokedDownload : List (Action Event Outcome) :=
  [.world (.createPortalShare "p" none none none), .world (.revokePortalShare "p"),
   .world (.recordDownload "p")]

/-- A share of the portal is granted without its PIN. -/
def grantedWithoutPin : List (Action Event Outcome) :=
  [.world (.createPortalShare "p" (some "1234") none none), .world (.validateAccess "p" none)]

theorem limits_not_honoured :
    ¬WithinLimits ((service sampleEnv).run ⟨.initial, []⟩ openedTwice).store
      ∧ ¬Run.Each (service sampleEnv).step (Honoured sampleEnv) ⟨.initial, []⟩ extendedShare
      ∧ ¬Run.Each (service sampleEnv).step (Honoured sampleEnv) ⟨.initial, []⟩ revokedDownload
      ∧ ¬Run.Each (service sampleEnv).step (Honoured sampleEnv) ⟨.initial, []⟩
          grantedWithoutPin := by
  refine ⟨?_, ?_, ?_, ?_⟩
  · intro h
    have htwice : (((service sampleEnv).run ⟨.initial, []⟩ openedTwice).store.shares sampleId).map
        (fun share => (share.maxAccessCount, share.opened)) = some (some 1, 2) := by decide +kernel
    obtain ⟨share, hshare, hcounts⟩ := Option.map_eq_some_iff.mp htwice
    obtain ⟨hmax, hopened⟩ := Prod.mk.inj hcounts
    have hle := h.opened sampleId share hshare 1 hmax
    rw [hopened] at hle
    exact absurd hle (by decide)
  · rintro ⟨-, -, -, haccess, -⟩
    have hextended : (((service sampleEnv).run ⟨.initial, []⟩ (extendedShare.take 3)).store.shares
        sampleId).map (fun share => (share.token, share.extended, share.secretPin,
          decide (share.Open (hours 2)))) = some (sampleToken, true, none, true) := by
      decide +kernel
    obtain ⟨share, hshare, hfields⟩ := Option.map_eq_some_iff.mp hextended
    simp only [Prod.mk.injEq, decide_eq_true_iff] at hfields
    obtain ⟨htoken, hlonger, hpin, hopen⟩ := hfields
    have hopens := haccess share hshare htoken hlonger hopen fun secret hsecret => by
      rw [hpin] at hsecret
      cases hsecret
    have hrefused : ((service sampleEnv).run ⟨.initial, []⟩
        (extendedShare.take 3)).store.verifyShareToken (some sampleToken) none
          = accessFailed "Token expired" := by decide +kernel
    exact not_opens_failed _ _ _ _ (hrefused ▸ hopens)
  · rintro ⟨-, -, hdownload, -⟩
    have hfind : ((service sampleEnv).run ⟨.initial, []⟩
        (revokedDownload.take 2)).store.findPortalShare "p"
          = some ⟨"p", none, hours 24, 10, 0, 0, false⟩ := by decide +kernel
    cases (hdownload _ hfind).1
  · rintro ⟨-, hgranted, -⟩
    have hvalid : (((service sampleEnv).run ⟨.initial, []⟩
        (grantedWithoutPin.take 1)).store.validateAccess "p" none).2
          = .ok ⟨"p", some "1234", hours 24, 10, 0, 0, true⟩ := by decide +kernel
    cases (hgranted _ hvalid).2 "1234" rfl (by decide)

end UsbVault.App.ShareLinks
