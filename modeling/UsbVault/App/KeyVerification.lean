import UsbVault.App.SafetyNumber
import UsbVault.Lib.Run

/-!
# Verified contacts

The verification records of the key verification service, one for each
contact, in `localStorage` on the web and nowhere else. `checkKeyChanged`
compares the hash of a key with the one in the record; `verifyContact` writes
a new record, with a hash only when it is given a key.

Beside the records a state has what the service does not keep: the key each
contact has presented last, and the one the user has verified last. A contact
presents a key in a call of `checkKeyChanged`, in a code that passes the
checks of `verifyScannedQR`, and in a verification that is given one.

A verified contact's key is the verified one (`Unchanged`) when every
verification is given a key and its record is stored; then a different key
raises the warning (`Warns`), unless a call that takes the verification back
has dropped the hash (`changed_key_unverified`).
-/

namespace UsbVault.App.KeyVerification

open Wire Digits

/-! ## The service -/

structure VerificationRecord where
  email : String
  verified : Bool
  verifiedAt : Option Int
  safetyNumber : Option (List Char)
  publicKeyHash : Option (List Char)
  keyChanged : Option Bool
  keyChangedAt : Option Int
  deriving DecidableEq, Repr

structure KeyChangeResult where
  changed : Bool
  wasVerified : Bool
  previousKeyHash : Option (List Char)
  currentKeyHash : List Char
  deriving DecidableEq, Repr

/-- A field that is missing is empty. -/
structure QRPayload where
  email : String
  publicKeyHex : List Char
  fingerprint : List Char
  generatedAt : String
  deriving DecidableEq, Repr

inductive QRStatus where
  | verified | fingerprint_mismatch | expired | invalid_format | key_changed
  deriving DecidableEq, Repr

structure QRVerificationResult where
  valid : Bool
  status : QRStatus
  email : Option String
  safetyNumber : Option (List Char)
  error : Option String
  deriving DecidableEq, Repr

/-- `Platform.OS === 'web'`; `toLowerCase` and `trim` of strings; SHA-256;
`JSON.parse`, and `getTime` of a `Date` made of text. -/
structure Env where
  web : Bool
  toLowerCase : String → String
  trim : String → String
  sha256 : Bytes → ByteVec 32
  parse : String → Option QRPayload
  getTime : String → Option Int

/-- The records in storage, by normalized email. -/
abbrev Records := String → Option VerificationRecord

def QR_EXPIRY_MS : Int := 10 * 60 * 1000

namespace Env

variable (E : Env)

def normalizeEmail (email : String) : String := E.trim (E.toLowerCase email)

def readVerifications (stored : Records) : Records :=
  if E.web then stored else fun _ => none

/-- What is stored afterwards; storage takes the text or refuses it. -/
def writeVerifications (takes : Bool) (stored records : Records) : Records :=
  if E.web ∧ takes then records else stored

def hashPublicKey (publicKeyHex : List Char) : List Char :=
  encodeHex (E.sha256 (Utf8.encode publicKeyHex)).toList

def fingerprint (publicKeyHex : List Char) : List Char :=
  ((E.hashPublicKey publicKeyHex).take 16).map Char.toUpper

/-- A key that is given: empty text counts as none. -/
def given (publicKeyHex : Option (List Char)) : Option (List Char) :=
  publicKeyHex.filter fun key => key ≠ []

/-- The record that `verifyContact` writes. -/
def verification (now : Int) (email : String) (verified : Bool)
    (safetyNumber publicKeyHex : Option (List Char)) : VerificationRecord where
  email := email
  verified := verified
  verifiedAt := if verified then some now else none
  safetyNumber := safetyNumber
  publicKeyHash := (given publicKeyHex).map E.hashPublicKey
  keyChanged := some false
  keyChangedAt := none

def verifyContact (now : Int) (takes : Bool) (stored : Records) (contactEmail : String)
    (verified : Bool) (safetyNumber publicKeyHex : Option (List Char)) : Records :=
  let email := E.normalizeEmail contactEmail
  let records := E.readVerifications stored
  let record := E.verification now email verified safetyNumber publicKeyHex
  E.writeVerifications takes stored (Function.update records email (some record))

/-- The record of a key that has changed. -/
def changed (now : Int) (record : VerificationRecord) : VerificationRecord :=
  { record with verified := false, keyChanged := some true, keyChangedAt := some now }

def checkKeyChanged (now : Int) (takes : Bool) (stored : Records) (contactEmail : String)
    (currentPublicKeyHex : List Char) : Records × KeyChangeResult :=
  let email := E.normalizeEmail contactEmail
  let currentHash := E.hashPublicKey currentPublicKeyHex
  let records := E.readVerifications stored
  match records email with
  | none => (stored, ⟨false, false, none, currentHash⟩)
  | some record =>
    match record.publicKeyHash with
    | none => (stored, ⟨false, record.verified, none, currentHash⟩)
    | some previous =>
      if previous ≠ currentHash then
        (E.writeVerifications takes stored
            (Function.update records email (some (changed now record))),
          ⟨true, false, some previous, currentHash⟩)
      else (stored, ⟨false, record.verified, some previous, currentHash⟩)

def isContactVerified (stored : Records) (contactEmail : String) : Bool :=
  match E.readVerifications stored (E.normalizeEmail contactEmail) with
  | none => false
  | some record => record.verified

/-- Steps 1 to 3 of `verifyScannedQR`: format, age and fingerprint. -/
def checkPayload (now : Int) (scannedPayload : String) :
    Except QRVerificationResult QRPayload :=
  match E.parse scannedPayload with
  | none =>
    .error ⟨false, .invalid_format, none, none,
      some "QR code contains invalid data — expected JSON payload"⟩
  | some payload =>
    if payload.email = "" ∨ payload.publicKeyHex = [] ∨ payload.fingerprint = []
        ∨ payload.generatedAt = "" then
      .error ⟨false, .invalid_format, none, none,
        some ("QR payload missing required fields "
          ++ "(email, publicKeyHex, fingerprint, generatedAt)")⟩
    else if isKeyHex payload.publicKeyHex = false then
      .error ⟨false, .invalid_format, none, none,
        some "QR payload contains invalid public key format"⟩
    else if (E.getTime payload.generatedAt).all fun generatedAt =>
        now - generatedAt > QR_EXPIRY_MS then
      .error ⟨false, .expired, some payload.email, none,
        some "QR code has expired — please ask the contact to generate a new one"⟩
    else if E.fingerprint payload.publicKeyHex ≠ payload.fingerprint then
      .error ⟨false, .fingerprint_mismatch, some payload.email, none,
        some "Fingerprint mismatch — the QR code may have been tampered with"⟩
    else .ok payload

def verifyScannedQR (now : Int) (takes : Bool) (stored : Records) (scannedPayload : String)
    (localPublicKeyHex : List Char) : Records × QRVerificationResult :=
  match E.checkPayload now scannedPayload with
  | .error result => (stored, result)
  | .ok payload =>
    let (stored, keyCheck) :=
      E.checkKeyChanged now takes stored payload.email payload.publicKeyHex
    if keyCheck.changed then
      (stored, ⟨false, .key_changed, some payload.email, none,
        some ("Contact's key has changed since last verification — "
          ++ "please confirm their identity")⟩)
    else
      match generateSafetyNumber E.sha256 localPublicKeyHex payload.publicKeyHex with
      | .error message =>
        (stored, ⟨false, .invalid_format, none, none,
          some s!"QR verification error: {message}"⟩)
      | .ok safetyNumber =>
        (E.verifyContact now takes stored payload.email true (some safetyNumber)
            (some payload.publicKeyHex),
          ⟨true, .verified, some payload.email, some safetyNumber, none⟩)

end Env

/-! ## Runs -/

inductive Call where
  | verifyContact (contactEmail : String) (verified : Bool)
      (safetyNumber publicKeyHex : Option (List Char))
  | checkKeyChanged (contactEmail : String) (currentPublicKeyHex : List Char)
  | verifyScannedQR (scannedPayload : String) (localPublicKeyHex : List Char)
  deriving DecidableEq, Repr

/-- A call, its clock reading, and whether storage takes what it writes. -/
structure Action where
  call : Call
  now : Int
  takes : Bool
  deriving DecidableEq, Repr

/-- The keys of one contact: the last one presented, and the last one
verified. -/
structure History where
  presented : Option (List Char)
  verified : Option (List Char)
  deriving DecidableEq, Repr

structure State where
  records : Records
  history : String → History

def State.initial : State := ⟨fun _ => none, fun _ => ⟨none, none⟩⟩

/-- The contact and the key that a call is to compare. -/
def Action.shows (E : Env) (a : Action) : Option (String × List Char) :=
  match a.call with
  | .verifyContact .. => none
  | .checkKeyChanged contactEmail key => some (E.normalizeEmail contactEmail, key)
  | .verifyScannedQR scannedPayload _ =>
    match E.checkPayload a.now scannedPayload with
    | .error _ => none
    | .ok payload => some (E.normalizeEmail payload.email, payload.publicKeyHex)

/-- The contact whose key a call presents, and the key. -/
def Action.presents (E : Env) (a : Action) : Option (String × List Char) :=
  match a.call with
  | .verifyContact contactEmail true _ publicKeyHex =>
    (Env.given publicKeyHex).map fun key => (E.normalizeEmail contactEmail, key)
  | _ => a.shows E

/-- The contact whom a call verifies. A verification without a key is one of
the key presented last. -/
def Action.verifies (E : Env) (s : State) (a : Action) : Option String :=
  match a.call with
  | .verifyContact contactEmail true _ _ => some (E.normalizeEmail contactEmail)
  | .verifyContact _ false _ _ => none
  | .checkKeyChanged _ _ => none
  | .verifyScannedQR scannedPayload localPublicKeyHex =>
    let result := (E.verifyScannedQR a.now a.takes s.records scannedPayload localPublicKeyHex).2
    if result.valid then result.email.map E.normalizeEmail else none

def Action.records (E : Env) (s : State) (a : Action) : Records :=
  match a.call with
  | .verifyContact contactEmail verified safetyNumber publicKeyHex =>
    E.verifyContact a.now a.takes s.records contactEmail verified safetyNumber publicKeyHex
  | .checkKeyChanged contactEmail key =>
    (E.checkKeyChanged a.now a.takes s.records contactEmail key).1
  | .verifyScannedQR scannedPayload localPublicKeyHex =>
    (E.verifyScannedQR a.now a.takes s.records scannedPayload localPublicKeyHex).1

/-- The keys that were presented, after a call. -/
def State.presented (E : Env) (s : State) (a : Action) (email : String) : Option (List Char) :=
  match a.presents E with
  | some (contact, key) => if email = contact then some key else (s.history email).presented
  | none => (s.history email).presented

def step (E : Env) (s : State) (a : Action) : State where
  records := a.records E s
  history email := {
    presented := s.presented E a email
    verified :=
      if a.verifies E s = some email then s.presented E a email else (s.history email).verified }

def run (E : Env) (actions : List Action) : State := actions.foldl (step E) State.initial

/-- A contact who is verified presented, last of all, the key that the user
verified last. -/
def Unchanged (E : Env) (s : State) : Prop :=
  ∀ contactEmail, E.isContactVerified s.records contactEmail →
    ∃ presented verified,
      s.history (E.normalizeEmail contactEmail) = ⟨some presented, some verified⟩
        ∧ decodeHex presented = decodeHex verified

/-- The result of a call says that the key has changed. -/
def Action.warns (E : Env) (s : State) (a : Action) : Bool :=
  match a.call with
  | .verifyContact .. => false
  | .checkKeyChanged contactEmail key =>
    (E.checkKeyChanged a.now a.takes s.records contactEmail key).2.changed
  | .verifyScannedQR scannedPayload localPublicKeyHex =>
    (E.verifyScannedQR a.now a.takes s.records scannedPayload localPublicKeyHex).2.status
      = .key_changed

/-- A key other than the one verified last raises the warning. -/
def Warns (E : Env) (s : State) (a : Action) : Prop :=
  ∀ email key verified, a.shows E = some (email, key) →
    (s.history email).verified = some verified → decodeHex key ≠ decodeHex verified →
    a.warns E s

/-- What is written is stored, and a verification is given a key. -/
def KeyGiven (a : Action) : Prop :=
  a.takes ∧ ∀ contactEmail safetyNumber publicKeyHex,
    a.call = .verifyContact contactEmail true safetyNumber publicKeyHex →
    (Env.given publicKeyHex).isSome

/-- A call that takes a verification back is given the key that was verified
last, if there is one. -/
def KeyKept (E : Env) (s : State) (a : Action) : Prop :=
  ∀ contactEmail safetyNumber publicKeyHex,
    a.call = .verifyContact contactEmail false safetyNumber publicKeyHex →
    ∀ verified, (s.history (E.normalizeEmail contactEmail)).verified = some verified →
      Env.given publicKeyHex = some verified

/-! ## What a call does -/

variable {E : Env} {s s' : State} {a : Action} {keys : Set (List Char)}

/-- The effect of a call whose writes are stored, and whose verifications are
given a key. -/
inductive Effect (E : Env) (s : State) (a : Action) (s' : State) : Prop
  | nothing (hrecords : s'.records = s.records) (hhistory : s'.history = s.history)
  | verifies (contact : String) (key : List Char) (record : VerificationRecord)
      (hpresents : a.presents E = some (contact, key))
      (hhash : record.publicKeyHash = some (E.hashPublicKey key))
      (hrecords : s'.records = E.writeVerifications true s.records
        (Function.update (E.readVerifications s.records) contact (some record)))
      (hhistory : s'.history = Function.update s.history contact ⟨some key, some key⟩)
  | unchanged (contact : String) (key : List Char)
      (hpresents : a.presents E = some (contact, key))
      (hsame : ∀ record hash, E.readVerifications s.records contact = some record →
        record.publicKeyHash = some hash → hash = E.hashPublicKey key)
      (hrecords : s'.records = s.records)
      (hhistory : s'.history
        = Function.update s.history contact ⟨some key, (s.history contact).verified⟩)
  | changes (contact : String) (key : List Char) (record : VerificationRecord) (now : Int)
      (hold : E.readVerifications s.records contact = some record)
      (hrecords : s'.records = E.writeVerifications true s.records
        (Function.update (E.readVerifications s.records) contact (some (Env.changed now record))))
      (hhistory : s'.history
        = Function.update s.history contact ⟨some key, (s.history contact).verified⟩)
  | takesBack (contactEmail : String) (safetyNumber publicKeyHex : Option (List Char))
      (record : VerificationRecord)
      (hcall : a.call = .verifyContact contactEmail false safetyNumber publicKeyHex)
      (hverified : record.verified = false)
      (hhash : record.publicKeyHash = (Env.given publicKeyHex).map E.hashPublicKey)
      (hrecords : s'.records = E.writeVerifications true s.records
        (Function.update (E.readVerifications s.records) (E.normalizeEmail contactEmail)
          (some record)))
      (hhistory : s'.history = s.history)

/-- What `checkKeyChanged` finds: no other hash, or one. -/
theorem checkKeyChanged_cases (E : Env) (now : Int) (takes : Bool) (stored : Records)
    (contactEmail : String) (key : List Char) :
    ((E.checkKeyChanged now takes stored contactEmail key).1 = stored
        ∧ (E.checkKeyChanged now takes stored contactEmail key).2.changed = false
        ∧ ∀ record hash, E.readVerifications stored (E.normalizeEmail contactEmail) = some record →
            record.publicKeyHash = some hash → hash = E.hashPublicKey key)
      ∨ ∃ record, E.readVerifications stored (E.normalizeEmail contactEmail) = some record
          ∧ (E.checkKeyChanged now takes stored contactEmail key).1
            = E.writeVerifications takes stored
                (Function.update (E.readVerifications stored) (E.normalizeEmail contactEmail)
                  (some (Env.changed now record)))
          ∧ (E.checkKeyChanged now takes stored contactEmail key).2.changed = true := by
  simp only [Env.checkKeyChanged]
  cases hrecord : E.readVerifications stored (E.normalizeEmail contactEmail) with
  | none => exact .inl ⟨rfl, rfl, fun _ _ h => by cases h⟩
  | some record =>
    cases hhash : record.publicKeyHash with
    | none =>
      refine .inl ⟨by simp only [hhash], by simp only [hhash], ?_⟩
      rintro _ _ ⟨⟩ h
      rw [hhash] at h
      cases h
    | some previous =>
      by_cases hne : previous ≠ E.hashPublicKey key
      · refine .inr ⟨record, rfl, ?_, ?_⟩
        · simp only [hhash, if_pos hne]
        · simp only [hhash, if_pos hne]
      · refine .inl ⟨by simp only [hhash, if_neg hne], by simp only [hhash, if_neg hne], ?_⟩
        rintro _ _ ⟨⟩ h
        rw [hhash] at h
        rw [← Option.some.inj h]
        exact not_not.mp hne

theorem history_step (hpresents : a.presents E = some (contact, key))
    (hverifies : a.verifies E s = none) :
    (step E s a).history
      = Function.update s.history contact ⟨some key, (s.history contact).verified⟩ := by
  funext email
  by_cases hemail : email = contact
  · subst hemail
    simp [step, State.presented, hpresents, hverifies]
  · simp [step, State.presented, hpresents, hverifies, hemail]

theorem history_step_verified (hpresents : a.presents E = some (contact, key))
    (hverifies : a.verifies E s = some contact) :
    (step E s a).history = Function.update s.history contact ⟨some key, some key⟩ := by
  funext email
  by_cases hemail : email = contact
  · subst hemail
    simp [step, State.presented, hpresents, hverifies]
  · simp [step, State.presented, hpresents, hverifies, hemail, Ne.symm hemail]

theorem checkPayload_error {now : Int} {scannedPayload : String} {result : QRVerificationResult}
    (h : E.checkPayload now scannedPayload = .error result) : result.valid = false := by
  unfold Env.checkPayload at h
  split at h
  · cases h
    rfl
  · split_ifs at h <;> cases h <;> rfl

theorem publicKeyHex_ne_nil {now : Int} {scannedPayload : String} {payload : QRPayload}
    (h : E.checkPayload now scannedPayload = .ok payload) : payload.publicKeyHex ≠ [] := by
  intro hnil
  unfold Env.checkPayload at h
  split at h
  · cases h
  · split_ifs at h with hmissing
    cases h
    exact hmissing (.inr (.inl hnil))

theorem verifyScannedQR_same {now : Int} {takes : Bool} {stored : Records} {scannedPayload : String}
    {payload : QRPayload} (localPublicKeyHex : List Char)
    (hpayload : E.checkPayload now scannedPayload = .ok payload)
    (hrecords : (E.checkKeyChanged now takes stored payload.email payload.publicKeyHex).1 = stored)
    (hchanged :
      (E.checkKeyChanged now takes stored payload.email payload.publicKeyHex).2.changed = false) :
    E.verifyScannedQR now takes stored scannedPayload localPublicKeyHex
      = match generateSafetyNumber E.sha256 localPublicKeyHex payload.publicKeyHex with
        | .error message =>
          (stored, ⟨false, .invalid_format, none, none,
            some s!"QR verification error: {message}"⟩)
        | .ok safetyNumber =>
          (E.verifyContact now takes stored payload.email true (some safetyNumber)
              (some payload.publicKeyHex),
            ⟨true, .verified, some payload.email, some safetyNumber, none⟩) := by
  simp only [Env.verifyScannedQR, hpayload, hchanged, hrecords, Bool.false_eq_true, if_false]

theorem verifyScannedQR_changed {now : Int} {takes : Bool} {stored : Records}
    {scannedPayload : String} {payload : QRPayload} (localPublicKeyHex : List Char)
    (hpayload : E.checkPayload now scannedPayload = .ok payload)
    (hchanged :
      (E.checkKeyChanged now takes stored payload.email payload.publicKeyHex).2.changed = true) :
    E.verifyScannedQR now takes stored scannedPayload localPublicKeyHex
      = ((E.checkKeyChanged now takes stored payload.email payload.publicKeyHex).1,
          ⟨false, .key_changed, some payload.email, none,
            some ("Contact's key has changed since last verification — "
              ++ "please confirm their identity")⟩) := by
  simp only [Env.verifyScannedQR, hpayload, hchanged, if_true]

/-- **Every call** has one of these effects. -/
theorem effect_step (hkey : KeyGiven a) : Effect E s a (step E s a) := by
  obtain ⟨call, now, takes⟩ := a
  obtain ⟨rfl : takes = true, hgiven⟩ := hkey
  cases call with
  | verifyContact contactEmail verified safetyNumber publicKeyHex =>
    cases verified with
    | true =>
      obtain ⟨key, hkey⟩ := Option.isSome_iff_exists.mp (hgiven _ _ _ rfl)
      have hpresents : Action.presents E ⟨.verifyContact contactEmail true safetyNumber
          publicKeyHex, now, true⟩ = some (E.normalizeEmail contactEmail, key) := by
        simp only [Action.presents, hkey, Option.map_some]
      refine .verifies _ key _ hpresents ?_ rfl (history_step_verified hpresents rfl)
      simp only [Env.verification, hkey, Option.map_some]
    | false => exact .takesBack _ _ _ _ rfl rfl rfl rfl rfl
  | checkKeyChanged contactEmail key =>
    have hhistory := history_step (s := s) (E := E)
      (a := ⟨.checkKeyChanged contactEmail key, now, true⟩) rfl rfl
    rcases checkKeyChanged_cases E now true s.records contactEmail key with
      ⟨hrecords, -, hsame⟩ | ⟨record, hold, hrecords, -⟩
    · exact .unchanged _ key rfl hsame hrecords hhistory
    · exact .changes _ key record now hold hrecords hhistory
  | verifyScannedQR scannedPayload localPublicKeyHex =>
    cases hpayload : E.checkPayload now scannedPayload with
    | error result =>
      have hscan : E.verifyScannedQR now true s.records scannedPayload localPublicKeyHex
          = (s.records, result) := by
        simp only [Env.verifyScannedQR, hpayload]
      refine .nothing ?_ ?_
      · simp only [step, Action.records, hscan]
      · funext email
        simp [step, State.presented, Action.presents, Action.shows, Action.verifies, hpayload,
          hscan, checkPayload_error hpayload]
    | ok payload =>
      have hpresents : Action.presents E
          ⟨.verifyScannedQR scannedPayload localPublicKeyHex, now, true⟩ = some (E.normalizeEmail payload.email, payload.publicKeyHex) := by
        simp only [Action.presents, Action.shows, hpayload]
      rcases checkKeyChanged_cases E now true s.records payload.email payload.publicKeyHex with
        ⟨hrecords, hchanged, hsame⟩ | ⟨record, hold, hrecords, hchanged⟩
      · have hscan := verifyScannedQR_same localPublicKeyHex hpayload hrecords hchanged
        cases hnumber :
            generateSafetyNumber E.sha256 localPublicKeyHex payload.publicKeyHex with
        | error message =>
          rw [hnumber] at hscan
          refine .unchanged _ _ hpresents hsame ?_ (history_step hpresents ?_)
          · simp only [step, Action.records, hscan]
          · simp [Action.verifies, hscan]
        | ok safetyNumber =>
          rw [hnumber] at hscan
          refine .verifies _ _
            (E.verification now (E.normalizeEmail payload.email) true (some safetyNumber)
              (some payload.publicKeyHex)) hpresents ?_ ?_
            (history_step_verified hpresents ?_)
          · simp [Env.verification, Env.given, publicKeyHex_ne_nil hpayload]
          · simp only [step, Action.records, hscan]
            rfl
          · simp [Action.verifies, hscan]
      · have hscan := verifyScannedQR_changed localPublicKeyHex hpayload hchanged
        refine .changes _ _ record now hold ?_ (history_step hpresents ?_)
        · simp only [step, Action.records, hscan]
          exact hrecords
        · simp [Action.verifies, hscan]

/-! ## Invariants -/

/-- The view after a write that is stored, of a contact who has a record. -/
theorem read_write_cases {stored : Records} {contact email : String} {record r : VerificationRecord}
    (h : E.readVerifications (E.writeVerifications true stored
      (Function.update (E.readVerifications stored) contact (some record))) email = some r) :
    email = contact ∧ r = record ∨ email ≠ contact ∧ E.readVerifications stored email = some r := by
  cases hweb : E.web with
  | false => simp [Env.readVerifications, hweb] at h
  | true =>
    simp only [Env.readVerifications, Env.writeVerifications, hweb, if_true, and_self] at h
    by_cases hemail : email = contact
    · subst hemail
      rw [Function.update_self] at h
      exact .inl ⟨rfl, (Option.some.inj h).symm⟩
    · rw [Function.update_of_ne hemail] at h
      refine .inr ⟨hemail, ?_⟩
      simp only [Env.readVerifications, hweb, if_true]
      exact h

/-- A verified contact's record has the hash of the key that the contact
presented last and the user verified last. -/
def Verified (E : Env) (keys : Set (List Char)) (s : State) : Prop :=
  ∀ email record, E.readVerifications s.records email = some record → record.verified →
    ∃ key ∈ keys, s.history email = ⟨some key, some key⟩
      ∧ record.publicKeyHash = some (E.hashPublicKey key)

theorem Verified.step (hinj : Set.InjOn E.hashPublicKey keys)
    (hkeys : ∀ contact key, a.presents E = some (contact, key) → key ∈ keys) (hkey : KeyGiven a)
    (h : Verified E keys s) : Verified E keys (step E s a) := by
  intro email record hrecord hverified
  cases effect_step hkey with
  | nothing hrecords hhistory =>
    rw [hrecords] at hrecord
    rw [hhistory]
    exact h email record hrecord hverified
  | verifies contact key new hpresents hhash hrecords hhistory =>
    rw [hrecords] at hrecord
    rw [hhistory]
    rcases read_write_cases hrecord with ⟨rfl, rfl⟩ | ⟨hne, hold⟩
    · exact ⟨key, hkeys _ _ hpresents, Function.update_self .., hhash⟩
    · rw [Function.update_of_ne hne]
      exact h email record hold hverified
  | unchanged contact key hpresents hsame hrecords hhistory =>
    rw [hrecords] at hrecord
    obtain ⟨old, hold, hpair, hhash⟩ := h email record hrecord hverified
    by_cases hemail : email = contact
    · subst hemail
      have heq : old = key :=
        hinj hold (hkeys _ _ hpresents) (hsame record _ hrecord hhash)
      subst heq
      refine ⟨old, hold, ?_, hhash⟩
      rw [hhistory, Function.update_self, hpair]
    · rw [hhistory, Function.update_of_ne hemail]
      exact ⟨old, hold, hpair, hhash⟩
  | changes contact key old now _ hrecords hhistory =>
    rw [hrecords] at hrecord
    rcases read_write_cases hrecord with ⟨rfl, rfl⟩ | ⟨hne, hold⟩
    · cases hverified
    · rw [hhistory, Function.update_of_ne hne]
      exact h email record hold hverified
  | takesBack contactEmail _ _ new _ hnew _ hrecords hhistory =>
    rw [hrecords] at hrecord
    rw [hhistory]
    rcases read_write_cases hrecord with ⟨rfl, rfl⟩ | ⟨-, hold⟩
    · rw [hnew] at hverified
      cases hverified
    · exact h email record hold hverified

/-- The key that the user verified last has its hash in the record. -/
def Remembers (E : Env) (keys : Set (List Char)) (s : State) : Prop :=
  ∀ email key, (s.history email).verified = some key →
    key ∈ keys ∧ ∃ record, E.readVerifications s.records email = some record
      ∧ record.publicKeyHash = some (E.hashPublicKey key)

theorem read_write (hweb : E.web) (stored records : Records) :
    E.readVerifications (E.writeVerifications true stored records) = records := by
  simp only [Env.readVerifications, Env.writeVerifications, hweb, if_true, and_self]

theorem Remembers.step (hweb : E.web)
    (hkeys : ∀ contact key, a.presents E = some (contact, key) → key ∈ keys) (hkey : KeyGiven a)
    (hkept : KeyKept E s a) (h : Remembers E keys s) : Remembers E keys (step E s a) := by
  intro email key hverified
  cases effect_step hkey with
  | nothing hrecords hhistory =>
    rw [hhistory] at hverified
    rw [hrecords]
    exact h email key hverified
  | verifies contact new record hpresents hhash hrecords hhistory =>
    rw [hrecords, read_write hweb]
    rw [hhistory] at hverified
    by_cases hemail : email = contact
    · subst hemail
      rw [Function.update_self] at hverified
      obtain rfl := Option.some.inj hverified
      exact ⟨hkeys _ _ hpresents, record, Function.update_self .., hhash⟩
    · rw [Function.update_of_ne hemail] at hverified ⊢
      exact h email key hverified
  | unchanged contact new _ _ hrecords hhistory =>
    have hold : (s.history email).verified = some key := by
      rw [hhistory] at hverified
      by_cases hemail : email = contact
      · subst hemail
        rwa [Function.update_self] at hverified
      · rwa [Function.update_of_ne hemail] at hverified
    rw [hrecords]
    exact h email key hold
  | changes contact new record now hread hrecords hhistory =>
    rw [hrecords, read_write hweb]
    rw [hhistory] at hverified
    by_cases hemail : email = contact
    · subst hemail
      rw [Function.update_self] at hverified ⊢
      obtain ⟨hmem, r, hr, hhash⟩ := h email key hverified
      obtain rfl : r = record := Option.some.inj (hr.symm.trans hread)
      exact ⟨hmem, _, rfl, hhash⟩
    · rw [Function.update_of_ne hemail] at hverified ⊢
      exact h email key hverified
  | takesBack contactEmail sn publicKeyHex record hcall _ hhash hrecords hhistory =>
    rw [hrecords, read_write hweb]
    rw [hhistory] at hverified
    by_cases hemail : email = E.normalizeEmail contactEmail
    · subst hemail
      have hgiven := hkept contactEmail sn publicKeyHex hcall key hverified
      rw [hgiven] at hhash
      exact ⟨(h _ key hverified).1, record, Function.update_self .., hhash⟩
    · rw [Function.update_of_ne hemail]
      exact h email key hverified

theorem warns_of_changed {contact : String} {key : List Char}
    (hshows : a.shows E = some (contact, key)) (hwarns : a.warns E s = false)
    {record : VerificationRecord} (hrecord : E.readVerifications s.records contact = some record)
    {hash : List Char} (hhash : record.publicKeyHash = some hash) : hash = E.hashPublicKey key := by
  obtain ⟨call, now, takes⟩ := a
  cases call with
  | verifyContact => cases hshows
  | checkKeyChanged contactEmail _ =>
    cases hshows
    rcases checkKeyChanged_cases E now takes s.records contactEmail key with
      ⟨-, -, hsame⟩ | ⟨_, -, -, hchanged⟩
    · exact hsame record hash hrecord hhash
    · simp [Action.warns, hchanged] at hwarns
  | verifyScannedQR scannedPayload localPublicKeyHex =>
    cases hpayload : E.checkPayload now scannedPayload with
    | error result => simp [Action.shows, hpayload] at hshows
    | ok payload =>
      simp only [Action.shows, hpayload, Option.some.injEq, Prod.mk.injEq] at hshows
      obtain ⟨rfl, rfl⟩ := hshows
      rcases checkKeyChanged_cases E now takes s.records payload.email payload.publicKeyHex with
        ⟨-, -, hsame⟩ | ⟨_, -, -, hchanged⟩
      · exact hsame record hash hrecord hhash
      · have hscan := verifyScannedQR_changed localPublicKeyHex hpayload hchanged
        simp [Action.warns, hscan] at hwarns

theorem presents_of_shows {contact : String} {key : List Char}
    (h : a.shows E = some (contact, key)) : a.presents E = some (contact, key) := by
  obtain ⟨call, now, takes⟩ := a
  cases call with
  | verifyContact => cases h
  | checkKeyChanged => exact h
  | verifyScannedQR => exact h

theorem Remembers.warns (hinj : Set.InjOn E.hashPublicKey keys)
    (hkeys : ∀ contact key, a.presents E = some (contact, key) → key ∈ keys)
    (h : Remembers E keys s) : Warns E s a := by
  intro contact key verified hshows hverified hne
  obtain ⟨hmem, record, hrecord, hhash⟩ := h contact verified hverified
  by_contra hwarns
  have heq := warns_of_changed hshows (Bool.not_eq_true _ ▸ hwarns) hrecord hhash
  have hsame : verified = key := hinj hmem (hkeys _ _ (presents_of_shows hshows)) heq
  exact hne (by rw [hsame])

/-! ## Runs -/

/-- The keys that are presented in a run. -/
def keysOf (E : Env) (actions : List Action) : Set (List Char) :=
  {key | ∃ a ∈ actions, ∃ contact, a.presents E = some (contact, key)}

/-- **A changed key stays unverified** when every verification is given a key
and its record is stored; and on the web it raises the warning, when no
verification is taken back without the key. -/
theorem changed_key_unverified {actions : List Action}
    (hinj : Set.InjOn E.hashPublicKey (keysOf E actions)) (hgiven : ∀ a ∈ actions, KeyGiven a) :
    Unchanged E (run E actions)
      ∧ (E.web → Run.Each (step E) (KeyKept E) State.initial actions →
          Run.Each (step E) (Warns E) State.initial actions) := by
  have hmem : ∀ a ∈ actions, KeyGiven a
      ∧ ∀ contact key, a.presents E = some (contact, key) → key ∈ keysOf E actions :=
    fun a ha => ⟨hgiven a ha, fun contact key hpresents => ⟨a, ha, contact, hpresents⟩⟩
  constructor
  · have hverified : Verified E (keysOf E actions) (run E actions) := by
      refine Run.foldl_preserves ?_ actions State.initial hmem ?_
      · exact fun s a ha hs => hs.step hinj ha.2 ha.1
      · intro email record hrecord
        simp [State.initial, Env.readVerifications] at hrecord
    intro contactEmail hcontact
    rw [Env.isContactVerified] at hcontact
    split at hcontact
    · cases hcontact
    · rename_i record hrecord
      obtain ⟨key, -, hhistory, -⟩ := hverified _ record hrecord hcontact
      exact ⟨key, key, hhistory, rfl⟩
  · intro hweb hkept
    have hinitial : Remembers E (keysOf E actions) State.initial := by
      intro email key hkey
      cases hkey
    refine (hkept.and_forall hmem).imp ?_ ?_ hinitial
    · exact fun s a hs ha => hs.warns hinj ha.2.2
    · exact fun s a hs ha => hs.step hweb ha.2.2 ha.2.1 ha.1

/-- The hashes of the keys `0…0` and `1…1`. -/
def sampleKeySha256 (input : Bytes) : ByteVec 32 :=
  if input.head? = some 0x30 then
    ⟨[0x60, 0xe0, 0x5b, 0xd1, 0xb1, 0x95, 0xaf, 0x2f, 0x94, 0x11, 0x2f, 0xa7, 0x19, 0x7a, 0x5c,
      0x88, 0x28, 0x90, 0x58, 0x84, 0x0c, 0xe7, 0xc6, 0xdf, 0x96, 0x93, 0x75, 0x6b, 0xc6, 0x25,
      0x0f, 0x55], rfl⟩
  else
    ⟨[0x31, 0x38, 0xbb, 0x9b, 0xc7, 0x8d, 0xf2, 0x7c, 0x47, 0x3e, 0xcf, 0xd1, 0x41, 0x0f, 0x7b,
      0xd4, 0x5e, 0xba, 0xc1, 0xf5, 0x9c, 0xf3, 0xff, 0x9c, 0xfe, 0x4d, 0xb7, 0x7a, 0xab, 0x7a,
      0xed, 0xd3], rfl⟩

/-- The web, with addresses in lower case and no codes. -/
def sampleEnv : Env := ⟨true, id, id, sampleKeySha256, fun _ => none, fun _ => none⟩

theorem sampleEnv_injOn : Set.InjOn sampleEnv.hashPublicKey {zeroKey, oneKey} := by
  have hne : sampleEnv.hashPublicKey zeroKey ≠ sampleEnv.hashPublicKey oneKey := by
    intro h
    exact absurd (encodeHex_inj h) (by decide)
  intro x hx y hy heq
  rcases hx with rfl | rfl <;> rcases hy with rfl | rfl
  · rfl
  · exact absurd heq hne
  · exact absurd heq.symm hne
  · rfl

def verify (key : Option (List Char)) : Action :=
  ⟨.verifyContact "bob@x.com" true none key, 0, true⟩

def check (key : List Char) : Action := ⟨.checkKeyChanged "bob@x.com" key, 0, true⟩

/-- The user verifies one key, another is presented, and the user verifies
that one. -/
def verifiedTwice : List Action := [verify (some zeroKey), check oneKey, verify (some oneKey)]

/-- The user verifies the key that was presented, without passing it. -/
def verifiedWithoutKey : List Action := [check zeroKey, verify none, check oneKey]

theorem keysOf_verifiedTwice : keysOf sampleEnv verifiedTwice ⊆ {zeroKey, oneKey} := by
  rintro key ⟨a, ha, contact, hpresents⟩
  simp only [verifiedTwice, List.mem_cons, List.not_mem_nil, or_false] at ha
  rcases ha with rfl | rfl | rfl <;> cases hpresents <;> simp

theorem changed_key_unverified_twice :
    Set.InjOn sampleEnv.hashPublicKey (keysOf sampleEnv verifiedTwice)
      ∧ (∀ a ∈ verifiedTwice, KeyGiven a)
      ∧ Run.Each (step sampleEnv) (KeyKept sampleEnv) State.initial verifiedTwice
      ∧ Unchanged sampleEnv (run sampleEnv verifiedTwice)
      ∧ Run.Each (step sampleEnv) (Warns sampleEnv) State.initial verifiedTwice := by
  have hinj := sampleEnv_injOn.mono keysOf_verifiedTwice
  have hgiven : ∀ a ∈ verifiedTwice, KeyGiven a := by
    intro a ha
    simp only [verifiedTwice, List.mem_cons, List.not_mem_nil, or_false] at ha
    rcases ha with rfl | rfl | rfl
    · exact ⟨rfl, by rintro _ _ _ ⟨⟩; rfl⟩
    · exact ⟨rfl, by rintro _ _ _ ⟨⟩⟩
    · exact ⟨rfl, by rintro _ _ _ ⟨⟩; rfl⟩
  have hkept : Run.Each (step sampleEnv) (KeyKept sampleEnv) State.initial verifiedTwice :=
    ⟨by rintro _ _ _ ⟨⟩, by rintro _ _ _ ⟨⟩, by rintro _ _ _ ⟨⟩, trivial⟩
  obtain ⟨hunchanged, hwarns⟩ := changed_key_unverified hinj hgiven
  exact ⟨hinj, hgiven, hkept, hunchanged, hwarns rfl hkept⟩

/-- The contact stays verified with another key, and no warning is raised. -/
theorem changed_key_verified :
    ¬∀ actions, Set.InjOn sampleEnv.hashPublicKey (keysOf sampleEnv actions) →
      Unchanged sampleEnv (run sampleEnv actions)
        ∧ Run.Each (step sampleEnv) (Warns sampleEnv) State.initial actions := by
  intro h
  have hkeys : keysOf sampleEnv verifiedWithoutKey ⊆ {zeroKey, oneKey} := by
    rintro key ⟨a, ha, contact, hpresents⟩
    simp only [verifiedWithoutKey, List.mem_cons, List.not_mem_nil, or_false] at ha
    rcases ha with rfl | rfl | rfl <;> cases hpresents <;> simp
  obtain ⟨presented, verified, hhistory, hsame⟩ :=
    (h verifiedWithoutKey (sampleEnv_injOn.mono hkeys)).1 "bob@x.com" rfl
  have hrun : (run sampleEnv verifiedWithoutKey).history (sampleEnv.normalizeEmail "bob@x.com")
      = ⟨some oneKey, some zeroKey⟩ := rfl
  rw [hrun, History.mk.injEq, Option.some.injEq, Option.some.injEq] at hhistory
  obtain ⟨rfl, rfl⟩ := hhistory
  exact absurd hsame (by decide)

end UsbVault.App.KeyVerification
