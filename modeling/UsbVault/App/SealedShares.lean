import UsbVault.App.SealedBox
import UsbVault.Lib.Digits
import UsbVault.Lib.Run

/-!
# Sealed shares

Whose key is used when a file key is shared and when the vault key is sealed
for an emergency contact. The share service keeps its own key pair, the public
keys registered for email addresses, and the key pairs it has generated for
recipients without one. `designateContact` registers the service's own public
key for the contact and seals to it.

A state also has what the service does not keep as such: the public key of
each recipient's own key pair, which is the one registered for the recipient
or the one generated for them, and the keys that have been sealed.

Every seal opens with the recipient's secret key, and no key is replaced, in
runs that register no other key for an address that has one, and designate
only contacts whose key is the service's own (`seals_open`).
-/

namespace UsbVault.App.SealedShares

open Wire Digits

/-! ## The services -/

structure ShareKeypair where
  publicKeyHex : List Char
  secretKeyHex : List Char
  deriving DecidableEq, Repr

structure ShareRequest where
  id : Nat
  fileId : String
  fileName : String
  senderEmail : String
  recipientEmail : String
  encryptedFileKeyHex : List Char
  deriving DecidableEq, Repr

structure EmergencyContact where
  email : String
  displayName : String
  publicKeyHex : List Char
  encryptedVaultKeyHex : List Char
  deriving DecidableEq, Repr

/-- `Platform.OS === 'web'`, and the primitives. -/
structure Env where
  web : Bool
  P : Primitives
  X : X25519

/-- `_keypair`, and what is in storage. -/
structure Device where
  cached : Option ShareKeypair
  keypair : Option ShareKeypair
  publicKeys : String → Option (List Char)
  keypairs : String → Option ShareKeypair
  shares : List ShareRequest
  contacts : List EmergencyContact

/-- The random numbers of a call: the secret keys of the key pairs it may
generate, and those of its seal. -/
structure Random where
  own : ByteVec 32
  recipient : ByteVec 32
  ephemeral : ByteVec 32
  nonce : ByteVec 24

variable (E : Env)

/-- `generateShareKeypair`, in hex. -/
def generateShareKeypair (secret : ByteVec 32) : ShareKeypair :=
  ⟨encodeHex (E.X.getPublicKey secret).toList, encodeHex secret.toList⟩

/-- What is stored when storage takes or refuses it; off the web nothing is. -/
def Env.writes {α : Type} (takes : Bool) (stored new : α) : α :=
  if E.web ∧ takes then new else stored

def getOrCreateKeypair (takes : Bool) (secret : ByteVec 32) (d : Device) :
    Device × ShareKeypair :=
  match d.cached with
  | some kp => (d, kp)
  | none =>
    match if E.web then d.keypair else none with
    | some kp => ({ d with cached := some kp }, kp)
    | none =>
      let kp := generateShareKeypair E secret
      ({ d with cached := some kp, keypair := E.writes takes d.keypair (some kp) }, kp)

def readPublicKeys (d : Device) : String → Option (List Char) :=
  if E.web then d.publicKeys else fun _ => none

def registerPublicKey (takes : Bool) (email : String) (publicKeyHex : List Char) (d : Device) :
    Device :=
  let keys := Function.update (readPublicKeys E d) email (some publicKeyHex)
  { d with publicKeys := E.writes takes d.publicKeys keys }

/-- `keys[email] || null` -/
def getPublicKey (d : Device) (email : String) : Option (List Char) :=
  (readPublicKeys E d email).filter fun key => key ≠ []

/-- The recipient's public key in `shareFile`, which generates a key pair for a
recipient without one. -/
def recipientKey (takes : Bool) (secret : ByteVec 32) (recipientEmail : String) (d : Device) :
    Device × List Char :=
  match getPublicKey E d recipientEmail with
  | some key => (d, key)
  | none =>
    let kp := generateShareKeypair E secret
    let d := registerPublicKey E takes recipientEmail kp.publicKeyHex d
    let keypairs := Function.update d.keypairs recipientEmail (some kp)
    ({ d with keypairs := E.writes takes d.keypairs keypairs }, kp.publicKeyHex)

/-- How `shareFile` and `designateContact` begin: the own public key is
registered for an address. -/
def registerOwnKey (takes : Bool) (secret : ByteVec 32) (email : String) (d : Device) :
    Device × ShareKeypair :=
  let own := getOrCreateKeypair E takes secret d
  (registerPublicKey E takes email own.2.publicKeyHex own.1, own.2)

/-- `shareFile`; what it registers stays when the seal fails. -/
def shareFile (takes : Bool) (r : Random) (id : Nat)
    (fileId fileName senderEmail recipientEmail : String) (fileKey : Bytes) (d : Device) :
    Device × Except String ShareRequest :=
  let d := (registerOwnKey E takes r.own senderEmail d).1
  let recipient := recipientKey E takes r.recipient recipientEmail d
  let d := recipient.1
  match SealedBox.sealToPublicKey E.P E.X r.ephemeral r.nonce (decodeHex recipient.2)
      fileKey with
  | .error message => (d, .error message)
  | .ok sealed =>
    let share : ShareRequest :=
      ⟨id, fileId, fileName, senderEmail, recipientEmail, encodeHex sealed⟩
    ({ d with shares := E.writes takes d.shares (d.shares ++ [share]) }, .ok share)

/-- `unsealFileKey` -/
def unsealFileKey (takes : Bool) (secret : ByteVec 32) (shareId : Nat) (recipientEmail : String)
    (d : Device) : Except String Bytes :=
  match (if E.web then d.shares else []).find? fun s => s.id = shareId with
  | none => .error "Share not found"
  | some share =>
    let stored := if E.web then d.keypairs recipientEmail else none
    let secretKeyHex :=
      match stored with
      | some kp => kp.secretKeyHex
      | none => (getOrCreateKeypair E takes secret d).2.secretKeyHex
    SealedBox.openSealed E.P E.X (decodeHex secretKeyHex) (decodeHex share.encryptedFileKeyHex)

/-- `designateContact`. The contact is persisted on every platform; storage
that refuses it makes the call fail. -/
def designateContact (takes : Bool) (r : Random) (email displayName : String)
    (vaultKeyHex : List Char) (d : Device) : Device × Except String EmergencyContact :=
  if email = "" ∨ displayName = "" ∨ vaultKeyHex = [] then
    (d, .error "Email, display name, and vault key are required")
  else
    let own := registerOwnKey E takes r.own email d
    let d := own.1
    let publicKeyHex := (getPublicKey E d email).getD own.2.publicKeyHex
    if publicKeyHex = [] then (d, .error s!"Failed to retrieve public key for {email}")
    else
      match SealedBox.sealToPublicKey E.P E.X r.ephemeral r.nonce (decodeHex publicKeyHex)
          (decodeHex vaultKeyHex) with
      | .error message => (d, .error message)
      | .ok sealed =>
        let contact : EmergencyContact := ⟨email, displayName, publicKeyHex, encodeHex sealed⟩
        if takes then ({ d with contacts := d.contacts ++ [contact] }, .ok contact)
        else (d, .error "QuotaExceededError")

/-! ## Runs -/

/-- A stored seal: for whom, of which key. -/
structure Seal where
  recipient : String
  key : Bytes
  sealedHex : List Char
  deriving DecidableEq, Repr

/-- `own` is the public key of each recipient's own key pair. -/
structure State where
  device : Device
  own : String → Option (List Char)
  seals : List Seal

def State.initial : State :=
  ⟨⟨none, none, fun _ => none, fun _ => none, [], []⟩, fun _ => none, []⟩

inductive Call where
  | registerPublicKey (email : String) (publicKeyHex : List Char)
  | shareFile (id : Nat) (fileId fileName senderEmail recipientEmail : String) (fileKey : Bytes)
  | designateContact (email displayName : String) (vaultKeyHex : List Char)
  | restart

/-- A call, its random numbers, and whether storage takes what it writes. -/
structure Action where
  call : Call
  random : Random
  takes : Bool

/-- The public key of the service's own key pair, which the call generates if
there is none yet. -/
def ownKey (a : Action) (d : Device) : List Char :=
  (getOrCreateKeypair E a.takes a.random.own d).2.publicKeyHex

/-- The device when `shareFile` looks for the recipient's key. -/
def registered (a : Action) (senderEmail : String) (d : Device) : Device :=
  (registerOwnKey E a.takes a.random.own senderEmail d).1

/-- A key registered for an address, or generated for it, is its own; the key
that `designateContact` registers is not. -/
def step (s : State) (a : Action) : State :=
  match a.call with
  | .registerPublicKey email publicKeyHex =>
    { s with
      device := SealedShares.registerPublicKey E a.takes email publicKeyHex s.device
      own := Function.update s.own email ((some publicKeyHex).filter fun key => key ≠ []) }
  | .shareFile id fileId fileName senderEmail recipientEmail fileKey =>
    let (device, result) := SealedShares.shareFile E a.takes a.random id fileId fileName
      senderEmail recipientEmail fileKey s.device
    let own := Function.update s.own senderEmail (some (ownKey E a s.device))
    let generated := (generateShareKeypair E a.random.recipient).publicKeyHex
    { device := device
      own :=
        match getPublicKey E (registered E a senderEmail s.device) recipientEmail with
        | some _ => own
        | none => Function.update own recipientEmail (some generated)
      seals :=
        match result with
        | .error _ => s.seals
        | .ok share =>
          E.writes a.takes s.seals
            (s.seals ++ [⟨recipientEmail, fileKey, share.encryptedFileKeyHex⟩]) }
  | .designateContact email displayName vaultKeyHex =>
    let (device, result) := SealedShares.designateContact E a.takes a.random email displayName
      vaultKeyHex s.device
    { s with
      device := device
      seals :=
        match result with
        | .error _ => s.seals
        | .ok contact =>
          s.seals ++ [⟨email, decodeHex vaultKeyHex, contact.encryptedVaultKeyHex⟩] }
  | .restart => { s with device := { s.device with cached := none } }

def run (actions : List Action) : State := actions.foldl (step E) State.initial

/-- A seal opens with the secret key of the recipient's own key pair, and with
the one that is stored for the recipient. -/
def Opens (s : State) (box : Seal) : Prop :=
  ∃ publicKeyHex, s.own box.recipient = some publicKeyHex
    ∧ (∀ secret, decodeHex publicKeyHex = (E.X.getPublicKey secret).toList →
        SealedBox.openSealed E.P E.X secret.toList (decodeHex box.sealedHex) = .ok box.key)
    ∧ ∀ kp, s.device.keypairs box.recipient = some kp →
        SealedBox.openSealed E.P E.X (decodeHex kp.secretKeyHex) (decodeHex box.sealedHex)
          = .ok box.key

/-- A call replaces no public key and no key pair that is stored. -/
def Keeps (s : State) (a : Action) : Prop :=
  ∀ email,
    (∀ key, getPublicKey E s.device email = some key →
        getPublicKey E (step E s a).device email = some key)
      ∧ ∀ kp, s.device.keypairs email = some kp →
          (step E s a).device.keypairs email = some kp

/-- What is written is stored; no address that has a key gets another one; and
a contact is designated whose key is the service's own. -/
def OwnKeys (s : State) (a : Action) : Prop :=
  a.takes ∧
    match a.call with
    | .registerPublicKey email publicKeyHex =>
      ∀ key, getPublicKey E s.device email = some key → key = publicKeyHex
    | .shareFile _ _ _ senderEmail _ _ =>
      ∀ key, getPublicKey E s.device senderEmail = some key → key = ownKey E a s.device
    | .designateContact email _ _ =>
      getPublicKey E s.device email = some (ownKey E a s.device)
    | .restart => True

/-! ## The key store -/

variable {E} {d d' : Device} {s : State} {a : Action} {email : String}

/-- Cached and stored key pairs are generated ones, and the public key of one
that is stored for a recipient is registered. -/
structure Sound (E : Env) (d : Device) : Prop where
  cached : ∀ kp, d.cached = some kp → d.keypair = some kp
  keypair : ∀ kp, d.keypair = some kp → ∃ secret, kp = generateShareKeypair E secret
  keypairs : ∀ email kp, d.keypairs email = some kp →
    (∃ secret, kp = generateShareKeypair E secret)
      ∧ getPublicKey E d email = some kp.publicKeyHex

/-- No public key and no key pair is replaced. -/
structure Grows (E : Env) (d d' : Device) : Prop where
  publicKeys : ∀ email key, getPublicKey E d email = some key → getPublicKey E d' email = some key
  keypairs : ∀ email kp, d.keypairs email = some kp → d'.keypairs email = some kp

theorem Grows.refl (d : Device) : Grows E d d := ⟨fun _ _ h => h, fun _ _ h => h⟩

theorem Grows.trans {d'' : Device} (h : Grows E d d') (h' : Grows E d' d'') : Grows E d d'' :=
  ⟨fun email key hkey => h'.publicKeys email key (h.publicKeys email key hkey),
    fun email kp hkp => h'.keypairs email kp (h.keypairs email kp hkp)⟩

theorem decodeHex_publicKeyHex (secret : ByteVec 32) :
    decodeHex (generateShareKeypair E secret).publicKeyHex = (E.X.getPublicKey secret).toList :=
  decodeHex_encodeHex _

theorem decodeHex_secretKeyHex (secret : ByteVec 32) :
    decodeHex (generateShareKeypair E secret).secretKeyHex = secret.toList :=
  decodeHex_encodeHex _

theorem publicKeyHex_ne_nil (secret : ByteVec 32) :
    (generateShareKeypair E secret).publicKeyHex ≠ [] := by
  intro hnil
  have hdecode := decodeHex_publicKeyHex (E := E) secret
  rw [hnil] at hdecode
  have hlen := congrArg List.length hdecode
  rw [List.Vector.toList_length] at hlen
  cases hlen

theorem ne_nil_of_getPublicKey {key : List Char} (h : getPublicKey E d email = some key) :
    key ≠ [] := by
  rw [getPublicKey, Option.filter_eq_some_iff] at h
  simpa using h.2

theorem getOrCreateKeypair_spec (hweb : E.web) (h : Sound E d) (secret : ByteVec 32) :
    Sound E (getOrCreateKeypair E true secret d).1
      ∧ Grows E d (getOrCreateKeypair E true secret d).1
      ∧ (∀ email, getPublicKey E (getOrCreateKeypair E true secret d).1 email
          = getPublicKey E d email)
      ∧ (getOrCreateKeypair E true secret d).1.keypairs = d.keypairs
      ∧ ∃ own, (getOrCreateKeypair E true secret d).2 = generateShareKeypair E own := by
  unfold getOrCreateKeypair
  cases hcached : d.cached with
  | some kp => exact ⟨h, .refl d, fun _ => rfl, rfl, h.keypair kp (h.cached kp hcached)⟩
  | none =>
    simp only [hweb, if_true]
    cases hkeypair : d.keypair with
    | some kp =>
      refine ⟨⟨?_, ?_, h.keypairs⟩, ⟨fun _ _ hkey => hkey, fun _ _ hkp => hkp⟩, fun _ => rfl,
        rfl, h.keypair kp hkeypair⟩
      · rintro _ ⟨⟩
        rfl
      · intro _ hkp
        exact h.keypair _ (hkeypair.trans hkp)
    | none =>
      refine ⟨⟨?_, ?_, h.keypairs⟩, ⟨fun _ _ hkey => hkey, fun _ _ hkp => hkp⟩, fun _ => rfl,
        rfl, secret, rfl⟩
      · rintro _ ⟨⟩
        simp [Env.writes, hweb]
      · intro kp hkp
        simp only [Env.writes, hweb, and_self, if_true, Option.some.injEq] at hkp
        exact ⟨secret, hkp.symm⟩

theorem getPublicKey_register (hweb : E.web) (key : List Char) (e : String) :
    getPublicKey E (registerPublicKey E true email key d) e
      = if e = email then (some key).filter (fun k => k ≠ []) else getPublicKey E d e := by
  simp only [getPublicKey, readPublicKeys, registerPublicKey, Env.writes, hweb, and_self, if_true]
  by_cases he : e = email
  · rw [he, Function.update_self, if_pos rfl]
  · rw [Function.update_of_ne he, if_neg he]

/-- **A key that is registered already, or the first one.** -/
theorem register_spec (hweb : E.web) (h : Sound E d) {key : List Char}
    (hkey : ∀ k, getPublicKey E d email = some k → k = key) :
    Sound E (registerPublicKey E true email key d)
      ∧ Grows E d (registerPublicKey E true email key d) := by
  have hgrows : Grows E d (registerPublicKey E true email key d) := by
    refine ⟨?_, fun _ _ hkp => hkp⟩
    intro e k hk
    rw [getPublicKey_register hweb]
    split_ifs with he
    · subst he
      obtain rfl := hkey k hk
      rw [Option.filter_some, if_pos (by simpa using ne_nil_of_getPublicKey hk)]
    · exact hk
  refine ⟨⟨h.cached, h.keypair, ?_⟩, hgrows⟩
  intro e kp hkp
  obtain ⟨hgenerated, hpublic⟩ := h.keypairs e kp hkp
  exact ⟨hgenerated, hgrows.publicKeys e _ hpublic⟩

/-- The recipient's key: the one that is registered, or a generated one, which
is then registered and stored. -/
theorem recipientKey_spec (hweb : E.web) (h : Sound E d) (secret : ByteVec 32) (email : String) :
    Sound E (recipientKey E true secret email d).1
      ∧ Grows E d (recipientKey E true secret email d).1
      ∧ getPublicKey E (recipientKey E true secret email d).1 email
          = some (recipientKey E true secret email d).2
      ∧ ∀ e, getPublicKey E (recipientKey E true secret email d).1 e
          = match getPublicKey E d email with
            | some _ => getPublicKey E d e
            | none =>
              if e = email then some (generateShareKeypair E secret).publicKeyHex
              else getPublicKey E d e := by
  unfold recipientKey
  cases hkey : getPublicKey E d email with
  | some key => exact ⟨h, .refl d, hkey, fun _ => rfl⟩
  | none =>
    let kp := generateShareKeypair E secret
    have hfilter : (some kp.publicKeyHex).filter (fun k => k ≠ []) = some kp.publicKeyHex := by
      rw [Option.filter_some, if_pos (by simpa using publicKeyHex_ne_nil secret)]
    obtain ⟨hsound, hgrows⟩ := register_spec hweb h
      (fun (k : List Char) hk => show k = kp.publicKeyHex by rw [hkey] at hk; cases hk)
    have hread : ∀ e, getPublicKey E (registerPublicKey E true email kp.publicKeyHex d) e
        = if e = email then some kp.publicKeyHex else getPublicKey E d e := by
      intro e
      rw [getPublicKey_register hweb, hfilter]
    -- no pair is stored for the recipient yet: its public key would be registered
    have hnone : d.keypairs email = none := by
      cases hpair : d.keypairs email with
      | none => rfl
      | some old =>
        have hpublic := (h.keypairs email old hpair).2
        rw [hkey] at hpublic
        cases hpublic
    simp only [Env.writes, hweb, and_self, if_true]
    refine ⟨⟨hsound.cached, hsound.keypair, ?_⟩, ⟨hgrows.publicKeys, ?_⟩, ?_, hread⟩
    · intro e pair hpair
      dsimp only at hpair
      by_cases he : e = email
      · subst he
        rw [Function.update_self, Option.some.injEq] at hpair
        subst hpair
        exact ⟨⟨secret, rfl⟩, (hread e).trans (if_pos rfl)⟩
      · rw [Function.update_of_ne he] at hpair
        exact hsound.keypairs e pair hpair
    · intro e pair hpair
      have he : e ≠ email := by
        rintro rfl
        rw [hnone] at hpair
        cases hpair
      show Function.update d.keypairs email (some kp) e = some pair
      rw [Function.update_of_ne he]
      exact hpair
    · exact (hread email).trans (if_pos rfl)

/-- The own key is one that `registerPublicKey` registers. -/
theorem ownKey_ne_nil (hweb : E.web) (h : Sound E d) (htakes : a.takes) : ownKey E a d ≠ [] := by
  obtain ⟨-, -, -, -, own, hown⟩ := getOrCreateKeypair_spec hweb h a.random.own
  rw [ownKey, htakes, hown]
  exact publicKeyHex_ne_nil own

/-- The device when `shareFile` looks for the recipient's key. -/
theorem registered_spec (hweb : E.web) (h : Sound E d) (htakes : a.takes)
    (hkey : ∀ key, getPublicKey E d email = some key → key = ownKey E a d) :
    Sound E (registered E a email d) ∧ Grows E d (registered E a email d)
      ∧ ∀ e, getPublicKey E (registered E a email d) e
          = if e = email then some (ownKey E a d) else getPublicKey E d e := by
  obtain ⟨hsound, hgrows, hsame, -, -⟩ := getOrCreateKeypair_spec hweb h a.random.own
  have hne := ownKey_ne_nil hweb h htakes
  rw [ownKey, htakes] at hkey hne ⊢
  rw [registered, htakes, registerOwnKey]
  obtain ⟨hsound', hgrows'⟩ := register_spec hweb hsound
    (fun key hregistered => hkey key ((hsame email).symm.trans hregistered))
  refine ⟨hsound', hgrows.trans hgrows', ?_⟩
  intro e
  have hfilter : (some (getOrCreateKeypair E true a.random.own d).2.publicKeyHex).filter
      (fun k => k ≠ []) = some (getOrCreateKeypair E true a.random.own d).2.publicKeyHex := by
    rw [Option.filter_some, if_pos (by simpa using hne)]
  rw [getPublicKey_register hweb, hsame, hfilter]

/-- **`designateContact`**, of a contact whose key is the service's own. -/
theorem designateContact_spec (hweb : E.web) (h : Sound E d) (htakes : a.takes)
    (displayName : String) (vaultKeyHex : List Char)
    (hkey : getPublicKey E d email = some (ownKey E a d)) {d' : Device}
    {result : Except String EmergencyContact}
    (hout : designateContact E a.takes a.random email displayName vaultKeyHex d = (d', result)) :
    Sound E d' ∧ Grows E d d' ∧ (∀ e, getPublicKey E d' e = getPublicKey E d e)
      ∧ ∀ contact, result = .ok contact → ∃ sealed,
          contact.encryptedVaultKeyHex = encodeHex sealed
            ∧ SealedBox.sealToPublicKey E.P E.X a.random.ephemeral a.random.nonce
                (decodeHex (ownKey E a d)) (decodeHex vaultKeyHex) = .ok sealed := by
  obtain ⟨hsound, hgrows, hread⟩ := registered_spec hweb h htakes
    (fun key hregistered => Option.some.inj (hregistered.symm.trans hkey))
  have hsame : ∀ e, getPublicKey E (registered E a email d) e = getPublicKey E d e := by
    intro e
    rw [hread]
    split_ifs with he
    · rw [he, hkey]
    · rfl
  have hpublic : (getPublicKey E (registerOwnKey E a.takes a.random.own email d).1 email).getD
      (registerOwnKey E a.takes a.random.own email d).2.publicKeyHex = ownKey E a d := by
    have hregistered := hsame email
    rw [registered, hkey] at hregistered
    rw [hregistered, Option.getD_some]
  unfold designateContact at hout
  dsimp only at hout
  rw [hpublic] at hout
  split_ifs at hout with hempty hmissing
  · cases hout
    exact ⟨h, .refl d, fun _ => rfl, fun _ hok => by cases hok⟩
  · cases hout
    exact ⟨hsound, hgrows, hsame, fun _ hok => by cases hok⟩
  · split at hout
    · cases hout
      exact ⟨hsound, hgrows, hsame, fun _ hok => by cases hok⟩
    · rename_i sealed hseal
      cases hout
      refine ⟨⟨hsound.cached, hsound.keypair, hsound.keypairs⟩,
        ⟨hgrows.publicKeys, hgrows.keypairs⟩, hsame, ?_⟩
      rintro _ ⟨⟩
      exact ⟨sealed, rfl, hseal⟩

/-- **`shareFile`**, of a sender whose key is the service's own. -/
theorem shareFile_spec (hweb : E.web) (h : Sound E d) (htakes : a.takes) {id : Nat}
    {fileId fileName senderEmail recipientEmail : String} {fileKey : Bytes}
    (hkey : ∀ key, getPublicKey E d senderEmail = some key → key = ownKey E a d) {d' : Device}
    {result : Except String ShareRequest}
    (hout : shareFile E a.takes a.random id fileId fileName senderEmail recipientEmail fileKey d
      = (d', result)) :
    Sound E d' ∧ Grows E d d'
      ∧ (∀ e, getPublicKey E d' e
          = match getPublicKey E (registered E a senderEmail d) recipientEmail with
            | some _ => getPublicKey E (registered E a senderEmail d) e
            | none =>
              if e = recipientEmail then
                some (generateShareKeypair E a.random.recipient).publicKeyHex
              else getPublicKey E (registered E a senderEmail d) e)
      ∧ ∀ share, result = .ok share → ∃ publicKeyHex sealed,
          getPublicKey E d' recipientEmail = some publicKeyHex
            ∧ share.encryptedFileKeyHex = encodeHex sealed
            ∧ SealedBox.sealToPublicKey E.P E.X a.random.ephemeral a.random.nonce
                (decodeHex publicKeyHex) fileKey = .ok sealed := by
  obtain ⟨hsound, hgrows, -⟩ := registered_spec hweb h htakes hkey
  obtain ⟨hsound', hgrows', hpublic, hread⟩ :=
    recipientKey_spec hweb hsound a.random.recipient recipientEmail
  unfold shareFile at hout
  rw [← registered, htakes] at hout
  dsimp only at hout
  split at hout
  · cases hout
    exact ⟨hsound', hgrows.trans hgrows', hread, fun _ hok => by cases hok⟩
  · rename_i sealed hseal
    cases hout
    refine ⟨⟨hsound'.cached, hsound'.keypair, hsound'.keypairs⟩,
      (hgrows.trans hgrows').trans ⟨fun _ _ hk => hk, fun _ _ hkp => hkp⟩, hread, ?_⟩
    rintro _ ⟨⟩
    exact ⟨_, sealed, hpublic, rfl, hseal⟩

/-! ## Runs -/

/-- The invariant: what the service keeps as the recipients' keys is their own,
and every seal opens with it. -/
structure Inv (E : Env) (s : State) : Prop where
  device : Sound E s.device
  own : ∀ email, s.own email = getPublicKey E s.device email
  opens : ∀ box ∈ s.seals, Opens E s box

theorem opens_of_seal (hP : E.P.xchacha20Poly1305.Correct) (hX : E.X.Correct) (h : Sound E d)
    {ephemeral : ByteVec 32} {nonce : ByteVec 24} {publicKeyHex : List Char} {key sealed : Bytes}
    (hseal : SealedBox.sealToPublicKey E.P E.X ephemeral nonce (decodeHex publicKeyHex) key
      = .ok sealed) (hdevice : s.device = d) (hown : s.own email = some publicKeyHex)
    (hkey : getPublicKey E d email = some publicKeyHex) :
    Opens E s ⟨email, key, encodeHex sealed⟩ := by
  have hopen : ∀ secret, decodeHex publicKeyHex = (E.X.getPublicKey secret).toList →
      SealedBox.openSealed E.P E.X secret.toList (decodeHex (encodeHex sealed)) = .ok key := by
    intro secret hpublic
    rw [decodeHex_encodeHex]
    exact SealedBox.openSealed_sealToPublicKey hP hX hpublic hseal
  refine ⟨publicKeyHex, hown, hopen, ?_⟩
  intro kp hkp
  rw [hdevice] at hkp
  obtain ⟨⟨secret, rfl⟩, hpublic⟩ := h.keypairs email kp hkp
  obtain rfl : publicKeyHex = _ := Option.some.inj (hkey.symm.trans hpublic)
  rw [decodeHex_secretKeyHex]
  exact hopen secret (decodeHex_publicKeyHex secret)

theorem Inv.opens_mono {s' : State} (h : Inv E s) (hdevice : Sound E s'.device)
    (hown : ∀ email, s'.own email = getPublicKey E s'.device email)
    (hgrows : Grows E s.device s'.device) {box : Seal} (hbox : box ∈ s.seals) :
    Opens E s' box := by
  obtain ⟨publicKeyHex, hkey, hopen, -⟩ := h.opens box hbox
  rw [h.own] at hkey
  have hkey' := hgrows.publicKeys _ _ hkey
  refine ⟨publicKeyHex, (hown _).trans hkey', hopen, ?_⟩
  intro kp hkp
  obtain ⟨⟨secret, rfl⟩, hpublic⟩ := hdevice.keypairs _ kp hkp
  obtain rfl : publicKeyHex = _ := Option.some.inj (hkey'.symm.trans hpublic)
  rw [decodeHex_secretKeyHex]
  exact hopen secret (decodeHex_publicKeyHex secret)

theorem Inv.registerPublicKey (hweb : E.web) (h : Inv E s) {email : String}
    {publicKeyHex : List Char}
    (hkey : ∀ key, getPublicKey E s.device email = some key → key = publicKeyHex) (r : Random) :
    Inv E (step E s ⟨.registerPublicKey email publicKeyHex, r, true⟩)
      ∧ Grows E s.device (step E s ⟨.registerPublicKey email publicKeyHex, r, true⟩).device := by
  obtain ⟨hsound, hgrows⟩ := register_spec hweb h.device hkey
  have hread : ∀ e, Function.update s.own email
      ((some publicKeyHex).filter fun key => key ≠ []) e
        = getPublicKey E (SealedShares.registerPublicKey E true email publicKeyHex s.device) e := by
    intro e
    rw [getPublicKey_register hweb]
    by_cases he : e = email
    · rw [he, Function.update_self, if_pos rfl]
    · rw [Function.update_of_ne he, if_neg he, h.own]
  exact ⟨⟨hsound, hread, fun box hbox => h.opens_mono hsound hread hgrows hbox⟩, hgrows⟩

theorem Inv.restart (h : Inv E s) (r : Random) :
    Inv E (step E s ⟨.restart, r, true⟩)
      ∧ Grows E s.device (step E s ⟨.restart, r, true⟩).device := by
  let device : Device := { s.device with cached := none }
  have hsound : Sound E device := by
    refine ⟨?_, h.device.keypair, h.device.keypairs⟩
    rintro _ ⟨⟩
  have hgrows : Grows E s.device device := ⟨fun _ _ hk => hk, fun _ _ hkp => hkp⟩
  have howns : ∀ e, s.own e = getPublicKey E device e := h.own
  refine ⟨⟨hsound, howns, ?_⟩, hgrows⟩
  intro box hbox
  refine h.opens_mono ?_ ?_ ?_ hbox
  · exact hsound
  · exact howns
  · exact hgrows

theorem Inv.designateContact (hweb : E.web) (hP : E.P.xchacha20Poly1305.Correct)
    (hX : E.X.Correct) (h : Inv E s) {email displayName : String} {vaultKeyHex : List Char}
    {r : Random} (hkey : getPublicKey E s.device email
      = some (ownKey E ⟨.designateContact email displayName vaultKeyHex, r, true⟩ s.device)) :
    Inv E (step E s ⟨.designateContact email displayName vaultKeyHex, r, true⟩)
      ∧ Grows E s.device
          (step E s ⟨.designateContact email displayName vaultKeyHex, r, true⟩).device := by
  simp only [SealedShares.step]
  cases hout : SealedShares.designateContact E true r email displayName vaultKeyHex s.device with
  | mk device result =>
    obtain ⟨hsound, hgrows, hread, hcontact⟩ := designateContact_spec
      (a := ⟨.designateContact email displayName vaultKeyHex, r, true⟩) hweb h.device rfl
      displayName vaultKeyHex hkey hout
    have howns : ∀ e, s.own e = getPublicKey E device e :=
      fun e => (h.own e).trans (hread e).symm
    refine ⟨⟨hsound, howns, ?_⟩, hgrows⟩
    intro box hbox
    cases result with
    | error => exact h.opens_mono hsound howns hgrows hbox
    | ok contact =>
      rcases List.mem_append.mp hbox with hold | hnew
      · exact h.opens_mono hsound howns hgrows hold
      · obtain ⟨sealed, hhex, hseal⟩ := hcontact contact rfl
        rw [List.mem_singleton.mp hnew, hhex]
        have hpublic := (hread email).trans hkey
        exact opens_of_seal hP hX hsound hseal rfl ((howns email).trans hpublic) hpublic

theorem Inv.shareFile (hweb : E.web) (hP : E.P.xchacha20Poly1305.Correct) (hX : E.X.Correct)
    (h : Inv E s) {id : Nat} {fileId fileName senderEmail recipientEmail : String}
    {fileKey : Bytes} {r : Random} (hkey : ∀ key, getPublicKey E s.device senderEmail = some key →
      key = ownKey E ⟨.shareFile id fileId fileName senderEmail recipientEmail fileKey, r, true⟩
        s.device) :
    Inv E (step E s ⟨.shareFile id fileId fileName senderEmail recipientEmail fileKey, r, true⟩)
      ∧ Grows E s.device (step E s
          ⟨.shareFile id fileId fileName senderEmail recipientEmail fileKey, r, true⟩).device := by
  let a : Action :=
    ⟨.shareFile id fileId fileName senderEmail recipientEmail fileKey, r, true⟩
  obtain ⟨-, -, hregistered⟩ := registered_spec (a := a) hweb h.device rfl hkey
  cases hout : SealedShares.shareFile E true r id fileId fileName senderEmail recipientEmail
      fileKey s.device with
  | mk device result =>
    obtain ⟨hsound, hgrows, hread, hshare⟩ :=
      shareFile_spec (a := a) hweb h.device rfl hkey hout
    have hsender : ∀ e, Function.update s.own senderEmail (some (ownKey E a s.device)) e
        = getPublicKey E (registered E a senderEmail s.device) e := by
      intro e
      rw [hregistered]
      by_cases he : e = senderEmail
      · rw [he, Function.update_self, if_pos rfl]
      · rw [Function.update_of_ne he, if_neg he, h.own]
    have howns : ∀ e, (SealedShares.step E s a).own e = getPublicKey E device e := by
      intro e
      rw [hread]
      simp only [SealedShares.step, a]
      cases getPublicKey E (registered E a senderEmail s.device) recipientEmail with
      | some _ => exact hsender e
      | none =>
        by_cases he : e = recipientEmail
        · rw [he]
          simp only [Function.update_self, if_true]
        · simp only [Function.update_of_ne he, if_neg he]
          exact hsender e
    have hdevice : (SealedShares.step E s a).device = device := by
      simp only [SealedShares.step, a, hout]
    refine ⟨⟨by rw [hdevice]; exact hsound, by rw [hdevice]; exact howns, ?_⟩,
      by rw [hdevice]; exact hgrows⟩
    intro box hbox
    have hold : box ∈ s.seals → Opens E (SealedShares.step E s a) box :=
      h.opens_mono (by rw [hdevice]; exact hsound) (by rw [hdevice]; exact howns)
        (by rw [hdevice]; exact hgrows)
    simp only [SealedShares.step, hout, Env.writes, hweb, and_self, if_true] at hbox
    cases result with
    | error => exact hold hbox
    | ok share =>
      rcases List.mem_append.mp hbox with hbefore | hnew
      · exact hold hbefore
      · obtain ⟨publicKeyHex, sealed, hpublic, hhex, hseal⟩ := hshare share rfl
        rw [List.mem_singleton.mp hnew, hhex]
        exact opens_of_seal hP hX hsound hseal hdevice ((howns _).trans hpublic) hpublic

/-- **One call** keeps the invariant, and replaces no key. -/
theorem Inv.step (hweb : E.web) (hP : E.P.xchacha20Poly1305.Correct) (hX : E.X.Correct)
    (hown : OwnKeys E s a) (h : Inv E s) :
    Inv E (step E s a) ∧ Grows E s.device (step E s a).device := by
  obtain ⟨call, r, takes⟩ := a
  obtain ⟨htakes, hkey⟩ := hown
  obtain rfl : takes = true := htakes
  cases call with
  | registerPublicKey email publicKeyHex => exact h.registerPublicKey hweb hkey r
  | restart => exact h.restart r
  | designateContact email displayName vaultKeyHex => exact h.designateContact hweb hP hX hkey
  | shareFile id fileId fileName senderEmail recipientEmail fileKey =>
    exact h.shareFile hweb hP hX hkey

/-- **Seals reach the right recipient**, and no key is replaced. -/
theorem seals_open {actions : List Action} (hweb : E.web)
    (hP : E.P.xchacha20Poly1305.Correct) (hX : E.X.Correct)
    (hrun : Run.Each (step E) (OwnKeys E) State.initial actions) :
    (∀ box ∈ (run E actions).seals, Opens E (run E actions) box)
      ∧ Run.Each (step E) (Keeps E) State.initial actions := by
  have hinitial : Inv E State.initial := by
    refine ⟨⟨?_, ?_, ?_⟩, ?_, ?_⟩
    · rintro _ ⟨⟩
    · rintro _ ⟨⟩
    · rintro _ _ ⟨⟩
    · intro email
      simp [State.initial, getPublicKey, readPublicKeys]
    · rintro _ ⟨⟩
  constructor
  · exact (hrun.preserves (fun s a ha hs => (hs.step hweb hP hX ha).1) hinitial).opens
  · refine hrun.imp ?_ (fun s a hs ha => (hs.step hweb hP hX ha).1) hinitial
    intro s a hs ha email
    obtain ⟨hpublic, hpairs⟩ := (hs.step hweb hP hX ha).2
    exact ⟨hpublic email, hpairs email⟩

/-- **`unsealFileKey`** of a recipient whose key pair is stored gives the key
that was sealed. -/
theorem unsealFileKey_stored (hweb : E.web) {share : ShareRequest} {kp : ShareKeypair}
    {key : Bytes}
    (hfind : s.device.shares.find? (fun other => other.id = share.id) = some share)
    (hpair : s.device.keypairs share.recipientEmail = some kp)
    (hopens : Opens E s ⟨share.recipientEmail, key, share.encryptedFileKeyHex⟩) (takes : Bool)
    (secret : ByteVec 32) :
    unsealFileKey E takes secret share.id share.recipientEmail s.device = .ok key := by
  obtain ⟨-, -, -, hstored⟩ := hopens
  simp only [unsealFileKey, hweb, if_true, hfind, hpair]
  exact hstored kp hpair

/-- The cipher's key depends on the shared secret, which is the difference of a
secret and a public key. -/
def sampleEnv : Env where
  web := true
  P := { transparentPrimitives with
    hkdfSha256 := fun _ secret _ n => lastBytes secret n
    xchacha20Poly1305 := keyedAead 24 }
  X := {
    getPublicKey := id
    getSharedSecret := fun a b => ⟨List.zipWith (· ^^^ ·) a.toList b.toList, xor32_length a b⟩ }

theorem sampleEnv_correct : sampleEnv.X.Correct where
  comm _ _ := Subtype.ext (List.zipWith_comm_of_comm UInt8.xor_comm)

/-- A secret key of equal bytes. -/
def sampleKey (b : UInt8) : ByteVec 32 := ⟨List.replicate 32 b, replicate32_length b⟩

def sampleRandom : Random := ⟨sampleKey 1, sampleKey 3, sampleKey 4, zeroVec 24⟩

def bobKey : List Char := (generateShareKeypair sampleEnv (sampleKey 2)).publicKeyHex

def registerBob : Action := ⟨.registerPublicKey "bob" bobKey, sampleRandom, true⟩

/-- Files for Bob, who has registered a key, and for Carol, who has not; and the
vault key for the owner's own address. -/
def sharedWithBobAndCarol : List Action :=
  [registerBob, ⟨.shareFile 0 "f" "f" "alice" "bob" [7], sampleRandom, true⟩,
    ⟨.shareFile 1 "g" "g" "alice" "carol" [8], sampleRandom, true⟩,
    ⟨.designateContact "alice" "Alice" ['0', '9'], sampleRandom, true⟩]

/-- The vault key for Bob, who has registered a key. -/
def designatedBob : List Action :=
  [registerBob, ⟨.designateContact "bob" "Bob" ['0', '7'], sampleRandom, true⟩]

/-- What is stored for Bob: the key, sealed to the service's own key. -/
def sealedForBob : List Char :=
  encodeHex ((sampleKey 4).toList ++ (zeroVec 24).toList ++ 7 :: List.replicate 16 5)

theorem seals_open_shared :
    Run.Each (step sampleEnv) (OwnKeys sampleEnv) State.initial sharedWithBobAndCarol
      ∧ (run sampleEnv sharedWithBobAndCarol).seals.length = 3
      ∧ ∀ box ∈ (run sampleEnv sharedWithBobAndCarol).seals,
          Opens sampleEnv (run sampleEnv sharedWithBobAndCarol) box := by
  have hrun : Run.Each (step sampleEnv) (OwnKeys sampleEnv) State.initial
      sharedWithBobAndCarol := by
    refine ⟨⟨rfl, ?_⟩, ⟨rfl, ?_⟩, ⟨rfl, ?_⟩, ⟨rfl, rfl⟩, trivial⟩
    · rintro _ ⟨⟩
    · rintro _ ⟨⟩
    · rintro _ ⟨⟩
      rfl
  exact ⟨hrun, rfl, (seals_open rfl (keyedAead_correct 24) sampleEnv_correct hrun).1⟩

/-- Bob cannot open the vault key. -/
theorem designated_cannot_open :
    ¬∀ actions, (∀ box ∈ (run sampleEnv actions).seals, Opens sampleEnv (run sampleEnv actions) box)
      ∧ Run.Each (step sampleEnv) (Keeps sampleEnv) State.initial actions := by
  intro h
  obtain ⟨publicKeyHex, hown, hopen, -⟩ :=
    (h designatedBob).1 ⟨"bob", [7], sealedForBob⟩ (List.mem_singleton.mpr rfl)
  obtain rfl : bobKey = publicKeyHex := Option.some.inj hown
  have hfails : SealedBox.openSealed sampleEnv.P sampleEnv.X (sampleKey 2).toList
      (decodeHex sealedForBob)
        = .error "Public key decryption failed: Failed to open sealed ciphertext" := rfl
  have hopened := hopen (sampleKey 2) rfl
  rw [hfails] at hopened
  cases hopened

end UsbVault.App.SealedShares
