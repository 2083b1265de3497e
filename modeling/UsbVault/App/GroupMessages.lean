import Mathlib.Logic.Function.Basic
import UsbVault.App.SealedBox
import UsbVault.Lib.Calls
import UsbVault.Lib.Digits
import UsbVault.Lib.Keyed
import UsbVault.Lib.Utf8

/-!
# Group messages

A group has a key, which is sealed to each member. Members are added and removed,
the key is rotated, and members leave and send messages, in calls that await
the cipher between reading the group and changing it.

`Consistent` says that the sealed key of every member opens to the group key
and that the key history has each version. It holds along every run in which no
member is added under a key that has been replaced meanwhile, and no key is put
in place without a seal for each member (`consistent_run`).
-/

namespace UsbVault.App.GroupMessages

open Wire Digits Calls

/-! ## Data -/

inductive Role where
  | admin
  | member
  deriving DecidableEq, Repr

structure GroupMember where
  email : String
  publicKeyHex : List Char
  role : Role
  encryptedGroupKeyHex : List Char
  deriving DecidableEq, Repr

structure GroupConversation where
  id : String
  members : List GroupMember
  groupKeyHex : List Char
  keyVersion : Nat
  deriving DecidableEq, Repr

structure GroupKeyRotationHistory where
  version : Nat
  keyHex : List Char
  createdBy : String
  deriving DecidableEq, Repr

structure GroupMessage where
  senderEmail : String
  encryptedContentHex : List Char
  keyVersion : Nat
  deriving DecidableEq, Repr

/-- Whom a new key is sealed to. -/
structure Recipient where
  email : String
  publicKeyHex : List Char
  deriving DecidableEq, Repr

structure SealedKey where
  email : String
  encryptedKeyHex : List Char
  deriving DecidableEq, Repr

def GroupMember.recipient (m : GroupMember) : Recipient := ⟨m.email, m.publicKeyHex⟩

/-- The sealed boxes, and AES-GCM of the browser. -/
structure Env where
  P : Primitives
  X : X25519
  aesGcm : Aead 12

/-- Whether what a call awaits ends well, and the random numbers: a group key,
what each seal takes, and the nonce of a message. -/
structure Outcome where
  works : Bool
  key : ByteVec 32
  ephemeral : Nat → ByteVec 32
  nonce : Nat → ByteVec 24
  iv : ByteVec 12

/-! ## Sealing -/

variable (E : Env)

/-- `hex.match(/.{1,2}/g)!`, which is null for no text. -/
def hexBytes (hex : List Char) : Option Bytes := if hex = [] then none else some (decodeHex hex)

def sealKey (ephemeral : ByteVec 32) (nonce : ByteVec 24) (publicKeyHex : List Char)
    (keyBytes : Bytes) : Option (List Char) :=
  (hexBytes publicKeyHex).bind fun publicKeyBytes =>
    match SealedBox.sealToPublicKey E.P E.X ephemeral nonce publicKeyBytes keyBytes with
    | .ok sealed => some (encodeHex sealed)
    | .error _ => none

/-- The seals for the members from the `i`-th on. -/
def sealAll (o : Outcome) (keyHex : List Char) : Nat → List Recipient → Option (List SealedKey)
  | _, [] => some []
  | i, m :: ms => do
      let encryptedKeyHex ← sealKey E (o.ephemeral i) (o.nonce i) m.publicKeyHex (decodeHex keyHex)
      let rest ← sealAll o keyHex (i + 1) ms
      return ⟨m.email, encryptedKeyHex⟩ :: rest

def generateAndSealGroupKey (members : List Recipient) (o : Outcome) :
    Option (List Char × List SealedKey) :=
  let keyHex := encodeHex o.key.toList
  if o.works then (sealAll E o keyHex 0 members).map fun sealedKeys => (keyHex, sealedKeys)
  else none

/-- `publicKey` is `getPublicKey(email) || ''`. -/
def createGroup (id creatorEmail : String) (memberEmails : List String)
    (publicKey : String → List Char) (o : Outcome) : Option GroupConversation :=
  let allMembers := (creatorEmail :: memberEmails).eraseDups
  (generateAndSealGroupKey E (allMembers.map fun email => ⟨email, publicKey email⟩) o).map
    fun (keyHex, sealedKeys) =>
      { id := id
        members := allMembers.map fun email =>
          { email := email
            publicKeyHex := publicKey email
            role := if email = creatorEmail then .admin else .member
            encryptedGroupKeyHex :=
              match Keyed.find SealedKey.email email sealedKeys with
              | some sealed => sealed.encryptedKeyHex
              | none => [] }
        groupKeyHex := keyHex
        keyVersion := 1 }

/-! ## The service -/

/-- The group, which calls that have begun keep when it is deleted; whether it
is listed still; its key history and its messages. The code knows nothing of
the rest: how many members have gone, when the last with an address has, the
keys that were made, each with the number of those gone when its making began,
and who each key was sealed to. -/
structure Store where
  group : GroupConversation
  listed : Bool
  keyHistory : Option (List GroupKeyRotationHistory)
  messages : Option (List GroupMessage)
  gone : Nat
  goneAt : String → Nat
  keys : List (List Char × Nat)
  seals : List (String × List Char)

/-- After `createGroup`. -/
def Store.initial (creatorEmail : String) (group : GroupConversation) : Store where
  group := group
  listed := true
  keyHistory := some [⟨1, group.groupKeyHex, creatorEmail⟩]
  messages := some []
  gone := 0
  goneAt _ := 0
  keys := [(group.groupKeyHex, 0)]
  seals := group.members.map fun m => (m.email, group.groupKeyHex)

/-- A call at its await, with what it has read, or after its last change. -/
inductive Pc where
  | sealing (newMemberEmail : String) (publicKeyHex keyHex : List Char)
  | rotating (members : List Recipient) (adminEmail : String) (begun : Nat)
  | sending (senderEmail : String) (plaintext : String) (keyHex : List Char)
  | failed (message : String)
  | finished
  deriving DecidableEq, Repr

namespace Store

def find (st : Store) (email : String) : Option GroupMember :=
  Keyed.find GroupMember.email email st.group.members

def isAdmin (st : Store) (email : String) : Bool := (st.find email).any fun m => m.role = .admin

def notFound (st : Store) : Pc := .failed s!"Group {st.group.id} not found"

/-- One with this address goes, if there is one. -/
def depart (email : String) (st : Store) : Store :=
  if (st.find email).isSome then
    { st with gone := st.gone + 1, goneAt := Function.update st.goneAt email (st.gone + 1) }
  else st

def setMembers (members : List GroupMember) (st : Store) : Store :=
  { st with group := { st.group with members := members } }

/-! ### Up to the first await -/

def addMember (newMemberEmail adminEmail : String) (publicKeyHex : Option (List Char))
    (st : Store) : Pc :=
  if st.listed = false then st.notFound
  else if st.isAdmin adminEmail = false then .failed "Only admins can add members"
  else if (st.find newMemberEmail).isSome then .failed "Member already in group"
  else
    match publicKeyHex.filter fun hex => hex ≠ [] with
    | none => .failed s!"Could not fetch public key for {newMemberEmail}"
    | some publicKeyHex => .sealing newMemberEmail publicKeyHex st.group.groupKeyHex

def rotateGroupKey (adminEmail : String) (st : Store) : Pc :=
  if st.listed = false then st.notFound
  else if st.isAdmin adminEmail = false then .failed "Only admins can rotate keys"
  else .rotating (st.group.members.map GroupMember.recipient) adminEmail st.gone

def removeMember (memberEmail adminEmail : String) (st : Store) : Store × Pc :=
  if st.listed = false then (st, st.notFound)
  else if st.isAdmin adminEmail = false then (st, .failed "Only admins can remove members")
  else
    let st := (st.depart memberEmail).setMembers
      (st.group.members.filter fun m => m.email ≠ memberEmail)
    (st, st.rotateGroupKey adminEmail)

def sendGroupMessage (senderEmail plaintext : String) (st : Store) : Pc :=
  if st.listed = false then st.notFound
  else if (st.find senderEmail).isNone then
    .failed s!"{senderEmail} is not a member of group {st.group.id}"
  else .sending senderEmail plaintext st.group.groupKeyHex

/-- `groups.delete`, `messages.delete` and `keyHistory.delete`. -/
def delete (st : Store) : Store := { st with listed := false, messages := none, keyHistory := none }

def deleteGroup (adminEmail : String) (st : Store) : Store × Pc :=
  if st.listed = false then (st, st.notFound)
  else if st.isAdmin adminEmail = false then (st, .failed "Only admins can delete groups")
  else (st.delete, .finished)

/-- `members[0].role = 'admin'` -/
def promote : List GroupMember → List GroupMember
  | [] => []
  | m :: ms => { m with role := .admin } :: ms

def leaveGroup (memberEmail : String) (st : Store) : Store × Pc :=
  if st.listed = false then (st, st.notFound)
  else
    match st.find memberEmail with
    | none => (st, .failed s!"{memberEmail} is not a member")
    | some leaving =>
      let members := st.group.members.eraseP fun m => m.email = memberEmail
      let members := if leaving.role = .admin then promote members else members
      let st := (st.depart memberEmail).setMembers members
      (if members = [] then st.delete else st, .finished)

/-! ### After the await -/

/-- `addMember` when the key is sealed. -/
def pushMember (newMemberEmail : String) (publicKeyHex keyHex encryptedGroupKeyHex : List Char)
    (st : Store) : Store :=
  { st.setMembers (st.group.members
      ++ [⟨newMemberEmail, publicKeyHex, .member, encryptedGroupKeyHex⟩]) with
    seals := st.seals ++ [(newMemberEmail, keyHex)] }

/-- The members with their new seals, up to the first that has none, where
`sealed.encryptedKeyHex` throws; and whether there was no such member. -/
def applySeals (sealedKeys : List SealedKey) : List GroupMember → List GroupMember × Bool
  | [] => ([], true)
  | m :: ms =>
    match Keyed.find SealedKey.email m.email sealedKeys with
    | none => (m :: ms, false)
    | some sealed =>
      let rest := applySeals sealedKeys ms
      ({ m with encryptedGroupKeyHex := sealed.encryptedKeyHex } :: rest.1, rest.2)

/-- `rotateGroupKey` when the new key is sealed. -/
def applyKey (members : List Recipient) (adminEmail : String) (begun : Nat) (keyHex : List Char)
    (sealedKeys : List SealedKey) (st : Store) : Store × Pc :=
  let applied := applySeals sealedKeys st.group.members
  let keyVersion := st.group.keyVersion + 1
  let st := { st with
    group := { st.group with
      groupKeyHex := keyHex, keyVersion := keyVersion, members := applied.1 }
    keys := st.keys ++ [(keyHex, begun)]
    seals := st.seals ++ members.map fun m => (m.email, keyHex) }
  if applied.2 then
    ({ st with keyHistory := some (st.keyHistory.getD [] ++ [⟨keyVersion, keyHex, adminEmail⟩]) },
      .finished)
  else (st, .failed "Cannot read properties of undefined (reading 'encryptedKeyHex')")

def pushMessage (senderEmail : String) (encryptedContentHex : List Char) (st : Store) : Store :=
  { st with
    messages := some (st.messages.getD []
      ++ [⟨senderEmail, encryptedContentHex, st.group.keyVersion⟩]) }

end Store

/-- The nonce and the ciphertext, under a key of the right length. -/
def encryptMessage (o : Outcome) (keyHex : List Char) (plaintext : String) : Option (List Char) :=
  if h : (decodeHex keyHex).length = 32 ∧ o.works then
    (E.aesGcm.encrypt ⟨decodeHex keyHex, h.1⟩ o.iv [] (Utf8.encode plaintext.toList)).map
      fun encrypted => encodeHex (o.iv.toList ++ encrypted)
  else none

def exec (_ : Nat) (st : Store) (pc : Pc) (o : Outcome) : Store × Pc :=
  match pc with
  | .sealing newMemberEmail publicKeyHex keyHex =>
    match if o.works then sealKey E (o.ephemeral 0) (o.nonce 0) publicKeyHex (decodeHex keyHex)
      else none with
    | none => (st, .failed "the key cannot be sealed")
    | some encryptedGroupKeyHex =>
      (st.pushMember newMemberEmail publicKeyHex keyHex encryptedGroupKeyHex, .finished)
  | .rotating members adminEmail begun =>
    match generateAndSealGroupKey E members o with
    | none => (st, .failed "the key cannot be made or sealed")
    | some (keyHex, sealedKeys) => st.applyKey members adminEmail begun keyHex sealedKeys
  | .sending senderEmail plaintext keyHex =>
    match encryptMessage E o keyHex plaintext with
    | none => (st, .failed "the message cannot be encrypted")
    | some encryptedContentHex => (st.pushMessage senderEmail encryptedContentHex, .finished)
  | .failed message => (st, .failed message)
  | .finished => (st, .finished)

inductive Event where
  | addMember (newMemberEmail adminEmail : String) (publicKeyHex : Option (List Char))
  | removeMember (memberEmail adminEmail : String)
  | rotateGroupKey (adminEmail : String)
  | leaveGroup (memberEmail : String)
  | sendGroupMessage (senderEmail plaintext : String)
  | deleteGroup (adminEmail : String)
  deriving DecidableEq, Repr

def world (st : Store) : Event → Store × Option Pc
  | .addMember newMemberEmail adminEmail publicKeyHex =>
    (st, some (st.addMember newMemberEmail adminEmail publicKeyHex))
  | .removeMember memberEmail adminEmail =>
    ((st.removeMember memberEmail adminEmail).1, some (st.removeMember memberEmail adminEmail).2)
  | .rotateGroupKey adminEmail => (st, some (st.rotateGroupKey adminEmail))
  | .leaveGroup memberEmail =>
    ((st.leaveGroup memberEmail).1, some (st.leaveGroup memberEmail).2)
  | .sendGroupMessage senderEmail plaintext =>
    (st, some (st.sendGroupMessage senderEmail plaintext))
  | .deleteGroup adminEmail =>
    ((st.deleteGroup adminEmail).1, some (st.deleteGroup adminEmail).2)

def service : Service Store Pc Event Outcome := ⟨world, exec E⟩

/-! ## The property -/

/-- The sealed key of a member opens to a key, with the secret key that belongs
to the member's public key. -/
def Opens (keyHex : List Char) (m : GroupMember) : Prop :=
  ∀ secret, hexBytes m.publicKeyHex = some (E.X.getPublicKey secret).toList →
    SealedBox.openSealed E.P E.X secret.toList (decodeHex m.encryptedGroupKeyHex)
      = .ok (decodeHex keyHex)

/-- What the group, while it is listed, has of its key. -/
structure Consistent (st : Store) : Prop where
  members : ∀ m ∈ st.group.members, Opens E st.group.groupKeyHex m
  history : ∃ entries, st.keyHistory = some entries
    ∧ entries.map GroupKeyRotationHistory.version = List.range' 1 st.group.keyVersion
    ∧ entries.getLast?.map GroupKeyRotationHistory.keyHex = some st.group.groupKeyHex

/-- What a call finds when it goes on: a new member gets the key the group has
by now, and a new key has a seal for each member the group has by now. A call
that fails may find what it likes. -/
def PcOrderly (st : Store) (o : Outcome) : Pc → Prop
  | .sealing _ publicKeyHex keyHex =>
    (sealKey E (o.ephemeral 0) (o.nonce 0) publicKeyHex (decodeHex keyHex)).isSome →
      keyHex = st.group.groupKeyHex
  | .rotating members _ _ =>
    (generateAndSealGroupKey E members o).isSome → ∀ m ∈ st.group.members,
      Keyed.find Recipient.email m.email members = some m.recipient
  | _ => True

/-- A group that is listed no more is of no concern. -/
def Orderly (s : State Store Pc) : Action Event Outcome → Prop
  | .world _ => True
  | .exec k o => s.store.listed = true → ∀ pc ∈ s.calls[k]?, PcOrderly E s.store o pc

instance (st : Store) (o : Outcome) (pc : Pc) : Decidable (PcOrderly E st o pc) :=
  match pc with
  | .sealing _ _ _ | .rotating _ _ _ => inferInstanceAs (Decidable (_ → _))
  | .sending _ _ _ | .failed _ | .finished => isTrue trivial

instance (s : State Store Pc) (a : Action Event Outcome) : Decidable (Orderly E s a) :=
  match a with
  | .world _ => isTrue trivial
  | .exec _ _ => inferInstanceAs (Decidable (_ → _))

/-! ## Seals -/

variable {E}

/-- A text that was made by sealing a key. -/
def Sealed (E : Env) (publicKeyHex keyHex encryptedKeyHex : List Char) : Prop :=
  ∃ ephemeral nonce,
    sealKey E ephemeral nonce publicKeyHex (decodeHex keyHex) = some encryptedKeyHex

/-- **What was sealed opens.** -/
theorem Sealed.opens (hP : E.P.xchacha20Poly1305.Correct) (hX : E.X.Correct) {m : GroupMember}
    {keyHex : List Char} (h : Sealed E m.publicKeyHex keyHex m.encryptedGroupKeyHex) :
    Opens E keyHex m := by
  intro secret hpublic
  obtain ⟨ephemeral, nonce, hseal⟩ := h
  rw [sealKey, hpublic, Option.bind_some] at hseal
  split at hseal
  · rename_i sealed hok
    rw [← Option.some.inj hseal, decodeHex_encodeHex]
    exact SealedBox.openSealed_sealToPublicKey hP hX rfl hok
  · cases hseal

theorem sealAll_forall₂ {o : Outcome} {keyHex : List Char} {members : List Recipient} :
    ∀ {i : Nat} {sealedKeys : List SealedKey}, sealAll E o keyHex i members = some sealedKeys →
      List.Forall₂ (fun m s => m.email = s.email ∧ Sealed E m.publicKeyHex keyHex s.encryptedKeyHex)
        members sealedKeys := by
  induction members with
  | nil =>
    intro i sealedKeys h
    cases h
    exact .nil
  | cons m ms ih =>
    intro i sealedKeys h
    simp only [sealAll, bind, pure, Option.bind_eq_some_iff, Option.some.injEq] at h
    obtain ⟨hex, hhex, rest, hrest, rfl⟩ := h
    exact .cons ⟨rfl, _, _, hhex⟩ (ih hrest)

theorem generate_forall₂ {members : List Recipient} {o : Outcome} {keyHex : List Char}
    {sealedKeys : List SealedKey}
    (h : generateAndSealGroupKey E members o = some (keyHex, sealedKeys)) :
    List.Forall₂ (fun m s => m.email = s.email ∧ Sealed E m.publicKeyHex keyHex s.encryptedKeyHex)
      members sealedKeys := by
  simp only [generateAndSealGroupKey] at h
  split at h
  · obtain ⟨sealed, hsealed, heq⟩ := Option.map_eq_some_iff.mp h
    cases heq
    exact sealAll_forall₂ hsealed
  · cases h

theorem find_sealed {members : List Recipient} {sealedKeys : List SealedKey} {keyHex : List Char}
    (h : List.Forall₂ (fun m s => m.email = s.email ∧ Sealed E m.publicKeyHex keyHex
      s.encryptedKeyHex) members sealedKeys) {m : Recipient}
    (hm : Keyed.find Recipient.email m.email members = some m) :
    ∃ s, Keyed.find SealedKey.email m.email sealedKeys = some s
      ∧ Sealed E m.publicKeyHex keyHex s.encryptedKeyHex := by
  have hrel : Option.Rel _ (Keyed.find Recipient.email m.email members)
      (Keyed.find SealedKey.email m.email sealedKeys) :=
    Keyed.find_forall₂ (fun hms => hms.1) h
  rw [hm] at hrel
  cases hfind : Keyed.find SealedKey.email m.email sealedKeys with
  | none =>
    rw [hfind] at hrel
    cases hrel
  | some s =>
    rw [hfind] at hrel
    cases hrel with
    | some hms => exact ⟨s, rfl, hms.2⟩

/-- **With a seal for each member**, all of them get it. -/
theorem applySeals_sealed {recipients : List Recipient} {sealedKeys : List SealedKey}
    {keyHex : List Char}
    (h : List.Forall₂ (fun m s => m.email = s.email ∧ Sealed E m.publicKeyHex keyHex
      s.encryptedKeyHex) recipients sealedKeys) {members : List GroupMember}
    (hmembers : ∀ m ∈ members, Keyed.find Recipient.email m.email recipients = some m.recipient) :
    (Store.applySeals sealedKeys members).2 = true
      ∧ ∀ m ∈ (Store.applySeals sealedKeys members).1,
          Sealed E m.publicKeyHex keyHex m.encryptedGroupKeyHex := by
  induction members with
  | nil => exact ⟨rfl, List.forall_mem_nil _⟩
  | cons m ms ih =>
    obtain ⟨s, hfind, hsealed⟩ := find_sealed (m := m.recipient) h (hmembers m List.mem_cons_self)
    obtain ⟨hall, hrest⟩ := ih fun m' hm' => hmembers m' (List.mem_cons_of_mem m hm')
    have hfind' : Keyed.find SealedKey.email m.email sealedKeys = some s := hfind
    rw [Store.applySeals, hfind']
    refine ⟨hall, ?_⟩
    intro m' hm'
    rcases List.mem_cons.mp hm' with rfl | hm'
    · exact hsealed
    · exact hrest m' hm'

/-! ## The invariant -/

/-- The members have sealed keys, and the history is as it should be. -/
structure Sound (E : Env) (st : Store) : Prop where
  members : ∀ m ∈ st.group.members,
    Sealed E m.publicKeyHex st.group.groupKeyHex m.encryptedGroupKeyHex
  history : ∃ entries, st.keyHistory = some entries
    ∧ entries.map GroupKeyRotationHistory.version = List.range' 1 st.group.keyVersion
    ∧ entries.getLast?.map GroupKeyRotationHistory.keyHex = some st.group.groupKeyHex

theorem Sound.consistent {st : Store} (h : Sound E st) (hP : E.P.xchacha20Poly1305.Correct)
    (hX : E.X.Correct) : Consistent E st :=
  ⟨fun m hm => (h.members m hm).opens hP hX, h.history⟩

/-- A store with the same key and history, and no other members than before,
whatever their roles. -/
theorem Sound.of_members {st st' : Store} (h : Sound E st)
    (hkey : st'.group.groupKeyHex = st.group.groupKeyHex)
    (hversion : st'.group.keyVersion = st.group.keyVersion)
    (hhistory : st'.keyHistory = st.keyHistory)
    (hmembers : ∀ m ∈ st'.group.members, ∃ m' ∈ st.group.members,
      m.publicKeyHex = m'.publicKeyHex ∧ m.encryptedGroupKeyHex = m'.encryptedGroupKeyHex) :
    Sound E st' where
  members := by
    intro m hm
    obtain ⟨m', hm', hpublic, hsealed⟩ := hmembers m hm
    rw [hkey, hpublic, hsealed]
    exact h.members m' hm'
  history := by
    rw [hkey, hversion, hhistory]
    exact h.history

theorem depart_group (email : String) (st : Store) :
    (st.depart email).group = st.group ∧ (st.depart email).keyHistory = st.keyHistory
      ∧ (st.depart email).listed = st.listed := by
  rw [Store.depart]
  split
  · exact ⟨rfl, rfl, rfl⟩
  · exact ⟨rfl, rfl, rfl⟩

theorem Sound.without {st : Store} (h : Sound E st) (email : String) {members : List GroupMember}
    (hmembers : ∀ m ∈ members, ∃ m' ∈ st.group.members,
      m.publicKeyHex = m'.publicKeyHex ∧ m.encryptedGroupKeyHex = m'.encryptedGroupKeyHex) :
    Sound E ((st.depart email).setMembers members) := by
  obtain ⟨hgroup, hhistory, -⟩ := depart_group email st
  refine h.of_members ?_ ?_ hhistory hmembers
  · show (st.depart email).group.groupKeyHex = _
    rw [hgroup]
  · show (st.depart email).group.keyVersion = _
    rw [hgroup]

theorem mem_promote {members : List GroupMember} {m : GroupMember}
    (h : m ∈ Store.promote members) : ∃ m' ∈ members, m.email = m'.email
      ∧ m.publicKeyHex = m'.publicKeyHex
      ∧ m.encryptedGroupKeyHex = m'.encryptedGroupKeyHex := by
  cases members with
  | nil => cases h
  | cons m' ms =>
    rcases List.mem_cons.mp h with rfl | hm
    · exact ⟨m', List.mem_cons_self, rfl, rfl, rfl⟩
    · exact ⟨m, List.mem_cons_of_mem m' hm, rfl, rfl, rfl⟩

theorem mem_leaving {members : List GroupMember} {email : String} {role : Role} {m : GroupMember}
    (h : m ∈ if role = .admin then Store.promote (members.eraseP fun m => m.email = email)
      else members.eraseP fun m => m.email = email) :
    ∃ m' ∈ members, m.email = m'.email ∧ m.publicKeyHex = m'.publicKeyHex
      ∧ m.encryptedGroupKeyHex = m'.encryptedGroupKeyHex := by
  split at h
  · obtain ⟨m', hm', hsame⟩ := mem_promote h
    exact ⟨m', List.mem_of_mem_eraseP hm', hsame⟩
  · exact ⟨m, List.mem_of_mem_eraseP h, rfl, rfl, rfl⟩

/-- **Before its first await**, no call changes the key, or seals. -/
theorem world_sound {st : Store} (h : st.listed = true → Sound E st) (e : Event) :
    (world st e).1.listed = true → Sound E (world st e).1 := by
  cases e with
  | addMember newMemberEmail adminEmail publicKeyHex => exact h
  | removeMember memberEmail adminEmail =>
    rw [world, Store.removeMember]
    split
    · exact h
    · split
      · exact h
      · intro hlisted
        have hbefore : st.listed = true := (depart_group memberEmail st).2.2.symm.trans hlisted
        refine (h hbefore).without memberEmail fun m hm => ?_
        exact ⟨m, List.mem_of_mem_filter hm, rfl, rfl⟩
  | rotateGroupKey adminEmail => exact h
  | leaveGroup memberEmail =>
    rw [world, Store.leaveGroup]
    split
    · exact h
    · cases hfind : st.find memberEmail with
      | none => exact h
      | some leaving =>
        dsimp only
        generalize hleft : (if leaving.role = .admin then
          Store.promote (st.group.members.eraseP fun m => m.email = memberEmail)
          else st.group.members.eraseP fun m => m.email = memberEmail) = left
        split
        · rintro ⟨⟩
        · intro hlisted
          have hbefore : st.listed = true :=
            (depart_group memberEmail st).2.2.symm.trans hlisted
          refine (h hbefore).without memberEmail fun m hm => ?_
          obtain ⟨m', hm', -, hsame⟩ := mem_leaving (hleft ▸ hm)
          exact ⟨m', hm', hsame⟩
  | sendGroupMessage senderEmail plaintext => exact h
  | deleteGroup adminEmail =>
    rw [world, Store.deleteGroup]
    split
    · exact h
    · split
      · exact h
      · rintro ⟨⟩

theorem pushMember_sound {st : Store} (h : Sound E st) {email : String}
    {publicKeyHex encryptedGroupKeyHex : List Char}
    (hsealed : Sealed E publicKeyHex st.group.groupKeyHex encryptedGroupKeyHex) :
    Sound E (st.pushMember email publicKeyHex st.group.groupKeyHex encryptedGroupKeyHex) := by
  refine ⟨fun m hm => ?_, h.history⟩
  rcases List.mem_append.mp hm with hm | hm
  · exact h.members m hm
  · rw [List.mem_singleton.mp hm]
    exact hsealed

/-- **A new key** that is sealed to each member. -/
theorem applyKey_sound {st : Store} (h : Sound E st) {members : List Recipient}
    {adminEmail : String} {begun : Nat} {o : Outcome} {keyHex : List Char}
    {sealedKeys : List SealedKey}
    (hgenerate : generateAndSealGroupKey E members o = some (keyHex, sealedKeys))
    (hmembers : ∀ m ∈ st.group.members,
      Keyed.find Recipient.email m.email members = some m.recipient) :
    Sound E (st.applyKey members adminEmail begun keyHex sealedKeys).1 := by
  obtain ⟨hall, hsealed⟩ := applySeals_sealed (generate_forall₂ hgenerate) hmembers
  obtain ⟨entries, hentries, hversions, -⟩ := h.history
  rw [Store.applyKey]
  dsimp only
  rw [if_pos hall]
  refine ⟨hsealed, _, rfl, ?_, ?_⟩
  · rw [hentries, Option.getD_some, List.map_append, hversions, List.map_singleton]
    show _ = List.range' 1 (st.group.keyVersion + 1)
    rw [List.range'_concat, Nat.one_mul, Nat.add_comm]
  · rw [List.getLast?_concat]
    rfl

theorem exec_sound {s : State Store Pc} {k : Nat} {pc : Pc} {o : Outcome}
    (h : s.store.listed = true → Sound E s.store) (horderly : Orderly E s (.exec k o))
    (hk : s.calls[k]? = some pc) :
    (exec E k s.store pc o).1.listed = true → Sound E (exec E k s.store pc o).1 := by
  cases pc with
  | sealing email publicKeyHex keyHex =>
    rw [exec]
    split
    · exact h
    · rename_i encryptedGroupKeyHex hseal
      intro hlisted
      split at hseal
      · obtain rfl := horderly hlisted _ hk (by rw [hseal]; rfl)
        exact pushMember_sound (h hlisted) ⟨_, _, hseal⟩
      · cases hseal
  | rotating members adminEmail begun =>
    rw [exec]
    cases hgenerate : generateAndSealGroupKey E members o with
    | none => exact h
    | some generated =>
      obtain ⟨keyHex, sealedKeys⟩ := generated
      intro hlisted
      have hbefore : s.store.listed = true := by
        rw [← hlisted]
        dsimp only [Store.applyKey]
        split
        · rfl
        · rfl
      have hall := horderly hbefore _ hk (by rw [hgenerate]; rfl)
      exact applyKey_sound (h hbefore) hgenerate hall
  | sending senderEmail plaintext keyHex =>
    rw [exec]
    split
    · exact h
    · exact fun hlisted => ⟨(h hlisted).members, (h hlisted).history⟩
  | failed message => exact h
  | finished => exact h

/-! ## Runs -/

/-- While the group is listed, its store is sound. -/
def Distributed (E : Env) (s : State Store Pc) : Prop := s.store.listed = true → Sound E s.store

theorem find_of_map {emails : List String} {publicKey : String → List Char} {email : String}
    (h : email ∈ emails) :
    Keyed.find Recipient.email email (emails.map fun email => ⟨email, publicKey email⟩)
      = some ⟨email, publicKey email⟩ := by
  cases hfind : Keyed.find Recipient.email email
      (emails.map fun email => ⟨email, publicKey email⟩) with
  | none => exact absurd rfl (Keyed.find_eq_none_iff.mp hfind _ (List.mem_map_of_mem h))
  | some r =>
    obtain ⟨email', -, rfl⟩ := List.mem_map.mp (Keyed.mem_of_find hfind)
    obtain rfl : email' = email := Keyed.key_of_find hfind
    rfl

theorem createGroup_sound {id creatorEmail : String} {memberEmails : List String}
    {publicKey : String → List Char} {o : Outcome} {group : GroupConversation}
    (h : createGroup E id creatorEmail memberEmails publicKey o = some group) :
    Sound E (.initial creatorEmail group) := by
  obtain ⟨⟨keyHex, sealedKeys⟩, hgenerate, rfl⟩ := Option.map_eq_some_iff.mp h
  refine ⟨fun m hm => ?_, _, rfl, rfl, rfl⟩
  obtain ⟨email, hemail, rfl⟩ := List.mem_map.mp hm
  obtain ⟨s, hfind, hsealed⟩ := find_sealed (m := ⟨email, publicKey email⟩)
    (generate_forall₂ hgenerate) (find_of_map hemail)
  show Sealed E (publicKey email) keyHex
    (match Keyed.find SealedKey.email email sealedKeys with
      | some sealed => sealed.encryptedKeyHex
      | none => [])
  have hfound : Keyed.find SealedKey.email email sealedKeys = some s := hfind
  rw [hfound]
  exact hsealed

/-- **The key distribution stays consistent** in every orderly run of a group,
for as long as it is listed. -/
theorem consistent_run (hP : E.P.xchacha20Poly1305.Correct) (hX : E.X.Correct)
    {id creatorEmail : String} {memberEmails : List String} {publicKey : String → List Char}
    {o : Outcome} {group : GroupConversation}
    (hcreate : createGroup E id creatorEmail memberEmails publicKey o = some group)
    {actions : List (Action Event Outcome)}
    (hrun : Run.Each (service E).step (Orderly E) ⟨.initial creatorEmail group, []⟩ actions)
    (hlisted : ((service E).run ⟨.initial creatorEmail group, []⟩ actions).store.listed = true) :
    Consistent E ((service E).run ⟨.initial creatorEmail group, []⟩ actions).store := by
  have hworld : ∀ s e, Distributed E s → Orderly E s (.world e) →
      Distributed E ((service E).step s (.world e)) :=
    fun s e hs _ => world_sound hs e
  have hexec : ∀ s k pc o, Distributed E s → Orderly E s (.exec k o) → s.calls[k]? = some pc →
      Distributed E ((service E).step s (.exec k o)) := by
    intro s k pc o hs horderly hk
    rw [Service.step_exec hk]
    exact exec_sound hs horderly hk
  have hsound := Service.preserves hworld hexec hrun fun _ => createGroup_sound hcreate
  exact (hsound hlisted).consistent hP hX

/-- The shared secret is the difference of a secret and a public key. -/
def sampleEnv : Env where
  P := transparentPrimitives
  X := {
    getPublicKey := id
    getSharedSecret := fun a b => ⟨List.zipWith (· ^^^ ·) a.toList b.toList, xor32_length a b⟩ }
  aesGcm := transparentAead 12

theorem sampleEnv_correct : sampleEnv.X.Correct where
  comm _ _ := Subtype.ext (List.zipWith_comm_of_comm UInt8.xor_comm)

/-- A key of equal bytes. -/
def sampleKey (b : UInt8) : ByteVec 32 := ⟨List.replicate 32 b, replicate32_length b⟩

/-- An outcome with this key as the new group key. -/
def sampleOutcome (b : UInt8) : Outcome :=
  ⟨true, sampleKey b, fun _ => sampleKey 9, fun _ => zeroVec 24, zeroVec 12⟩

def samplePublicKey (email : String) : List Char :=
  encodeHex (sampleKey (if email = "alice" then 1 else if email = "bob" then 2 else 3)).toList

def aliceAndBob : GroupConversation :=
  (createGroup sampleEnv "g" "alice" ["bob"] samplePublicKey (sampleOutcome 4)).getD
    ⟨"", [], [], 0⟩

def addCarol : Event := .addMember "carol" "alice" (some (samplePublicKey "carol"))

/-- Carol is added, Bob is removed, and Alice leaves. -/
def orderlyRun : List (Action Event Outcome) :=
  [.world addCarol, .exec 0 (sampleOutcome 5), .world (.removeMember "bob" "alice"),
   .exec 1 (sampleOutcome 6), .world (.leaveGroup "alice"), .world (.rotateGroupKey "carol"),
   .exec 3 (sampleOutcome 7)]

theorem consistent_orderlyRun :
    Consistent sampleEnv
      ((service sampleEnv).run ⟨.initial "alice" aliceAndBob, []⟩ orderlyRun).store :=
  consistent_run (transparentAead_correct 24) sampleEnv_correct
    (show createGroup sampleEnv "g" "alice" ["bob"] samplePublicKey (sampleOutcome 4)
      = some aliceAndBob by decide +kernel)
    (by decide +kernel) (by decide +kernel)

/-- Carol is added while a new key is made: the key is in place, but not in the
history. -/
def addedWhileRotating : List (Action Event Outcome) :=
  [.world (.rotateGroupKey "alice"), .world addCarol, .exec 1 (sampleOutcome 5),
   .exec 0 (sampleOutcome 6)]

/-- A new key is put in place while the old one is sealed to Carol. -/
def rotatedWhileAdding : List (Action Event Outcome) :=
  [.world addCarol, .world (.rotateGroupKey "alice"), .exec 1 (sampleOutcome 6),
   .exec 0 (sampleOutcome 5)]

theorem distribution_inconsistent :
    ¬Consistent sampleEnv
        ((service sampleEnv).run ⟨.initial "alice" aliceAndBob, []⟩ addedWhileRotating).store
      ∧ ¬Consistent sampleEnv
        ((service sampleEnv).run ⟨.initial "alice" aliceAndBob, []⟩ rotatedWhileAdding).store := by
  constructor
  · intro h
    obtain ⟨entries, hentries, hversions, -⟩ := h.history
    have hone : ((service sampleEnv).run ⟨.initial "alice" aliceAndBob, []⟩
        addedWhileRotating).store.keyHistory
          = some [⟨1, aliceAndBob.groupKeyHex, "alice"⟩] := by decide +kernel
    have htwo : ((service sampleEnv).run ⟨.initial "alice" aliceAndBob, []⟩
        addedWhileRotating).store.group.keyVersion = 2 := by decide +kernel
    rw [hone] at hentries
    rw [htwo, ← Option.some.inj hentries] at hversions
    cases hversions
  · intro h
    have hcarol : ¬∀ m ∈ ((service sampleEnv).run ⟨.initial "alice" aliceAndBob, []⟩
        rotatedWhileAdding).store.group.members,
          hexBytes m.publicKeyHex = some (sampleKey 3).toList →
            SealedBox.openSealed sampleEnv.P sampleEnv.X (sampleKey 3).toList
              (decodeHex m.encryptedGroupKeyHex) = .ok (sampleKey 6).toList := by
      decide +kernel
    exact hcarol fun m hm hpublic => h.members m hm (sampleKey 3) hpublic

end UsbVault.App.GroupMessages
