import UsbVault.Lib.Keyed
import UsbVault.Lib.Run

/-!
# Emergency access

The requests of the emergency access service and what the owner's decisions
and the clock make of them. Calls follow one another; storage takes what is
written, and the calls of the audit and sync services succeed.

Beside what is stored, a state has what the service does not keep as such: the
requests the owner has approved, those the owner has denied, and those whose
contact has been revoked.

`Due` is the rule: the contact is active, the request is neither denied nor
revoked, and the owner has approved it or the waiting period is over. A call
of `accessVault` that yields the key follows the rule, and every call does so
just when it does not come after the waiting period without an approval, or
after an earlier access (`Sound.exact`). `checkAccessStatus` marks a request as
expired before it looks whether to approve it (`autoApprove_expire`), and only
`denyAccess` treats an expired request other than a pending one
(`Unchecked.step`).
-/

namespace UsbVault.App.EmergencyAccess

/-! ## The service -/

inductive ContactStatus where
  | active | revoked
  deriving DecidableEq, Repr

/-- Times are milliseconds. -/
structure EmergencyContact where
  id : Nat
  email : String
  displayName : String
  publicKeyHex : String
  encryptedVaultKeyHex : String
  designatedAt : Int
  status : ContactStatus
  deriving DecidableEq, Repr

inductive RequestStatus where
  | pending | approved | denied | expired | accessed
  deriving DecidableEq, Repr

def RequestStatus.toString : RequestStatus → String
  | .pending => "pending"
  | .approved => "approved"
  | .denied => "denied"
  | .expired => "expired"
  | .accessed => "accessed"

structure EmergencyAccessRequest where
  id : Nat
  contactId : Nat
  contactEmail : String
  requestedAt : Int
  expiresAt : Int
  status : RequestStatus
  deniedAt : Option Int
  accessedAt : Option Int
  reason : Option String
  deriving DecidableEq, Repr

def ACCESS_WAIT_PERIOD_MS : Int := 72 * 60 * 60 * 1000

/-- What is stored. A counter stands for the time and the random digits that
`generateEmergencyId` makes ids of. -/
structure Store where
  contacts : List EmergencyContact
  requests : List EmergencyAccessRequest
  nextId : Nat
  deriving DecidableEq, Repr

namespace Store

variable (st : Store)

def findContact (id : Nat) : Option EmergencyContact :=
  Keyed.find EmergencyContact.id id st.contacts

def findRequest (id : Nat) : Option EmergencyAccessRequest :=
  Keyed.find EmergencyAccessRequest.id id st.requests

def persistContact (contact : EmergencyContact) : Store :=
  { st with contacts := Keyed.upsert EmergencyContact.id contact st.contacts }

def persistRequest (request : EmergencyAccessRequest) : Store :=
  { st with requests := Keyed.upsert EmergencyAccessRequest.id request st.requests }

/-- `designateContact`, once the vault key is sealed. -/
def designateContact (now : Int) (email displayName publicKeyHex encryptedVaultKeyHex : String) :
    Store :=
  { st with nextId := st.nextId + 1 }.persistContact {
    id := st.nextId
    email := email
    displayName := displayName
    publicKeyHex := publicKeyHex
    encryptedVaultKeyHex := encryptedVaultKeyHex
    designatedAt := now
    status := .active }

/-- A pending request of a contact who is removed. -/
def invalidate (contactId : Nat) (now : Int) (req : EmergencyAccessRequest) :
    EmergencyAccessRequest :=
  if req.contactId = contactId ∧ req.status = .pending then
    { req with status := .denied, deniedAt := some now }
  else req

def removeContact (now : Int) (contactId : Nat) : Except String Store :=
  match st.findContact contactId with
  | none => .error s!"Contact {contactId} not found"
  | some contact =>
    let st := st.persistContact { contact with status := .revoked }
    .ok { st with requests := st.requests.map (invalidate contactId now) }

def requestAccess (now : Int) (contactEmail : String) (reason : Option String) :
    Except String Store :=
  if contactEmail = "" then .error "Contact email is required"
  else
    match st.contacts.find? fun c => c.email = contactEmail ∧ c.status = .active with
    | none => .error s!"Active contact not found for {contactEmail}"
    | some contact =>
      .ok ({ st with nextId := st.nextId + 1 }.persistRequest {
        id := st.nextId
        contactId := contact.id
        contactEmail := contactEmail
        requestedAt := now
        expiresAt := now + ACCESS_WAIT_PERIOD_MS
        status := .pending
        deniedAt := none
        accessedAt := none
        reason := reason })

def denyAccess (now : Int) (requestId : Nat) : Except String Store :=
  match st.findRequest requestId with
  | none => .error s!"Request {requestId} not found"
  | some request =>
    if request.status ≠ .pending then
      .error s!"Cannot deny request with status: {request.status.toString}"
    else .ok (st.persistRequest { request with status := .denied, deniedAt := some now })

def approveAccess (requestId : Nat) : Except String Store :=
  match st.findRequest requestId with
  | none => .error s!"Request {requestId} not found"
  | some request =>
    if request.status = .denied ∨ request.status = .accessed then
      .error s!"Cannot approve request with status: {request.status.toString}"
    else .ok (st.persistRequest { request with status := .approved })

/-- The first step of `checkAccessStatus`. -/
def expire (now : Int) (request : EmergencyAccessRequest) : EmergencyAccessRequest :=
  if now > request.expiresAt ∧ request.status = .pending then { request with status := .expired }
  else request

/-- Its second step, which takes the request as the first has left it. -/
def autoApprove (now : Int) (request : EmergencyAccessRequest) : EmergencyAccessRequest :=
  if now > request.expiresAt ∧ request.status = .pending ∧ request.deniedAt = none then
    { request with status := .approved }
  else request

def checkAccessStatus (now : Int) (requestId : Nat) :
    Except String (Store × EmergencyAccessRequest) :=
  match st.findRequest requestId with
  | none => .error s!"Request {requestId} not found"
  | some request =>
    let expired := expire now request
    let st := if expired = request then st else st.persistRequest expired
    let approved := autoApprove now expired
    .ok (if approved = expired then st else st.persistRequest approved, approved)

/-- The list that `getActiveRequests` returns. It stores nothing: what it
compares with the list it has loaded are the same objects. -/
def getActiveRequests (now : Int) : List EmergencyAccessRequest :=
  let updated := st.requests.map fun req =>
    if req.status = .pending ∧ req.expiresAt < now ∧ req.deniedAt = none then
      { req with status := .expired }
    else req
  updated.filter fun r => r.status = .pending ∨ r.status = .approved

def accessVault (now : Int) (requestId : Nat) (contactEmail : String) :
    Except String (Store × String) :=
  if contactEmail = "" then .error "Request ID and contact email are required"
  else
    match st.findRequest requestId with
    | none => .error s!"Request {requestId} not found"
    | some request =>
      if request.status ≠ .approved then
        .error s!"Request not approved. Current status: {request.status.toString}"
      else if request.contactEmail ≠ contactEmail then
        .error "Contact email does not match request"
      else
        match st.findContact request.contactId with
        | none => .error "Contact is not active"
        | some contact =>
          if contact.status ≠ .active then .error "Contact is not active"
          else
            .ok (st.persistRequest { request with status := .accessed, accessedAt := some now },
              contact.encryptedVaultKeyHex)

/-- A request that is denied when all access is revoked. -/
def revoke (now : Int) (request : EmergencyAccessRequest) : EmergencyAccessRequest :=
  if request.status = .pending ∨ request.status = .approved then
    { request with status := .denied, deniedAt := some now }
  else request

def revokeAllAccess (now : Int) : Store :=
  let contacts := st.contacts.map fun contact => { contact with status := .revoked }
  contacts.foldl persistContact { st with requests := st.requests.map (revoke now) }

end Store

/-! ## Runs -/

/-- The requests that the owner has approved and denied, and those whose
contact has been revoked. -/
structure State where
  store : Store
  approved : List Nat
  denied : List Nat
  revoked : List Nat
  deriving DecidableEq, Repr

def State.initial : State := ⟨⟨[], [], 0⟩, [], [], []⟩

inductive Action where
  | designateContact (now : Int)
      (email displayName publicKeyHex encryptedVaultKeyHex : String)
  | removeContact (now : Int) (contactId : Nat)
  | requestAccess (now : Int) (contactEmail : String) (reason : Option String)
  | denyAccess (now : Int) (requestId : Nat)
  | approveAccess (requestId : Nat)
  | checkAccessStatus (now : Int) (requestId : Nat)
  | getActiveRequests (now : Int)
  | accessVault (now : Int) (requestId : Nat) (contactEmail : String)
  | revokeAllAccess (now : Int)
  deriving DecidableEq, Repr

/-- The requests of a contact. -/
def Store.requestsOf (st : Store) (contactId : Nat) : List Nat :=
  (st.requests.filter fun r => r.contactId = contactId).map EmergencyAccessRequest.id

def step (s : State) : Action → State
  | .designateContact now email displayName publicKeyHex encryptedVaultKeyHex =>
    { s with
      store := s.store.designateContact now email displayName publicKeyHex
        encryptedVaultKeyHex }
  | .removeContact now contactId =>
    match s.store.removeContact now contactId with
    | .error _ => s
    | .ok store =>
      { s with store := store, revoked := s.store.requestsOf contactId ++ s.revoked }
  | .requestAccess now contactEmail reason =>
    match s.store.requestAccess now contactEmail reason with
    | .error _ => s
    | .ok store => { s with store := store }
  | .denyAccess now requestId =>
    match s.store.denyAccess now requestId with
    | .error _ => s
    | .ok store => { s with store := store, denied := requestId :: s.denied }
  | .approveAccess requestId =>
    match s.store.approveAccess requestId with
    | .error _ => s
    | .ok store => { s with store := store, approved := requestId :: s.approved }
  | .checkAccessStatus now requestId =>
    match s.store.checkAccessStatus now requestId with
    | .error _ => s
    | .ok (store, _) => { s with store := store }
  | .getActiveRequests _ => s
  | .accessVault now requestId contactEmail =>
    match s.store.accessVault now requestId contactEmail with
    | .error _ => s
    | .ok (store, _) => { s with store := store }
  | .revokeAllAccess now =>
    { s with
      store := s.store.revokeAllAccess now
      revoked := s.store.requests.map EmergencyAccessRequest.id ++ s.revoked }

def run (actions : List Action) : State := actions.foldl step State.initial

/-- The contact of a request is registered. -/
def Store.Active (st : Store) (contactId : Nat) : Prop :=
  ∃ contact ∈ st.contacts, contact.id = contactId ∧ contact.status = .active

instance (st : Store) (contactId : Nat) : Decidable (st.Active contactId) :=
  inferInstanceAs (Decidable (∃ contact ∈ st.contacts, contact.id = contactId ∧ _))

/-- The call yields the vault key. -/
def State.Yields (s : State) (now : Int) (requestId : Nat) (contactEmail : String) : Prop :=
  ∃ st key, s.store.accessVault now requestId contactEmail = .ok (st, key)

/-- **The rule**: an active contact, and a request that is neither denied nor
revoked, and has been approved or has waited long enough. -/
def State.Due (s : State) (now : Int) (requestId : Nat) (contactEmail : String) : Prop :=
  ∃ request ∈ s.store.requests, request.id = requestId ∧ request.contactEmail = contactEmail
    ∧ s.store.Active request.contactId ∧ requestId ∉ s.denied ∧ requestId ∉ s.revoked
    ∧ (requestId ∈ s.approved ∨ now > request.expiresAt)

/-- The request has not been used, and the waiting period of one that is not
approved is not over. -/
def Store.Open (now : Int) (request : EmergencyAccessRequest) : Prop :=
  request.status ≠ .accessed
    ∧ (request.status = .pending ∨ request.status = .expired → now ≤ request.expiresAt)

/-- A call of `accessVault` for an open request, or one that the rule leaves
without the key for other reasons. -/
def State.InTime (s : State) (now : Int) (requestId : Nat) (contactEmail : String) : Prop :=
  ∀ request ∈ s.store.requests, request.id = requestId → request.contactEmail = contactEmail →
    s.store.Active request.contactId → Store.Open now request

/-! ## The invariant -/

/-- What the status of a request says about the decisions. -/
def Decided (s : State) (id : Nat) : RequestStatus → Prop
  | .pending | .expired => id ∉ s.approved ∧ id ∉ s.denied
  | .approved | .accessed => id ∈ s.approved ∧ id ∉ s.denied
  | .denied => id ∈ s.denied ∨ id ∈ s.revoked

/-- Ids are distinct and have been generated, statuses agree with the
decisions, and the contact of a revoked request is not active. -/
structure Sound (s : State) : Prop where
  contacts_nodup : (s.store.contacts.map EmergencyContact.id).Nodup
  contacts_lt : ∀ id ∈ s.store.contacts.map EmergencyContact.id, id < s.store.nextId
  requests_nodup : (s.store.requests.map EmergencyAccessRequest.id).Nodup
  requests_lt : ∀ id ∈ s.store.requests.map EmergencyAccessRequest.id, id < s.store.nextId
  marks_lt : ∀ id, id ∈ s.approved ∨ id ∈ s.denied ∨ id ∈ s.revoked → id < s.store.nextId
  fields : ∀ r ∈ s.store.requests, r.contactId < s.store.nextId ∧ r.contactEmail ≠ ""
  decided : ∀ r ∈ s.store.requests, Decided s r.id r.status
  revoked : ∀ r ∈ s.store.requests, r.id ∈ s.revoked → ¬s.store.Active r.contactId

variable {s s' : State} {st : Store} {request request' : EmergencyAccessRequest}

theorem Sound.initial : Sound State.initial where
  contacts_nodup := List.nodup_nil
  contacts_lt _ h := by cases h
  requests_nodup := List.nodup_nil
  requests_lt _ h := by cases h
  marks_lt id h := by simp [State.initial] at h
  fields _ h := by cases h
  decided _ h := by cases h
  revoked _ h := by cases h

theorem Decided.congr {id : Nat} (happroved : id ∈ s'.approved ↔ id ∈ s.approved)
    (hdenied : id ∈ s'.denied ↔ id ∈ s.denied) (hrevoked : id ∈ s.revoked → id ∈ s'.revoked)
    {status : RequestStatus} (h : Decided s id status) : Decided s' id status := by
  cases status with
  | pending => exact ⟨fun ha => h.1 (happroved.mp ha), fun hd => h.2 (hdenied.mp hd)⟩
  | expired => exact ⟨fun ha => h.1 (happroved.mp ha), fun hd => h.2 (hdenied.mp hd)⟩
  | approved => exact ⟨happroved.mpr h.1, fun hd => h.2 (hdenied.mp hd)⟩
  | accessed => exact ⟨happroved.mpr h.1, fun hd => h.2 (hdenied.mp hd)⟩
  | denied => exact h.imp hdenied.mpr hrevoked

/-- **A request is written over**, and only its own decisions change. -/
theorem Sound.persistRequest (h : Sound s) (hr : request ∈ s.store.requests)
    (hstore : s'.store = s.store.persistRequest request') (hid : request'.id = request.id)
    (hcontact : request'.contactId = request.contactId)
    (hemail : request'.contactEmail = request.contactEmail) (hrevoked : s'.revoked = s.revoked)
    (happroved : ∀ id, id ≠ request.id → (id ∈ s'.approved ↔ id ∈ s.approved))
    (hdenied : ∀ id, id ≠ request.id → (id ∈ s'.denied ↔ id ∈ s.denied))
    (hdecided : Decided s' request'.id request'.status) : Sound s' := by
  have hkey : request'.id ∈ s.store.requests.map EmergencyAccessRequest.id :=
    hid ▸ List.mem_map_of_mem hr
  have hids : s'.store.requests.map EmergencyAccessRequest.id
      = s.store.requests.map EmergencyAccessRequest.id := by
    rw [hstore]
    exact Keyed.keys_upsert hkey
  have hmem : ∀ r ∈ s'.store.requests,
      r = request' ∨ r ∈ s.store.requests ∧ r.id ≠ request.id := by
    intro r hr
    rw [hstore] at hr
    rw [← hid]
    exact (Keyed.mem_upsert h.requests_nodup).mp hr
  have hcontacts : s'.store.contacts = s.store.contacts := by rw [hstore]; rfl
  have hnext : s'.store.nextId = s.store.nextId := by rw [hstore]; rfl
  have hactive : ∀ id, s'.store.Active id → s.store.Active id := by
    intro id hactive
    rwa [Store.Active, hcontacts] at hactive
  refine ⟨hcontacts ▸ h.contacts_nodup, hcontacts ▸ hnext ▸ h.contacts_lt, hids ▸ h.requests_nodup,
    hids ▸ hnext ▸ h.requests_lt, ?_, ?_, ?_, ?_⟩
  · intro id hmarks
    rw [hnext]
    by_cases heq : id = request.id
    · rw [heq]
      exact h.requests_lt _ (List.mem_map_of_mem hr)
    · rw [happroved id heq, hdenied id heq, hrevoked] at hmarks
      exact h.marks_lt id hmarks
  · intro r hr'
    rw [hnext]
    rcases hmem r hr' with rfl | ⟨hold, -⟩
    · rw [hcontact, hemail]
      exact h.fields request hr
    · exact h.fields r hold
  · intro r hr'
    rcases hmem r hr' with rfl | ⟨hold, hne⟩
    · exact hdecided
    · exact (h.decided r hold).congr (happroved _ hne) (hdenied _ hne) (hrevoked ▸ id)
  · intro r hr' hmark hact
    rw [hrevoked] at hmark
    rcases hmem r hr' with rfl | ⟨hold, -⟩
    · rw [hid] at hmark
      rw [hcontact] at hact
      exact h.revoked request hr hmark (hactive _ hact)
    · exact h.revoked r hold hmark (hactive _ hact)

/-- A change of a request that leaves it the request it is. -/
def KeepsFields (f : EmergencyAccessRequest → EmergencyAccessRequest) : Prop :=
  ∀ r, (f r).id = r.id ∧ (f r).contactId = r.contactId ∧ (f r).contactEmail = r.contactEmail

/-- **Contacts are revoked**, and requests with them. -/
theorem Sound.revoke (h : Sound s) {f : EmergencyAccessRequest → EmergencyAccessRequest}
    (hf : KeepsFields f)
    (hrequests : s'.store.requests = s.store.requests.map f)
    (hcontacts : s'.store.contacts.map EmergencyContact.id
      = s.store.contacts.map EmergencyContact.id)
    (hnext : s'.store.nextId = s.store.nextId) (happroved : s'.approved = s.approved)
    (hdenied : s'.denied = s.denied)
    (hrevoked : ∀ id ∈ s'.revoked,
      id ∈ s.revoked ∨ id ∈ s.store.requests.map EmergencyAccessRequest.id)
    (hdecided : ∀ r ∈ s.store.requests, Decided s' r.id (f r).status)
    (hactive : ∀ r ∈ s.store.requests, r.id ∈ s'.revoked → ¬s'.store.Active r.contactId) :
    Sound s' := by
  have hids : s'.store.requests.map EmergencyAccessRequest.id
      = s.store.requests.map EmergencyAccessRequest.id := by
    rw [hrequests, List.map_map]
    exact List.map_congr_left fun r _ => (hf r).1
  refine ⟨hcontacts ▸ h.contacts_nodup, hcontacts ▸ hnext ▸ h.contacts_lt, hids ▸ h.requests_nodup,
    hids ▸ hnext ▸ h.requests_lt, ?_, ?_, ?_, ?_⟩
  · intro id hmarks
    rw [happroved, hdenied] at hmarks
    rw [hnext]
    rcases hmarks with ha | hd | hr
    · exact h.marks_lt id (.inl ha)
    · exact h.marks_lt id (.inr (.inl hd))
    · rcases hrevoked id hr with hold | hnew
      · exact h.marks_lt id (.inr (.inr hold))
      · exact h.requests_lt id hnew
  all_goals
    rw [hrequests]
    intro r hr
    obtain ⟨old, hold, rfl⟩ := List.mem_map.mp hr
    obtain ⟨hid, hcontact, hemail⟩ := hf old
  · rw [hcontact, hemail, hnext]
    exact h.fields old hold
  · rw [hid]
    exact hdecided old hold
  · rw [hid, hcontact]
    exact hactive old hold

/-! ## Contacts -/

/-- A contact that is removed is not active any more, and no other becomes
active. -/
theorem active_of_removed {contact : EmergencyContact} {contactId id : Nat}
    (hnodup : (st.contacts.map EmergencyContact.id).Nodup)
    (hfind : st.findContact contactId = some contact)
    (h : (st.persistContact { contact with status := .revoked }).Active id) :
    st.Active id ∧ id ≠ contactId := by
  obtain ⟨c, hc, rfl, hactive⟩ := h
  rcases (Keyed.mem_upsert hnodup).mp hc with rfl | ⟨hold, hne⟩
  · cases hactive
  · refine ⟨⟨c, hold, rfl, hactive⟩, ?_⟩
    rw [← Keyed.key_of_find hfind]
    exact hne

theorem foldl_persistContact (contacts : List EmergencyContact) (st : Store) :
    contacts.foldl Store.persistContact st
      = { st with
          contacts := contacts.foldl
            (fun written contact => Keyed.upsert EmergencyContact.id contact written)
            st.contacts } := by
  induction contacts generalizing st with
  | nil => rfl
  | cons contact contacts ih =>
    rw [List.foldl_cons, ih]
    rfl

/-- After `revokeAllAccess` no contact is active. -/
theorem revokeAllAccess_contacts (hnodup : (st.contacts.map EmergencyContact.id).Nodup)
    (now : Int) :
    (st.revokeAllAccess now).contacts.map EmergencyContact.id
        = st.contacts.map EmergencyContact.id
      ∧ ∀ id, ¬(st.revokeAllAccess now).Active id := by
  let revoked := st.contacts.map fun contact => { contact with status := ContactStatus.revoked }
  have hkeys : ∀ contact ∈ revoked, contact.id ∈ st.contacts.map EmergencyContact.id := by
    intro contact hcontact
    obtain ⟨old, hold, rfl⟩ := List.mem_map.mp hcontact
    exact List.mem_map.mpr ⟨old, hold, rfl⟩
  obtain ⟨hmap, hmem⟩ := Keyed.foldl_upsert hnodup hkeys
  have hcontacts : (st.revokeAllAccess now).contacts = revoked.foldl
      (fun written contact => Keyed.upsert EmergencyContact.id contact written) st.contacts := by
    rw [Store.revokeAllAccess, foldl_persistContact]
  rw [hcontacts]
  refine ⟨hmap, ?_⟩
  rintro id ⟨contact, hcontact, -, hactive⟩
  rw [hcontacts] at hcontact
  rcases hmem contact hcontact with hnew | ⟨hold, hne⟩
  · obtain ⟨old, -, rfl⟩ := List.mem_map.mp hnew
    cases hactive
  · exact hne _ (List.mem_map_of_mem hold) rfl

theorem revokeAllAccess_requests (st : Store) (now : Int) :
    (st.revokeAllAccess now).requests = st.requests.map (Store.revoke now)
      ∧ (st.revokeAllAccess now).nextId = st.nextId := by
  rw [Store.revokeAllAccess, foldl_persistContact]
  exact ⟨rfl, rfl⟩

/-! ## One step -/

/-- A request that has been marked as expired is not approved by the clock. -/
theorem autoApprove_expire (now : Int) (request : EmergencyAccessRequest) :
    Store.autoApprove now (Store.expire now request) = Store.expire now request := by
  rw [Store.expire]
  split_ifs with hexpired
  · rw [Store.autoApprove, if_neg]
    rintro ⟨-, hpending, -⟩
    cases hpending
  · rw [Store.autoApprove, if_neg]
    exact fun h => hexpired ⟨h.1, h.2.1⟩

/-- What `checkAccessStatus` does: it stores the expired request, if that is
another one. -/
theorem checkAccessStatus_eq (now : Int) {requestId : Nat}
    (hfind : st.findRequest requestId = some request) :
    st.checkAccessStatus now requestId
      = .ok (if Store.expire now request = request then st
          else st.persistRequest (Store.expire now request), Store.expire now request) := by
  simp only [Store.checkAccessStatus, hfind, autoApprove_expire, if_true]

theorem keepsFields_expire (now : Int) : KeepsFields (Store.expire now) := by
  intro request
  rw [Store.expire]
  split_ifs <;> exact ⟨rfl, rfl, rfl⟩

/-- What `accessVault` needs, and what it does. -/
theorem accessVault_ok {now : Int} {requestId : Nat} {contactEmail key : String} {st' : Store}
    (h : st.accessVault now requestId contactEmail = .ok (st', key)) :
    contactEmail ≠ "" ∧ ∃ request contact, st.findRequest requestId = some request
      ∧ request.status = .approved ∧ request.contactEmail = contactEmail
      ∧ st.findContact request.contactId = some contact ∧ contact.status = .active
      ∧ key = contact.encryptedVaultKeyHex
      ∧ st' = st.persistRequest { request with status := .accessed, accessedAt := some now } := by
  unfold Store.accessVault at h
  split_ifs at h with hempty
  split at h
  · cases h
  · rename_i request hrequest
    split_ifs at h with hstatus hemail
    split at h
    · cases h
    · rename_i contact hcontact
      split_ifs at h with hactive
      cases h
      exact ⟨hempty, request, contact, hrequest, not_not.mp hstatus, not_not.mp hemail, hcontact,
        not_not.mp hactive, rfl, rfl⟩

theorem accessVault_of {now : Int} {requestId : Nat} {contactEmail : String}
    {contact : EmergencyContact} (hempty : contactEmail ≠ "")
    (hrequest : st.findRequest requestId = some request) (hstatus : request.status = .approved)
    (hemail : request.contactEmail = contactEmail)
    (hcontact : st.findContact request.contactId = some contact)
    (hactive : contact.status = .active) :
    st.accessVault now requestId contactEmail
      = .ok (st.persistRequest { request with status := .accessed, accessedAt := some now },
          contact.encryptedVaultKeyHex) := by
  simp only [Store.accessVault, hempty, hrequest, hstatus, hemail, hcontact, hactive, ne_eq,
    not_true_eq_false, if_false]

theorem keepsFields_invalidate (contactId : Nat) (now : Int) :
    KeepsFields (Store.invalidate contactId now) := by
  intro req
  rw [Store.invalidate]
  split_ifs <;> exact ⟨rfl, rfl, rfl⟩

theorem keepsFields_revoke (now : Int) : KeepsFields (Store.revoke now) := by
  intro request
  rw [Store.revoke]
  split_ifs <;> exact ⟨rfl, rfl, rfl⟩

/-- A request that is not denied keeps its status when the revocation spares
it. -/
theorem Decided.spared (hdecided : Decided s request.id request.status)
    (happroved : s'.approved = s.approved) (hdenied : s'.denied = s.denied)
    (hrevoked : ∀ id ∈ s.revoked, id ∈ s'.revoked) : Decided s' request.id request.status :=
  hdecided.congr (by rw [happroved]) (by rw [hdenied]) (hrevoked _)

theorem Sound.removeContact (h : Sound s) {now : Int} {contactId : Nat} {store : Store}
    (hremove : s.store.removeContact now contactId = .ok store) :
    Sound { s with store := store, revoked := s.store.requestsOf contactId ++ s.revoked } := by
  unfold Store.removeContact at hremove
  split at hremove
  · cases hremove
  · rename_i contact hfind
    obtain rfl := Except.ok.inj hremove
    have hkey : contact.id ∈ s.store.contacts.map EmergencyContact.id :=
      List.mem_map_of_mem (Keyed.mem_of_find hfind)
    have hmarks : ∀ r ∈ s.store.requests, r.contactId = contactId →
        r.id ∈ s.store.requestsOf contactId := by
      intro r hr hcontact
      exact List.mem_map_of_mem (List.mem_filter.mpr ⟨hr, by simpa using hcontact⟩)
    refine h.revoke (keepsFields_invalidate contactId now) rfl (Keyed.keys_upsert hkey) rfl rfl rfl
      ?_ ?_ ?_
    · intro id hid
      rcases List.mem_append.mp hid with hnew | hold
      · obtain ⟨r, hr, rfl⟩ := List.mem_map.mp hnew
        exact .inr (List.mem_map_of_mem (List.mem_filter.mp hr).1)
      · exact .inl hold
    · intro r hr
      rw [Store.invalidate]
      split_ifs with hpending
      · exact .inr (List.mem_append_left _ (hmarks r hr hpending.1))
      · exact (h.decided r hr).spared rfl rfl fun id => List.mem_append_right _
    · intro r hr hmark hactive
      obtain ⟨hbefore, hother⟩ := active_of_removed h.contacts_nodup hfind hactive
      rcases List.mem_append.mp hmark with hnew | hold
      · obtain ⟨r', hr', hid⟩ := List.mem_map.mp hnew
        obtain ⟨hmem, hcontact⟩ := List.mem_filter.mp hr'
        obtain rfl := List.inj_on_of_nodup_map h.requests_nodup hmem hr hid
        exact hother (by simpa using hcontact)
      · exact h.revoked r hr hold hbefore

theorem Sound.revokeAllAccess (h : Sound s) (now : Int) :
    Sound { s with
      store := s.store.revokeAllAccess now
      revoked := s.store.requests.map EmergencyAccessRequest.id ++ s.revoked } := by
  obtain ⟨hkeys, hnone⟩ := revokeAllAccess_contacts h.contacts_nodup now
  obtain ⟨hrequests, hnext⟩ := revokeAllAccess_requests s.store now
  refine h.revoke (keepsFields_revoke now) hrequests hkeys hnext rfl rfl ?_ ?_ ?_
  · intro id hid
    exact (List.mem_append.mp hid).symm
  · intro r hr
    rw [Store.revoke]
    split_ifs with hstatus
    · exact .inr (List.mem_append_left _ (List.mem_map_of_mem hr))
    · exact (h.decided r hr).spared rfl rfl fun id => List.mem_append_right _
  · intro r _ _ hactive
    exact hnone r.contactId hactive

theorem nodup_concat {ids : List Nat} {n : Nat} (hnodup : ids.Nodup) (hlt : ∀ id ∈ ids, id < n) :
    (ids ++ [n]).Nodup ∧ ∀ id ∈ ids ++ [n], id < n + 1 := by
  constructor
  · refine List.nodup_append.mpr ⟨hnodup, List.nodup_singleton n, ?_⟩
    intro a ha b hb heq
    rw [List.mem_singleton.mp hb] at heq
    exact Nat.lt_irrefl n (heq ▸ hlt a ha)
  · intro id hid
    rcases List.mem_append.mp hid with hold | hnew
    · exact Nat.lt_succ_of_lt (hlt id hold)
    · rw [List.mem_singleton.mp hnew]
      exact Nat.lt_succ_self n

theorem Sound.addContact (h : Sound s) {contact : EmergencyContact}
    (hid : contact.id = s.store.nextId) :
    Sound { s with
      store := { s.store with
        contacts := s.store.contacts ++ [contact], nextId := s.store.nextId + 1 } } := by
  obtain ⟨hnodup, hlt⟩ := nodup_concat h.contacts_nodup h.contacts_lt
  refine ⟨?_, ?_, h.requests_nodup, fun id hmem => Nat.lt_succ_of_lt (h.requests_lt id hmem),
    fun id hmark => Nat.lt_succ_of_lt (h.marks_lt id hmark), ?_, h.decided, ?_⟩
  · rw [List.map_append, List.map_singleton, hid]
    exact hnodup
  · rw [List.map_append, List.map_singleton, hid]
    exact hlt
  · intro r hr
    exact ⟨Nat.lt_succ_of_lt (h.fields r hr).1, (h.fields r hr).2⟩
  · rintro r hr hmark ⟨c, hc, hcontact, hactive⟩
    rcases List.mem_append.mp hc with hold | hnew
    · exact h.revoked r hr hmark ⟨c, hold, hcontact, hactive⟩
    · rw [List.mem_singleton.mp hnew, hid] at hcontact
      exact Nat.lt_irrefl _ (hcontact ▸ (h.fields r hr).1)

theorem Sound.addRequest (h : Sound s) (hid : request.id = s.store.nextId)
    (hcontact : request.contactId ∈ s.store.contacts.map EmergencyContact.id)
    (hemail : request.contactEmail ≠ "") (hstatus : request.status = .pending) :
    Sound { s with
      store := { s.store with
        requests := s.store.requests ++ [request], nextId := s.store.nextId + 1 } } := by
  obtain ⟨hnodup, hlt⟩ := nodup_concat h.requests_nodup h.requests_lt
  have hunmarked : ∀ {marks : List Nat}, (∀ id ∈ marks, id < s.store.nextId) →
      request.id ∉ marks := by
    intro marks hmarks hmem
    exact Nat.lt_irrefl _ (hid ▸ hmarks _ hmem)
  refine ⟨h.contacts_nodup, fun id hmem => Nat.lt_succ_of_lt (h.contacts_lt id hmem), ?_, ?_,
    fun id hmark => Nat.lt_succ_of_lt (h.marks_lt id hmark), ?_, ?_, ?_⟩
  · rw [List.map_append, List.map_singleton, hid]
    exact hnodup
  · rw [List.map_append, List.map_singleton, hid]
    exact hlt
  all_goals
    intro r hr
    rcases List.mem_append.mp hr with hold | hnew
  · exact ⟨Nat.lt_succ_of_lt (h.fields r hold).1, (h.fields r hold).2⟩
  · rw [List.mem_singleton.mp hnew]
    exact ⟨Nat.lt_succ_of_lt (h.contacts_lt _ hcontact), hemail⟩
  · exact h.decided r hold
  · rw [List.mem_singleton.mp hnew, hstatus]
    exact ⟨hunmarked fun id hmem => h.marks_lt id (.inl hmem),
      hunmarked fun id hmem => h.marks_lt id (.inr (.inl hmem))⟩
  · exact h.revoked r hold
  · intro hmark
    rw [List.mem_singleton.mp hnew] at hmark
    exact absurd hmark (hunmarked fun id hmem => h.marks_lt id (.inr (.inr hmem)))

theorem Sound.requestAccess (h : Sound s) {now : Int} {contactEmail : String}
    {reason : Option String} {store : Store}
    (hrequest : s.store.requestAccess now contactEmail reason = .ok store) :
    Sound { s with store := store } := by
  unfold Store.requestAccess at hrequest
  split_ifs at hrequest with hempty
  split at hrequest
  · cases hrequest
  · rename_i contact hfind
    obtain rfl := Except.ok.inj hrequest
    have hnew : s.store.nextId ∉ s.store.requests.map EmergencyAccessRequest.id :=
      fun hmem => Nat.lt_irrefl _ (h.requests_lt _ hmem)
    simp only [Store.persistRequest]
    rw [Keyed.upsert_of_new hnew]
    exact h.addRequest rfl (List.mem_map_of_mem (List.mem_of_find?_eq_some hfind)) hempty rfl

theorem Sound.denyAccess (h : Sound s) {now : Int} {requestId : Nat} {store : Store}
    (hdeny : s.store.denyAccess now requestId = .ok store) :
    Sound { s with store := store, denied := requestId :: s.denied } := by
  unfold Store.denyAccess at hdeny
  split at hdeny
  · cases hdeny
  · rename_i request hfind
    split_ifs at hdeny with hstatus
    obtain rfl := Except.ok.inj hdeny
    have hid := Keyed.key_of_find hfind
    refine h.persistRequest (Keyed.mem_of_find hfind) rfl rfl rfl rfl rfl ?_ ?_ ?_
    · intro id _
      rfl
    · intro id hne
      rw [List.mem_cons, or_iff_right (hid ▸ hne)]
    · exact .inl (hid ▸ List.mem_cons_self)

theorem Sound.approveAccess (h : Sound s) {requestId : Nat} {store : Store}
    (happrove : s.store.approveAccess requestId = .ok store) :
    Sound { s with store := store, approved := requestId :: s.approved } := by
  unfold Store.approveAccess at happrove
  split at happrove
  · cases happrove
  · rename_i request hfind
    split_ifs at happrove with hstatus
    obtain rfl := Except.ok.inj happrove
    have hid := Keyed.key_of_find hfind
    have hmem := Keyed.mem_of_find hfind
    refine h.persistRequest hmem rfl rfl rfl rfl rfl ?_ ?_ ?_
    · intro id hne
      rw [List.mem_cons, or_iff_right (hid ▸ hne)]
    · intro id _
      rfl
    · refine ⟨hid ▸ List.mem_cons_self, ?_⟩
      have hdecided := h.decided request hmem
      cases hold : request.status with
      | denied => exact absurd (.inl hold) hstatus
      | accessed => exact absurd (.inr hold) hstatus
      | pending => rw [hold] at hdecided; exact hdecided.2
      | approved => rw [hold] at hdecided; exact hdecided.2
      | expired => rw [hold] at hdecided; exact hdecided.2

theorem Sound.expire (h : Sound s) {now : Int} {requestId : Nat}
    (hfind : s.store.findRequest requestId = some request) :
    Sound { s with store := s.store.persistRequest (Store.expire now request) } := by
  have hmem := Keyed.mem_of_find hfind
  obtain ⟨hid, hcontact, hemail⟩ := keepsFields_expire now request
  refine h.persistRequest hmem rfl hid hcontact hemail rfl (fun _ _ => Iff.rfl)
    (fun _ _ => Iff.rfl) ?_
  have hdecided := h.decided request hmem
  rw [hid, Store.expire]
  split_ifs with hexpired
  · rw [hexpired.2] at hdecided
    exact hdecided
  · exact hdecided

theorem Sound.accessVault (h : Sound s) {now : Int} {requestId : Nat} {contactEmail key : String}
    {store : Store} (haccess : s.store.accessVault now requestId contactEmail = .ok (store, key)) :
    Sound { s with store := store } := by
  obtain ⟨-, request, contact, hfind, hstatus, -, -, -, -, rfl⟩ := accessVault_ok haccess
  have hmem := Keyed.mem_of_find hfind
  have hdecided := h.decided request hmem
  rw [hstatus] at hdecided
  exact h.persistRequest hmem rfl rfl rfl rfl rfl (fun _ _ => Iff.rfl) (fun _ _ => Iff.rfl) hdecided

theorem Sound.step (a : Action) (h : Sound s) : Sound (step s a) := by
  cases a with
  | designateContact now email displayName publicKeyHex encryptedVaultKeyHex =>
    have hnew : s.store.nextId ∉ s.store.contacts.map EmergencyContact.id :=
      fun hmem => Nat.lt_irrefl _ (h.contacts_lt _ hmem)
    simp only [EmergencyAccess.step, Store.designateContact, Store.persistContact]
    rw [Keyed.upsert_of_new hnew]
    exact h.addContact rfl
  | removeContact now contactId =>
    simp only [EmergencyAccess.step]
    split
    · exact h
    · rename_i store hremove
      exact h.removeContact hremove
  | requestAccess now contactEmail reason =>
    simp only [EmergencyAccess.step]
    split
    · exact h
    · rename_i store hrequest
      exact h.requestAccess hrequest
  | denyAccess now requestId =>
    simp only [EmergencyAccess.step]
    split
    · exact h
    · rename_i store hdeny
      exact h.denyAccess hdeny
  | approveAccess requestId =>
    simp only [EmergencyAccess.step]
    split
    · exact h
    · rename_i store happrove
      exact h.approveAccess happrove
  | checkAccessStatus now requestId =>
    simp only [EmergencyAccess.step]
    cases hfind : s.store.findRequest requestId with
    | none =>
      simp only [Store.checkAccessStatus, hfind]
      exact h
    | some request =>
      rw [checkAccessStatus_eq now hfind]
      split_ifs with hsame
      · exact h
      · exact h.expire hfind
  | getActiveRequests now => exact h
  | accessVault now requestId contactEmail =>
    simp only [EmergencyAccess.step]
    split
    · exact h
    · rename_i store key haccess
      exact h.accessVault haccess
  | revokeAllAccess now => exact h.revokeAllAccess now

theorem sound_run (actions : List Action) : Sound (run actions) :=
  Run.foldl_preserves (A := fun _ => True) (fun _ a _ h => h.step a) actions State.initial
    (fun _ _ => trivial) Sound.initial

/-! ## The rule -/

/-- The call yields the key for an approved request of an active contact. -/
theorem Sound.yields_iff (h : Sound s) (now : Int) (requestId : Nat) (contactEmail : String) :
    s.Yields now requestId contactEmail ↔ ∃ request ∈ s.store.requests, request.id = requestId
      ∧ request.contactEmail = contactEmail ∧ request.status = .approved
      ∧ s.store.Active request.contactId := by
  constructor
  · rintro ⟨st, key, haccess⟩
    obtain ⟨-, request, contact, hfind, hstatus, hemail, hcontact, hactive, -, -⟩ :=
      accessVault_ok haccess
    exact ⟨request, Keyed.mem_of_find hfind, Keyed.key_of_find hfind, hemail, hstatus, contact,
      Keyed.mem_of_find hcontact, Keyed.key_of_find hcontact, hactive⟩
  · rintro ⟨request, hmem, hid, hemail, hstatus, contact, hcontact, hcid, hactive⟩
    exact ⟨_, _, accessVault_of (hemail ▸ (h.fields request hmem).2)
      ((Keyed.find_eq_some_iff h.requests_nodup).mpr ⟨hmem, hid⟩) hstatus hemail
      ((Keyed.find_eq_some_iff h.contacts_nodup).mpr ⟨hcontact, hcid⟩) hactive⟩

/-- **What yields the key is due.** -/
theorem Sound.due_of_yields (h : Sound s) {now : Int} {requestId : Nat} {contactEmail : String}
    (hyields : s.Yields now requestId contactEmail) : s.Due now requestId contactEmail := by
  obtain ⟨request, hmem, rfl, hemail, hstatus, hactive⟩ := (h.yields_iff ..).mp hyields
  have hdecided := h.decided request hmem
  rw [hstatus] at hdecided
  exact ⟨request, hmem, rfl, hemail, hactive, hdecided.2,
    fun hmark => h.revoked request hmem hmark hactive, .inl hdecided.1⟩

/-- **The exact condition of one call.** -/
theorem Sound.exact (h : Sound s) (now : Int) (requestId : Nat) (contactEmail : String) :
    (s.Yields now requestId contactEmail ↔ s.Due now requestId contactEmail)
      ↔ s.InTime now requestId contactEmail := by
  constructor
  · rintro hiff request hmem rfl hemail hactive
    have hunrevoked : request.id ∉ s.revoked :=
      fun hmark => h.revoked request hmem hmark hactive
    have hdecided := h.decided request hmem
    have hnot : request.status ≠ .approved → ¬s.Due now request.id contactEmail := by
      intro hstatus hdue
      obtain ⟨r, hr, hid, -, happroved, -⟩ := (h.yields_iff ..).mp (hiff.mpr hdue)
      rw [List.inj_on_of_nodup_map h.requests_nodup hr hmem hid] at happroved
      exact hstatus happroved
    constructor
    · intro hstatus
      rw [hstatus] at hdecided
      exact hnot (by simp [hstatus])
        ⟨request, hmem, rfl, hemail, hactive, hdecided.2, hunrevoked, .inl hdecided.1⟩
    · intro hstatus
      by_contra hlate
      have hundenied : request.id ∉ s.denied := by
        rcases hstatus with hstatus | hstatus
        · rw [hstatus] at hdecided
          exact hdecided.2
        · rw [hstatus] at hdecided
          exact hdecided.2
      exact hnot (by rcases hstatus with hstatus | hstatus <;> simp [hstatus])
        ⟨request, hmem, rfl, hemail, hactive, hundenied, hunrevoked, .inr (by omega)⟩
  · intro hintime
    refine ⟨h.due_of_yields, ?_⟩
    rintro ⟨request, hmem, rfl, hemail, hactive, hundenied, hunrevoked, hdue⟩
    obtain ⟨hunused, hwaits⟩ := hintime request hmem rfl hemail hactive
    have hdecided := h.decided request hmem
    refine (h.yields_iff ..).mpr ⟨request, hmem, rfl, hemail, ?_, hactive⟩
    -- every other status contradicts the rule or the condition
    cases hstatus : request.status with
    | approved => rfl
    | accessed => exact absurd hstatus hunused
    | denied =>
      rw [hstatus] at hdecided
      exact (hdecided.elim hundenied hunrevoked).elim
    | pending =>
      rw [hstatus] at hdecided
      have hlate := hwaits (.inl hstatus)
      exact (hdue.elim hdecided.1 fun hnow => absurd hlate (by omega)).elim
    | expired =>
      rw [hstatus] at hdecided
      have hlate := hwaits (.inr hstatus)
      exact (hdue.elim hdecided.1 fun hnow => absurd hlate (by omega)).elim

/-! ## Status checks -/

/-- A call that only asks for the status of requests. -/
def Action.isCheck : Action → Bool
  | .checkAccessStatus .. => true
  | .getActiveRequests _ => true
  | _ => false

/-- No request that has been marked as expired is denied. -/
def DenialInTime (s : State) : Action → Prop
  | .denyAccess _ requestId =>
    ∀ request ∈ s.store.requests, request.id = requestId → s.store.Active request.contactId →
      request.status ≠ .expired
  | _ => True

/-- Of an active contact, the same request, up to a pending one that has been
marked as expired. -/
structure Alike (st : Store) (r r' : EmergencyAccessRequest) : Prop where
  id : r.id = r'.id
  contactId : r.contactId = r'.contactId
  contactEmail : r.contactEmail = r'.contactEmail
  status : st.Active r.contactId →
    r.status = r'.status ∨ r.status = .expired ∧ r'.status = .pending

/-- A state, and one without the status checks. -/
structure Unchecked (s t : State) : Prop where
  sound : Sound s
  contacts : s.store.contacts = t.store.contacts
  nextId : s.store.nextId = t.store.nextId
  requests : List.Forall₂ (Alike s.store) s.store.requests t.store.requests

variable {t : State}

theorem Alike.refl (st : Store) (r : EmergencyAccessRequest) : Alike st r r :=
  ⟨rfl, rfl, rfl, fun _ => .inl rfl⟩

theorem Alike.map {st' : Store} {r r' : EmergencyAccessRequest} (h : Alike st r r')
    {f f' : EmergencyAccessRequest → EmergencyAccessRequest} (hf : KeepsFields f)
    (hf' : KeepsFields f')
    (hstatus : st'.Active r.contactId →
      (f r).status = (f' r').status ∨ (f r).status = .expired ∧ (f' r').status = .pending) :
    Alike st' (f r) (f' r') := by
  obtain ⟨hid, hcontact, hemail⟩ := hf r
  obtain ⟨hid', hcontact', hemail'⟩ := hf' r'
  exact ⟨by rw [hid, hid', h.id], by rw [hcontact, hcontact', h.contactId],
    by rw [hemail, hemail', h.contactEmail], fun hactive => hstatus (hcontact ▸ hactive)⟩

theorem Alike.mono {st' : Store} {r r' : EmergencyAccessRequest} (h : Alike st r r')
    (hactive : st'.Active r.contactId → st.Active r.contactId) : Alike st' r r' :=
  ⟨h.id, h.contactId, h.contactEmail, fun hact => h.status (hactive hact)⟩

/-- The request of an id is rewritten, if there is one. -/
def Store.rewrite (st : Store) (requestId : Nat)
    (f : EmergencyAccessRequest → EmergencyAccessRequest) : Store :=
  match st.findRequest requestId with
  | none => st
  | some request => st.persistRequest (f request)

theorem persistRequest_of_find {requestId : Nat} (hfind : st.findRequest requestId = some request) :
    st.persistRequest request = st := by
  rw [Store.persistRequest, Keyed.upsert_of_find hfind]

/-- What `denyAccess` makes of a request. -/
def denied (now : Int) (request : EmergencyAccessRequest) : EmergencyAccessRequest :=
  if request.status = .pending then { request with status := .denied, deniedAt := some now }
  else request

/-- What `approveAccess` makes of a request. -/
def approved (request : EmergencyAccessRequest) : EmergencyAccessRequest :=
  if request.status = .denied ∨ request.status = .accessed then request
  else { request with status := .approved }

/-- What `accessVault` makes of a request. -/
def accessed (st : Store) (now : Int) (contactEmail : String) (request : EmergencyAccessRequest) :
    EmergencyAccessRequest :=
  if contactEmail ≠ "" ∧ request.status = .approved ∧ request.contactEmail = contactEmail
      ∧ (st.findContact request.contactId).any fun contact => contact.status = .active then
    { request with status := .accessed, accessedAt := some now }
  else request

theorem keepsFields_denied (now : Int) : KeepsFields (denied now) := by
  intro request
  rw [denied]
  split_ifs <;> exact ⟨rfl, rfl, rfl⟩

theorem keepsFields_approved : KeepsFields approved := by
  intro request
  rw [approved]
  split_ifs <;> exact ⟨rfl, rfl, rfl⟩

theorem keepsFields_accessed (st : Store) (now : Int) (contactEmail : String) :
    KeepsFields (accessed st now contactEmail) := by
  intro request
  rw [accessed]
  split_ifs <;> exact ⟨rfl, rfl, rfl⟩

theorem step_denyAccess (s : State) (now : Int) (requestId : Nat) :
    (step s (.denyAccess now requestId)).store = s.store.rewrite requestId (denied now) := by
  rw [Store.rewrite]
  cases hfind : s.store.findRequest requestId with
  | none => simp only [step, Store.denyAccess, hfind]
  | some request =>
    by_cases hstatus : request.status = .pending
    · simp only [step, Store.denyAccess, hfind, hstatus, denied, ne_eq, not_true_eq_false,
        if_false, if_true]
    · simp only [step, Store.denyAccess, hfind, hstatus, denied, ne_eq, not_false_eq_true,
        if_true, if_false]
      exact (persistRequest_of_find hfind).symm

theorem step_approveAccess (s : State) (requestId : Nat) :
    (step s (.approveAccess requestId)).store = s.store.rewrite requestId approved := by
  rw [Store.rewrite]
  cases hfind : s.store.findRequest requestId with
  | none => simp only [step, Store.approveAccess, hfind]
  | some request =>
    by_cases hstatus : request.status = .denied ∨ request.status = .accessed
    · simp only [step, Store.approveAccess, hfind, approved, if_pos hstatus]
      exact (persistRequest_of_find hfind).symm
    · simp only [step, Store.approveAccess, hfind, approved, if_neg hstatus]

theorem step_accessVault (s : State) (now : Int) (requestId : Nat) (contactEmail : String) :
    (step s (.accessVault now requestId contactEmail)).store
      = s.store.rewrite requestId (accessed s.store now contactEmail) := by
  rw [Store.rewrite]
  cases hfind : s.store.findRequest requestId with
  | none =>
    by_cases hempty : contactEmail = "" <;>
      simp only [step, Store.accessVault, hempty, hfind, if_true, if_false]
  | some request =>
    simp only [step, accessed]
    split_ifs with hgranted
    · obtain ⟨hempty, hstatus, hemail, hany⟩ := hgranted
      obtain ⟨contact, hcontact, hactive⟩ := (Option.any_eq_true _ _).mp hany
      rw [accessVault_of hempty hfind hstatus hemail hcontact (of_decide_eq_true hactive)]
    · split
      · exact (persistRequest_of_find hfind).symm
      · rename_i store key haccess
        obtain ⟨hempty, r, contact, hr, hstatus, hemail, hcontact, hactive, -, -⟩ :=
          accessVault_ok haccess
        obtain rfl : request = r := Option.some.inj (hfind.symm.trans hr)
        exact absurd ⟨hempty, hstatus, hemail, by simp [hcontact, hactive]⟩ hgranted

theorem step_checkAccessStatus (s : State) (now : Int) (requestId : Nat) :
    (step s (.checkAccessStatus now requestId)).store
      = s.store.rewrite requestId (Store.expire now) := by
  rw [Store.rewrite]
  cases hfind : s.store.findRequest requestId with
  | none => simp only [step, Store.checkAccessStatus, hfind]
  | some request =>
    simp only [step, checkAccessStatus_eq now hfind]
    split_ifs with hsame
    · rw [hsame, persistRequest_of_find hfind]
    · rfl

/-- **Both states rewrite a request**, each in its own way. -/
theorem Unchecked.rewrite (h : Unchecked s t) {requestId : Nat}
    {f f' : EmergencyAccessRequest → EmergencyAccessRequest}
    (hf : ∀ r r', s.store.findRequest requestId = some r → Alike s.store r r' →
      Alike s.store (f r) (f' r')) (hsound : Sound s')
    (hs : s'.store = s.store.rewrite requestId f) {t' : State}
    (ht : t'.store = t.store.rewrite requestId f') : Unchecked s' t' := by
  have hrel := Keyed.find_forall₂ (k := requestId) (fun hr => hr.id) h.requests
  rw [Store.rewrite, Store.findRequest] at hs ht
  cases hfind : Keyed.find EmergencyAccessRequest.id requestId s.store.requests with
  | none =>
    rw [hfind] at hrel hs
    cases hfind' : Keyed.find EmergencyAccessRequest.id requestId t.store.requests with
    | none =>
      rw [hfind'] at ht
      exact ⟨hsound, by rw [hs, ht, h.contacts], by rw [hs, ht, h.nextId],
        by rw [hs, ht]; exact h.requests⟩
    | some r' =>
      rw [hfind'] at hrel
      cases hrel
  | some r =>
    rw [hfind] at hrel hs
    cases hfind' : Keyed.find EmergencyAccessRequest.id requestId t.store.requests with
    | none =>
      rw [hfind'] at hrel
      cases hrel
    | some r' =>
      rw [hfind'] at hrel ht
      cases hrel with
      | some halike =>
        have hwritten := Keyed.forall₂_upsert (fun hr => hr.id) (hf r r' hfind halike)
          h.requests
        refine ⟨hsound, by rw [hs, ht]; exact h.contacts, by rw [hs, ht]; exact h.nextId, ?_⟩
        rw [hs, ht]
        exact hwritten.imp fun _ _ hr => hr.mono fun hactive => hactive

theorem Unchecked.skip (h : Unchecked s t) {a : Action} (hcheck : a.isCheck = true) :
    Unchecked (step s a) t := by
  cases a with
  | checkAccessStatus now requestId =>
    have hkept : t.store = t.store.rewrite requestId id := by
      rw [Store.rewrite]
      split
      · rfl
      · rename_i hfind
        exact (persistRequest_of_find hfind).symm
    have hid : KeepsFields id := fun _ => ⟨rfl, rfl, rfl⟩
    refine h.rewrite ?_ (h.sound.step _) (step_checkAccessStatus s now requestId) hkept
    intro r r' _ halike
    refine halike.map (keepsFields_expire now) hid ?_
    intro hactive
    rw [Store.expire]
    split_ifs with hexpired
    · rcases halike.status hactive with heq | ⟨-, hpending⟩
      · exact .inr ⟨rfl, heq ▸ hexpired.2⟩
      · exact .inr ⟨rfl, hpending⟩
    · exact halike.status hactive
  | getActiveRequests now => exact h
  | _ => cases hcheck

/-- The requests stay alike while none of their contacts becomes active. -/
theorem forall₂_mono {rs rs' : List EmergencyAccessRequest} (h : List.Forall₂ (Alike st) rs rs')
    {st' : Store} (hactive : ∀ r ∈ rs, st'.Active r.contactId → st.Active r.contactId) :
    List.Forall₂ (Alike st') rs rs' := by
  induction h with
  | nil => exact .nil
  | @cons r r' rs rs' halike _ ih =>
    exact .cons (halike.mono (hactive r List.mem_cons_self))
      (ih fun q hq => hactive q (List.mem_cons_of_mem r hq))

theorem Unchecked.designateContact (h : Unchecked s t) {now : Int}
    {email displayName publicKeyHex encryptedVaultKeyHex : String} {s' t' : State}
    (hsound : Sound s')
    (hs : s'.store = s.store.designateContact now email displayName publicKeyHex
      encryptedVaultKeyHex)
    (ht : t'.store = t.store.designateContact now email displayName publicKeyHex
      encryptedVaultKeyHex) : Unchecked s' t' := by
  refine ⟨hsound, ?_, ?_, ?_⟩
  · rw [hs, ht]
    show Keyed.upsert _ _ s.store.contacts = Keyed.upsert _ _ t.store.contacts
    rw [h.contacts, h.nextId]
  · rw [hs, ht]
    exact congrArg (· + 1) h.nextId
  · rw [hs, ht]
    refine forall₂_mono h.requests ?_
    rintro r hr ⟨contact, hcontact, hid, hactive⟩
    rcases (Keyed.mem_upsert h.sound.contacts_nodup).mp hcontact with rfl | ⟨hold, -⟩
    · -- the new contact has no request
      exact absurd (hid ▸ (h.sound.fields r hr).1) (Nat.lt_irrefl _)
    · exact ⟨contact, hold, hid, hactive⟩

theorem Unchecked.removeContact (h : Unchecked s t) (now : Int) (contactId : Nat) :
    Unchecked (EmergencyAccess.step s (.removeContact now contactId))
      (EmergencyAccess.step t (.removeContact now contactId)) := by
  have hsound := h.sound.step (.removeContact now contactId)
  have hcontacts : s.store.findContact contactId = t.store.findContact contactId := by
    rw [Store.findContact, Store.findContact, h.contacts]
  simp only [EmergencyAccess.step, Store.removeContact, ← hcontacts] at hsound ⊢
  cases hfind : s.store.findContact contactId with
  | none => exact h
  | some contact =>
    rw [hfind] at hsound
    refine ⟨hsound, by simp only [Store.persistContact, h.contacts], h.nextId, ?_⟩
    refine List.forall₂_map_left_iff.mpr (List.forall₂_map_right_iff.mpr ?_)
    refine h.requests.imp fun r r' halike => ?_
    refine halike.map (keepsFields_invalidate contactId now)
      (keepsFields_invalidate contactId now) ?_
    intro hactive
    obtain ⟨hbefore, hother⟩ := active_of_removed h.sound.contacts_nodup hfind hactive
    rw [Store.invalidate, Store.invalidate, if_neg fun hr => hother hr.1,
      if_neg fun hr => hother (halike.contactId.trans hr.1)]
    exact halike.status hbefore

theorem Unchecked.requestAccess (h : Unchecked s t) (now : Int) (contactEmail : String)
    (reason : Option String) :
    Unchecked (EmergencyAccess.step s (.requestAccess now contactEmail reason))
      (EmergencyAccess.step t (.requestAccess now contactEmail reason)) := by
  have hsound := h.sound.step (.requestAccess now contactEmail reason)
  simp only [EmergencyAccess.step, Store.requestAccess, ← h.contacts, ← h.nextId] at hsound ⊢
  by_cases hempty : contactEmail = ""
  · simp only [if_pos hempty] at hsound ⊢
    exact h
  · simp only [if_neg hempty] at hsound ⊢
    cases hfind : s.store.contacts.find? fun c => c.email = contactEmail ∧ c.status = .active with
    | none => exact h
    | some contact =>
      rw [hfind] at hsound
      dsimp only [Store.persistRequest] at hsound ⊢
      refine ⟨hsound, rfl, rfl, ?_⟩
      have hwritten := Keyed.forall₂_upsert (fun hr => hr.id) (Alike.refl s.store
        ⟨s.store.nextId, contact.id, contactEmail, now, now + ACCESS_WAIT_PERIOD_MS, .pending,
          none, none, reason⟩) h.requests
      exact hwritten.imp fun _ _ hr => hr.mono fun hactive => hactive

theorem Alike.denied {r r' : EmergencyAccessRequest} (h : Alike st r r') (now : Int)
    (hintime : st.Active r.contactId → r.status ≠ .expired) :
    Alike st (denied now r) (denied now r') := by
  refine h.map (keepsFields_denied now) (keepsFields_denied now) ?_
  intro hactive
  rcases h.status hactive with heq | ⟨hexpired, -⟩
  · left
    rw [EmergencyAccess.denied, EmergencyAccess.denied, heq]
    split_ifs
    · rfl
    · exact heq
  · exact absurd hexpired (hintime hactive)

theorem Alike.approved {r r' : EmergencyAccessRequest} (h : Alike st r r') :
    Alike st (approved r) (approved r') := by
  refine h.map keepsFields_approved keepsFields_approved ?_
  intro hactive
  left
  rcases h.status hactive with heq | ⟨hexpired, hpending⟩
  · rw [EmergencyAccess.approved, EmergencyAccess.approved, heq]
    split_ifs
    · exact heq
    · rfl
  · rw [EmergencyAccess.approved, EmergencyAccess.approved, if_neg (by simp [hexpired]),
      if_neg (by simp [hpending])]

theorem Alike.accessed {r r' : EmergencyAccessRequest} (h : Alike st r r') {st' : Store}
    (hcontacts : st.contacts = st'.contacts) (now : Int) (contactEmail : String) :
    Alike st (accessed st now contactEmail r) (accessed st' now contactEmail r') := by
  refine h.map (keepsFields_accessed _ now contactEmail)
    (keepsFields_accessed _ now contactEmail) ?_
  intro hactive
  rcases h.status hactive with heq | ⟨hexpired, hpending⟩
  · left
    rw [EmergencyAccess.accessed, EmergencyAccess.accessed, Store.findContact, Store.findContact,
      heq, h.contactId, h.contactEmail, hcontacts]
    split_ifs
    · rfl
    · exact heq
  · right
    rw [EmergencyAccess.accessed, EmergencyAccess.accessed, if_neg (by simp [hexpired]),
      if_neg (by simp [hpending])]
    exact ⟨hexpired, hpending⟩

theorem Unchecked.revokeAllAccess (h : Unchecked s t) (now : Int) :
    Unchecked (EmergencyAccess.step s (.revokeAllAccess now))
      (EmergencyAccess.step t (.revokeAllAccess now)) := by
  obtain ⟨hrequests, hnext⟩ := revokeAllAccess_requests s.store now
  obtain ⟨hrequests', hnext'⟩ := revokeAllAccess_requests t.store now
  have hcontacts : (s.store.revokeAllAccess now).contacts
      = (t.store.revokeAllAccess now).contacts := by
    rw [Store.revokeAllAccess, Store.revokeAllAccess, foldl_persistContact, foldl_persistContact,
      h.contacts]
  refine ⟨h.sound.step _, hcontacts, hnext.trans (h.nextId.trans hnext'.symm), ?_⟩
  simp only [EmergencyAccess.step]
  rw [hrequests, hrequests']
  refine List.forall₂_map_left_iff.mpr (List.forall₂_map_right_iff.mpr ?_)
  refine h.requests.imp fun r r' halike => ?_
  refine halike.map (keepsFields_revoke now) (keepsFields_revoke now) ?_
  intro hactive
  exact absurd hactive ((revokeAllAccess_contacts h.sound.contacts_nodup now).2 _)

/-- **Every other call** does to both states what keeps them alike. -/
theorem Unchecked.step (h : Unchecked s t) {a : Action} (hcheck : a.isCheck = false)
    (hintime : DenialInTime s a) : Unchecked (step s a) (EmergencyAccess.step t a) := by
  have hsound := h.sound.step a
  cases a with
  | checkAccessStatus => cases hcheck
  | getActiveRequests => cases hcheck
  | designateContact now email displayName publicKeyHex encryptedVaultKeyHex =>
    exact h.designateContact hsound rfl rfl
  | removeContact now contactId => exact h.removeContact now contactId
  | requestAccess now contactEmail reason => exact h.requestAccess now contactEmail reason
  | denyAccess now requestId =>
    refine h.rewrite ?_ hsound (step_denyAccess s now requestId) (step_denyAccess t now requestId)
    intro r r' hfind halike
    exact halike.denied now (hintime r (Keyed.mem_of_find hfind) (Keyed.key_of_find hfind))
  | approveAccess requestId =>
    refine h.rewrite ?_ hsound (step_approveAccess s requestId) (step_approveAccess t requestId)
    intro r r' _ halike
    exact halike.approved
  | accessVault now requestId contactEmail =>
    refine h.rewrite ?_ hsound (step_accessVault s now requestId contactEmail)
      (step_accessVault t now requestId contactEmail)
    intro r r' _ halike
    exact halike.accessed h.contacts now contactEmail
  | revokeAllAccess now => exact h.revokeAllAccess now

/-- **A run and the same run without the status checks.** -/
theorem unchecked_run {actions : List Action}
    (hrun : Run.Each step DenialInTime State.initial actions) :
    Unchecked (run actions) (run (actions.filter fun a => !a.isCheck)) := by
  refine Run.Each.filter_relates ?_ ?_ hrun ⟨.initial, rfl, rfl, .nil⟩
  · intro s t a hcheck _ h
    exact h.skip (by simpa using hcheck)
  · intro s t a hcheck hintime h
    exact h.step (by simpa using hcheck) hintime

theorem Unchecked.yields_iff (h : Unchecked s t) (ht : Sound t) (now : Int) (requestId : Nat)
    (contactEmail : String) :
    s.Yields now requestId contactEmail ↔ t.Yields now requestId contactEmail := by
  have hrel := Keyed.find_forall₂ (k := requestId) (fun hr => hr.id) h.requests
  have hactive : ∀ id, s.store.Active id ↔ t.store.Active id := by
    intro id
    rw [Store.Active, Store.Active, h.contacts]
  rw [h.sound.yields_iff, ht.yields_iff]
  constructor
  · rintro ⟨r, hmem, hid, hemail, hstatus, hact⟩
    rw [(Keyed.find_eq_some_iff h.sound.requests_nodup).mpr ⟨hmem, hid⟩] at hrel
    cases hfind : Keyed.find EmergencyAccessRequest.id requestId t.store.requests with
    | none => rw [hfind] at hrel; cases hrel
    | some r' =>
      rw [hfind] at hrel
      cases hrel with
      | some halike =>
        refine ⟨r', Keyed.mem_of_find hfind, Keyed.key_of_find hfind,
          halike.contactEmail ▸ hemail, ?_, (hactive _).mp (halike.contactId ▸ hact)⟩
        rcases halike.status hact with heq | ⟨hexpired, -⟩
        · exact heq ▸ hstatus
        · rw [hstatus] at hexpired
          cases hexpired
  · rintro ⟨r', hmem, hid, hemail, hstatus, hact⟩
    rw [(Keyed.find_eq_some_iff ht.requests_nodup).mpr ⟨hmem, hid⟩] at hrel
    cases hfind : Keyed.find EmergencyAccessRequest.id requestId s.store.requests with
    | none => rw [hfind] at hrel; cases hrel
    | some r =>
      rw [hfind] at hrel
      cases hrel with
      | some halike =>
        have hact' : s.store.Active r.contactId := (hactive _).mpr (halike.contactId ▸ hact)
        refine ⟨r, Keyed.mem_of_find hfind, Keyed.key_of_find hfind,
          halike.contactEmail ▸ hemail, ?_, hact'⟩
        rcases halike.status hact' with heq | ⟨-, hpending⟩
        · exact heq ▸ hstatus
        · rw [hstatus] at hpending
          cases hpending

/-- **The waiting-period rule.** What yields the key is due; a call follows the
rule just when it is in time; and status checks do not matter when no expired
request is denied. -/
theorem accessVault_due (actions : List Action) (now : Int) (requestId : Nat)
    (contactEmail : String) :
    ((run actions).Yields now requestId contactEmail →
        (run actions).Due now requestId contactEmail)
      ∧ (((run actions).Yields now requestId contactEmail
            ↔ (run actions).Due now requestId contactEmail)
          ↔ (run actions).InTime now requestId contactEmail)
      ∧ (Run.Each step DenialInTime State.initial actions →
          ((run actions).Yields now requestId contactEmail
            ↔ (run (actions.filter fun a => !a.isCheck)).Yields now requestId contactEmail)) :=
  ⟨(sound_run actions).due_of_yields, (sound_run actions).exact now requestId contactEmail,
    fun hrun => (unchecked_run hrun).yields_iff (sound_run _) now requestId contactEmail⟩

/-- Bob asks for access and nobody answers. -/
def unanswered : List Action :=
  [.designateContact 0 "bob@x.com" "Bob" "" "c0de", .requestAccess 0 "bob@x.com" none]

/-- After 73 hours he still has no access. -/
theorem waited_without_access :
    ¬∀ actions now requestId contactEmail,
      (run actions).Yields now requestId contactEmail
        ↔ (run actions).Due now requestId contactEmail := by
  intro h
  have hrun := (sound_run unanswered).exact (73 * 60 * 60 * 1000) 1 "bob@x.com"
  have hopen := hrun.mp (h _ _ _ _)
    ⟨1, 0, "bob@x.com", 0, 72 * 60 * 60 * 1000, .pending, none, none, none⟩ (by decide) rfl rfl (by decide)
  exact absurd (hopen.2 (.inl rfl)) (by decide)

end UsbVault.App.EmergencyAccess
