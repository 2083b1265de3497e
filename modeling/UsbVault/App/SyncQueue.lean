import UsbVault.Lib.Run

/-!
# The sync queue

The sync service keeps what it has to send in `localStorage`. A call loads the
whole queue, changes it and saves it, at most 200 items of it. `processQueue`
awaits every item it sends between its load and its save, and its save writes
over what others have saved meanwhile.

An item whose payload is not encrypted goes as a message without its data,
which the server refuses, and is marked as synced: it has not been sent.

`Kept` says that every enqueued item has been sent or is in the stored queue.
It holds along every run in which no item is enqueued while a call of
`processQueue` is at an await, no save cuts off an item that is still to be
sent, and no message goes without its data (`kept_run`).
-/

namespace UsbVault.App.SyncQueue

/-! ## Items -/

inductive SyncStatus where
  | synced | pending | conflict | error
  deriving DecidableEq, Repr

inductive ItemType where
  | share | message | share_accept | share_revoke | message_read
  deriving DecidableEq, Repr

def ItemType.toUpperCase : ItemType → String
  | .share => "SHARE"
  | .message => "MESSAGE"
  | .share_accept => "SHARE_ACCEPT"
  | .share_revoke => "SHARE_REVOKE"
  | .message_read => "MESSAGE_READ"

structure EncryptedSyncEvent where
  event_type : String
  encrypted_data : String
  nonce : String
  deriving DecidableEq, Repr

/-- An event that is encrypted already, or other data. -/
inductive Payload (δ : Type) where
  | encrypted (event : EncryptedSyncEvent)
  | plain (data : δ)
  deriving DecidableEq, Repr

structure SyncQueueItem (δ : Type) where
  id : String
  type : ItemType
  payload : Payload δ
  createdAt : String
  retryCount : Nat
  status : SyncStatus
  lastError : Option String
  deriving DecidableEq, Repr

variable {δ : Type}

namespace SyncQueueItem

/-- What does not change while an item waits. -/
def request (item : SyncQueueItem δ) : String × ItemType × Payload δ × String :=
  (item.id, item.type, item.payload, item.createdAt)

/-- The event that is sent for an item. Data that is not encrypted is left
out. -/
def event (item : SyncQueueItem δ) : EncryptedSyncEvent :=
  match item.payload with
  | .encrypted event => event
  | .plain _ => ⟨item.type.toUpperCase, "", ""⟩

/-- What reaches the server. -/
def message (item : SyncQueueItem δ) : String × EncryptedSyncEvent := (item.id, item.event)

/-- `item.payload._encrypted` -/
def encrypted (item : SyncQueueItem δ) : Bool :=
  match item.payload with
  | .encrypted _ => true
  | .plain _ => false

theorem encrypted_of_request {i j : SyncQueueItem δ} (h : i.request = j.request) :
    i.encrypted = j.encrypted := by
  simp only [request, Prod.mk.injEq] at h
  obtain ⟨-, -, hpayload, -⟩ := h
  rw [encrypted, encrypted, hpayload]

theorem message_of_request {i j : SyncQueueItem δ} (h : i.request = j.request) :
    i.message = j.message := by
  simp only [request, Prod.mk.injEq] at h
  obtain ⟨hid, htype, hpayload, -⟩ := h
  rw [message, message, event, event, hid, htype, hpayload]

/-- The filter of `processQueue`. -/
def isPending (item : SyncQueueItem δ) : Bool :=
  item.status = .pending ∨ item.status = .error

end SyncQueueItem

def MAX_RETRIES : Nat := 5

/-! ## The service -/

/-- A call of `processQueue` at an await: the items of its queue that it has
dealt with, the one it awaits, the others, and how the send has ended. -/
structure Processing (δ : Type) where
  passed : List (SyncQueueItem δ)
  item : SyncQueueItem δ
  rest : List (SyncQueueItem δ)
  error : Option String

/-- `_isSyncing` holds while a call is at an await. `stored` is the queue in
`localStorage`, which may refuse what is written to it. Of the last two fields
the code knows nothing: the items enqueued and the events sent so far. -/
structure State (δ : Type) where
  stored : List (SyncQueueItem δ)
  writable : Bool
  wsConnected : Bool
  wsOpen : Bool
  processing : Option (Processing δ)
  enqueued : List (SyncQueueItem δ)
  sent : List (String × EncryptedSyncEvent)

def State.initial : State δ := ⟨[], true, false, false, none, [], []⟩

/-- The last so many items, as `slice` gives them for a negative start. -/
def lastItems (n : Nat) (queue : List (SyncQueueItem δ)) : List (SyncQueueItem δ) :=
  queue.drop (queue.length - n)

def saveQueue (s : State δ) (queue : List (SyncQueueItem δ)) : State δ :=
  if s.writable then { s with stored := lastItems 200 queue } else s

/-- `_syncItem`. It throws without an open socket, or when the send does. -/
def syncItem (s : State δ) (item : SyncQueueItem δ) (failure : Option String) :
    State δ × Option String :=
  if s.wsOpen = false then (s, some "WebSocket not connected")
  else
    match failure with
    | some error => (s, some error)
    | none => ({ s with sent := s.sent ++ [item.message] }, none)

/-- The item behind its await. -/
def SyncQueueItem.settle (item : SyncQueueItem δ) : Option String → SyncQueueItem δ
  | none => { item with status := .synced }
  | some error =>
    { item with retryCount := item.retryCount + 1, status := .error, lastError := some error }

def SyncQueueItem.giveUp (item : SyncQueueItem δ) : SyncQueueItem δ :=
  { item with status := .error, lastError := some s!"Max retries ({MAX_RETRIES}) exceeded" }

/-- The loop of `processQueue` up to its next await, or to its end. -/
def processItems (failure : Option String) (s : State δ) (passed : List (SyncQueueItem δ)) :
    List (SyncQueueItem δ) → State δ
  | [] => { saveQueue s passed with processing := none }
  | item :: rest =>
    if item.isPending = false then processItems failure s (passed ++ [item]) rest
    else if MAX_RETRIES ≤ item.retryCount then
      processItems failure s (passed ++ [item.giveUp]) rest
    else
      let (s, error) := syncItem s item failure
      { s with processing := some ⟨passed, item, rest, error⟩ }

def processQueue (failure : Option String) (s : State δ) : State δ :=
  if s.processing.isSome ∨ s.wsConnected = false then s
  else processItems failure s [] s.stored

/-- A call of `processQueue` goes on behind its await. -/
def resume (failure : Option String) (s : State δ) : State δ :=
  match s.processing with
  | none => s
  | some p => processItems failure s (p.passed ++ [p.item.settle p.error]) p.rest

/-- `queue.push(item)` on the stored queue. -/
def push (item : SyncQueueItem δ) (s : State δ) : State δ :=
  saveQueue { s with enqueued := s.enqueued ++ [item] } (s.stored ++ [item])

def enqueue (failure : Option String) (id : String) (type : ItemType) (payload : Payload δ)
    (createdAt : String) (s : State δ) : State δ :=
  let s := push ⟨id, type, payload, createdAt, 0, .pending, none⟩ s
  if s.wsConnected then processQueue failure s else s

def clearSynced (s : State δ) : State δ :=
  saveQueue s (s.stored.filter fun item => item.status ≠ .synced)

/-! ## Runs -/

/-- What happens next. A send that takes place in a step ends as `failure`
says. -/
inductive Action (δ : Type) where
  | enqueue (id : String) (type : ItemType) (payload : Payload δ) (createdAt : String)
      (failure : Option String)
  | processQueue (failure : Option String)
  | resume (failure : Option String)
  | clearSynced
  | opened (failure : Option String)
  | closed
  | readyState (isOpen : Bool)
  | storage (writable : Bool)
  | reload

def step (s : State δ) : Action δ → State δ
  | .enqueue id type payload createdAt failure =>
    SyncQueue.enqueue failure id type payload createdAt s
  | .processQueue failure => SyncQueue.processQueue failure s
  | .resume failure => SyncQueue.resume failure s
  | .clearSynced => SyncQueue.clearSynced s
  | .opened failure =>
    SyncQueue.processQueue failure { s with wsConnected := true, wsOpen := true }
  | .closed => { s with wsConnected := false, wsOpen := false }
  | .readyState isOpen => { s with wsOpen := isOpen }
  | .storage writable => { s with writable := writable }
  | .reload => { s with processing := none, wsConnected := false, wsOpen := false }

/-- The item is in the queue, and still to be sent. -/
def Waits (queue : List (SyncQueueItem δ)) (item : SyncQueueItem δ) : Prop :=
  ∃ i ∈ queue, i.request = item.request ∧ i.status ≠ .synced

/-- The item's data has reached the server. -/
def Sent (sent : List (String × EncryptedSyncEvent)) (item : SyncQueueItem δ) : Prop :=
  item.encrypted = true ∧ item.message ∈ sent

/-- Every enqueued item is in the stored queue until it has been sent. -/
def Kept (s : State δ) : Prop :=
  ∀ item ∈ s.enqueued, ¬Sent s.sent item → Waits s.stored item

/-- The item that the loop of `processQueue` sends next. -/
def nextItem (queue : List (SyncQueueItem δ)) : Option (SyncQueueItem δ) :=
  queue.find? fun item => item.isPending && decide (item.retryCount < MAX_RETRIES)

/-- If the send succeeds, the data of the next item goes with it. -/
def SendsData (isOpen : Bool) (failure : Option String) (queue : List (SyncQueueItem δ)) : Prop :=
  isOpen = true → failure = none → ∀ item ∈ nextItem queue, item.encrypted = true

/-- An item is enqueued while no call of `processQueue` is at an await, is
stored, and cuts off no item that is still to be sent; and no step sends a
message without the data it is for. -/
def Room (s : State δ) : Action δ → Prop
  | .enqueue id type payload createdAt failure =>
    s.processing = none ∧ s.writable
      ∧ (∀ i ∈ s.stored.take (s.stored.length + 1 - 200), i.status = .synced)
      ∧ (s.wsConnected = true → SendsData s.wsOpen failure
        (push ⟨id, type, payload, createdAt, 0, .pending, none⟩ s).stored)
  | .processQueue failure =>
    s.processing = none → s.wsConnected = true → SendsData s.wsOpen failure s.stored
  | .opened failure => s.processing = none → SendsData true failure s.stored
  | .resume failure => ∀ p ∈ s.processing, SendsData s.wsOpen failure p.rest
  | _ => True

/-! ## The queue of a call -/

/-- The queue that a call will save, as far as it is known. -/
def Processing.queue (p : Processing δ) : List (SyncQueueItem δ) :=
  p.passed ++ p.item.settle p.error :: p.rest

/-- Each stored item that is still to be sent stands in the queue, marked as
synced only when it has been sent. -/
def Covers (s : State δ) (queue : List (SyncQueueItem δ)) : Prop :=
  ∀ i ∈ s.stored, i.status ≠ .synced →
    ∃ q ∈ queue, q.request = i.request ∧ (q.status = .synced → Sent s.sent q)

structure Inv (s : State δ) : Prop where
  kept : Kept s
  length_le : s.stored.length ≤ 200
  covers : ∀ p, s.processing = some p → Covers s p.queue ∧ p.queue.length ≤ 200

variable {s : State δ} {queue passed rest : List (SyncQueueItem δ)}
  {item item' : SyncQueueItem δ}

theorem length_lastItems_le (n : Nat) (queue : List (SyncQueueItem δ)) :
    (lastItems n queue).length ≤ n := by
  rw [lastItems, List.length_drop]
  omega

theorem lastItems_of_le {n : Nat} (h : queue.length ≤ n) : lastItems n queue = queue := by
  rw [lastItems, Nat.sub_eq_zero_of_le h, List.drop_zero]

theorem lastItems_concat {n : Nat} (hn : 0 < n) (queue : List (SyncQueueItem δ))
    (item : SyncQueueItem δ) :
    lastItems n (queue ++ [item]) = queue.drop (queue.length + 1 - n) ++ [item] := by
  rw [lastItems, List.length_append, List.length_singleton,
    List.drop_append_of_le_length (by omega)]

theorem stored_saveQueue (s : State δ) (queue : List (SyncQueueItem δ)) :
    (saveQueue s queue).stored = if s.writable then lastItems 200 queue else s.stored := by
  cases hwritable : s.writable <;> simp [saveQueue, hwritable]

theorem length_stored_saveQueue (h : s.stored.length ≤ 200) (queue : List (SyncQueueItem δ)) :
    (saveQueue s queue).stored.length ≤ 200 := by
  rw [stored_saveQueue]
  split
  · exact length_lastItems_le 200 queue
  · exact h

theorem covers_stored (s : State δ) : Covers s s.stored :=
  fun i hi hstatus => ⟨i, hi, rfl, fun hsynced => absurd hsynced hstatus⟩

/-- An item of the queue changes its status, to synced only when sent. -/
theorem Covers.replace (h : Covers s (passed ++ item :: rest))
    (hrequest : item'.request = item.request)
    (hsynced : item'.status = .synced → Sent s.sent item') :
    Covers s (passed ++ item' :: rest) := by
  intro i hi hstatus
  obtain ⟨q, hq, hreq, hsent⟩ := h i hi hstatus
  rcases List.mem_append.mp hq with hpassed | hq
  · exact ⟨q, List.mem_append_left _ hpassed, hreq, hsent⟩
  · rcases List.mem_cons.mp hq with rfl | hrest
    · exact ⟨item', by simp, hrequest.trans hreq, hsynced⟩
    · exact ⟨q, by simp [hrest], hreq, hsent⟩

theorem Covers.send (h : Covers s queue) (sent : List (String × EncryptedSyncEvent)) :
    Covers { s with sent := s.sent ++ sent } queue := by
  intro i hi hstatus
  obtain ⟨q, hq, hreq, hsent⟩ := h i hi hstatus
  exact ⟨q, hq, hreq, fun hsynced => ⟨(hsent hsynced).1, List.mem_append_left _ (hsent hsynced).2⟩⟩

theorem Kept.send (h : Kept s) (sent : List (String × EncryptedSyncEvent)) :
    Kept { s with sent := s.sent ++ sent } :=
  fun item hmem hsent => h item hmem fun hold => hsent ⟨hold.1, List.mem_append_left _ hold.2⟩

/-- A send does not lose an item, and one without an error has sent its
message. -/
theorem syncItem_cases (s : State δ) (item : SyncQueueItem δ) (failure : Option String) :
    (∃ error, syncItem s item failure = (s, some error))
      ∨ syncItem s item failure = ({ s with sent := s.sent ++ [item.message] }, none)
        ∧ s.wsOpen = true ∧ failure = none := by
  unfold syncItem
  split
  · exact .inl ⟨_, rfl⟩
  · rename_i hopen
    cases failure with
    | some error => exact .inl ⟨error, rfl⟩
    | none => exact .inr ⟨rfl, by simpa using hopen, rfl⟩

theorem nextItem_cons (item : SyncQueueItem δ) (rest : List (SyncQueueItem δ)) :
    nextItem (item :: rest)
      = if item.isPending = false ∨ MAX_RETRIES ≤ item.retryCount then nextItem rest
        else some item := by
  rw [nextItem, List.find?_cons]
  cases hpending : item.isPending with
  | false => simp [nextItem]
  | true =>
    by_cases hlast : MAX_RETRIES ≤ item.retryCount
    · simp [nextItem, hlast, Nat.not_lt.mpr hlast]
    · simp [hlast, Nat.not_le.mp hlast]

theorem Kept.save (h : Kept s) (hcovers : Covers s queue) (hlen : queue.length ≤ 200) :
    Kept (saveQueue s queue) := by
  rw [saveQueue]
  split
  · intro item hmem hsent
    obtain ⟨i, hi, hreq, hstatus⟩ := h item hmem hsent
    obtain ⟨q, hq, hreq', hsynced⟩ := hcovers i hi hstatus
    have hrequest := hreq'.trans hreq
    refine ⟨q, ?_, hrequest, fun hq => hsent ?_⟩
    · rw [lastItems_of_le hlen]
      exact hq
    · obtain ⟨hencrypted, hmessage⟩ := hsynced hq
      rw [Sent, ← SyncQueueItem.encrypted_of_request hrequest,
        ← SyncQueueItem.message_of_request hrequest]
      exact ⟨hencrypted, hmessage⟩
  · exact h

/-- **The loop of `processQueue`** loses nothing that its queue covers. -/
theorem processItems_inv (failure : Option String) (h : Kept s) (hstored : s.stored.length ≤ 200)
    (hcovers : Covers s (passed ++ rest)) (hlen : (passed ++ rest).length ≤ 200)
    (hdata : SendsData s.wsOpen failure rest) : Inv (processItems failure s passed rest) := by
  induction rest generalizing passed with
  | nil =>
    rw [List.append_nil] at hcovers hlen
    exact ⟨h.save hcovers hlen, length_stored_saveQueue hstored passed, fun p hp => by cases hp⟩
  | cons item rest ih =>
    rw [SendsData, nextItem_cons] at hdata
    rw [processItems]
    split
    · rename_i hskip
      rw [if_pos (.inl hskip)] at hdata
      refine ih ?_ ?_ hdata
      · rwa [List.append_assoc]
      · rwa [List.append_assoc]
    · rename_i hpending
      split
      · rename_i hlast
        rw [if_pos (.inr hlast)] at hdata
        refine ih ?_ ?_ hdata
        · rw [List.append_assoc]
          exact hcovers.replace rfl (fun hsynced => by cases hsynced)
        · simpa using hlen
      · rename_i hleft
        rw [if_neg (not_or_intro hpending hleft)] at hdata
        rcases syncItem_cases s item failure with ⟨error, heq⟩ | ⟨heq, hopen, hsuccess⟩
        · rw [heq]
          refine ⟨h, hstored, fun p hp => ?_⟩
          cases hp
          refine ⟨hcovers.replace rfl (fun hsynced => by cases hsynced), ?_⟩
          simpa [Processing.queue] using hlen
        · rw [heq]
          refine ⟨h.send _, hstored, fun p hp => ?_⟩
          cases hp
          refine ⟨(hcovers.send [item.message]).replace rfl fun _ => ⟨?_, ?_⟩, ?_⟩
          · exact hdata hopen hsuccess item rfl
          · exact List.mem_append_right _ (List.mem_singleton_self _)
          · simpa [Processing.queue] using hlen

/-! ## The operations -/

theorem Inv.processQueue (h : Inv s) {failure : Option String}
    (hdata : s.processing = none → s.wsConnected = true → SendsData s.wsOpen failure s.stored) :
    Inv (processQueue failure s) := by
  rw [SyncQueue.processQueue]
  split
  · exact h
  · rename_i hfree
    obtain ⟨hnone, hconnected⟩ := not_or.mp hfree
    exact processItems_inv failure h.kept h.length_le (covers_stored s) h.length_le
      (hdata (by simpa using hnone) (by simpa using hconnected))

theorem Inv.resume (h : Inv s) {failure : Option String} (hroom : Room s (.resume failure)) :
    Inv (resume failure s) := by
  rw [SyncQueue.resume]
  split
  · exact h
  · rename_i p hp
    obtain ⟨hcovers, hlen⟩ := h.covers p hp
    rw [Processing.queue, List.append_cons] at hcovers hlen
    exact processItems_inv failure h.kept h.length_le hcovers hlen (hroom p hp)

/-- An item is added behind the others, and nothing that waits is cut off. -/
theorem Kept.push (h : Kept s) (hpending : item.status ≠ .synced) (hwritable : s.writable)
    (hcut : ∀ i ∈ s.stored.take (s.stored.length + 1 - 200), i.status = .synced) :
    Kept (push item s) := by
  rw [SyncQueue.push, saveQueue, if_pos hwritable, lastItems_concat (by decide)]
  intro other hmem hsent
  rcases List.mem_append.mp hmem with hold | hnew
  · obtain ⟨i, hi, hreq, hstatus⟩ := h other hold hsent
    refine ⟨i, List.mem_append_left _ ?_, hreq, hstatus⟩
    rw [← List.take_append_drop (s.stored.length + 1 - 200) s.stored] at hi
    rcases List.mem_append.mp hi with hdropped | hstays
    · exact absurd (hcut i hdropped) hstatus
    · exact hstays
  · obtain rfl := List.mem_singleton.mp hnew
    exact ⟨other, List.mem_append_right _ (List.mem_singleton_self other), rfl, hpending⟩

theorem Inv.enqueue (h : Inv s) {failure : Option String} {id : String} {type : ItemType}
    {payload : Payload δ} {createdAt : String}
    (hroom : Room s (.enqueue id type payload createdAt failure)) :
    Inv (enqueue failure id type payload createdAt s) := by
  obtain ⟨hnone, hwritable, hcut, hdata⟩ := hroom
  have hpushed : Inv (push ⟨id, type, payload, createdAt, 0, .pending, none⟩ s) := by
    refine ⟨h.kept.push SyncStatus.noConfusion hwritable hcut, ?_, fun p hp => ?_⟩
    · rw [push, stored_saveQueue, if_pos hwritable]
      exact length_lastItems_le 200 _
    · rw [push, saveQueue, if_pos hwritable] at hp
      rw [hnone] at hp
      cases hp
  rw [SyncQueue.enqueue]
  split
  · rename_i hconnected
    refine hpushed.processQueue fun _ _ => ?_
    rw [push, saveQueue, if_pos hwritable] at hconnected hdata ⊢
    exact hdata hconnected
  · exact hpushed

theorem Inv.clearSynced (h : Inv s) : Inv (clearSynced s) := by
  have hlen : (s.stored.filter fun item => item.status ≠ .synced).length ≤ 200 :=
    Nat.le_trans (List.length_filter_le _ _) h.length_le
  have hmem : ∀ i ∈ s.stored, i.status ≠ .synced →
      i ∈ s.stored.filter fun item => item.status ≠ .synced := fun i hi hstatus =>
    List.mem_filter.mpr ⟨hi, decide_eq_true hstatus⟩
  refine ⟨h.kept.save (fun i hi hstatus => ?_) hlen, length_stored_saveQueue h.length_le _, ?_⟩
  · exact ⟨i, hmem i hi hstatus, rfl, fun hsynced => absurd hsynced hstatus⟩
  · intro p hp
    rw [SyncQueue.clearSynced, saveQueue] at hp ⊢
    split at hp
    · rename_i hwritable
      obtain ⟨hcovers, hqueue⟩ := h.covers p hp
      refine ⟨fun i hi hstatus => ?_, hqueue⟩
      rw [if_pos hwritable, lastItems_of_le hlen] at hi
      rw [if_pos hwritable]
      exact hcovers i (List.mem_of_mem_filter hi) hstatus
    · rename_i hwritable
      rw [if_neg hwritable]
      exact h.covers p hp

/-- **One step** of the service. -/
theorem Inv.step (h : Inv s) {a : Action δ} (hroom : Room s a) : Inv (step s a) := by
  cases a with
  | enqueue id type payload createdAt failure => exact h.enqueue hroom
  | processQueue failure => exact h.processQueue hroom
  | resume failure => exact h.resume hroom
  | clearSynced => exact h.clearSynced
  | opened failure =>
    have hopen : Inv { s with wsConnected := true, wsOpen := true } :=
      ⟨h.kept, h.length_le, h.covers⟩
    exact hopen.processQueue fun hnone _ => hroom hnone
  | closed => exact ⟨h.kept, h.length_le, h.covers⟩
  | readyState isOpen => exact ⟨h.kept, h.length_le, h.covers⟩
  | storage writable => exact ⟨h.kept, h.length_le, h.covers⟩
  | reload => exact ⟨h.kept, h.length_le, fun p hp => by cases hp⟩

theorem inv_initial : Inv (State.initial : State δ) :=
  ⟨fun _ hmem => absurd hmem List.not_mem_nil, Nat.zero_le _, fun _ hp => by cases hp⟩

/-! ## What is lost -/

/-- No call knows of the identifier, and none has sent its item. -/
structure Forgotten (id : String) (s : State δ) : Prop where
  writable : s.writable
  unsent : id ∉ s.sent.map Prod.fst
  queue : ∀ p, s.processing = some p → id ∉ p.queue.map (·.id)
  stored : s.processing = none → id ∉ s.stored.map (·.id)

/-- The storage stays as it is, and the identifier is not used again. -/
def Ordinary (id : String) : Action δ → Prop
  | .enqueue id' _ _ _ _ => id' ≠ id
  | .storage _ => False
  | .reload => False
  | _ => True

variable {id : String}

theorem notMem_stored_saveQueue (hwritable : s.writable) (h : id ∉ queue.map (·.id)) :
    id ∉ (saveQueue s queue).stored.map (·.id) := by
  rw [stored_saveQueue, if_pos hwritable]
  intro hmem
  obtain ⟨i, hi, hid⟩ := List.mem_map.mp hmem
  exact h (List.mem_map.mpr ⟨i, List.mem_of_mem_drop hi, hid⟩)

theorem id_settle (item : SyncQueueItem δ) (error : Option String) :
    (item.settle error).id = item.id := by
  cases error <;> rfl

theorem processItems_forgotten (failure : Option String) (hwritable : s.writable)
    (hunsent : id ∉ s.sent.map Prod.fst) (h : id ∉ (passed ++ rest).map (·.id)) :
    Forgotten id (processItems failure s passed rest) := by
  induction rest generalizing passed with
  | nil =>
    rw [List.append_nil] at h
    refine ⟨?_, ?_, fun p hp => (by cases hp), fun _ => notMem_stored_saveQueue hwritable h⟩
    · simp [processItems, saveQueue, hwritable]
    · simpa [processItems, saveQueue, hwritable] using hunsent
  | cons item rest ih =>
    rw [processItems]
    split
    · exact ih (by rwa [List.append_assoc])
    · split
      · exact ih (by simpa [SyncQueueItem.giveUp] using h)
      · have hqueue : ∀ error, id ∉ (passed ++ item.settle error :: rest).map (·.id) := by
          intro error
          simpa [id_settle] using h
        rcases syncItem_cases s item failure with ⟨error, heq⟩ | ⟨heq, -⟩
        · rw [heq]
          refine ⟨hwritable, hunsent, fun p hp => ?_, fun hp => by cases hp⟩
          cases hp
          exact hqueue (some error)
        · rw [heq]
          refine ⟨hwritable, ?_, fun p hp => ?_, fun hp => by cases hp⟩
          · have hne : id ≠ item.id := fun heq => h (by simp [heq])
            simpa [SyncQueueItem.message, hne] using hunsent
          · cases hp
            exact hqueue none

theorem Forgotten.processQueue (h : Forgotten id s) (failure : Option String) :
    Forgotten id (processQueue failure s) := by
  rw [SyncQueue.processQueue]
  split
  · exact h
  · rename_i hfree
    have hnone : s.processing = none := by simpa using not_or.mp hfree |>.1
    exact processItems_forgotten failure h.writable h.unsent (h.stored hnone)

theorem Forgotten.resume (h : Forgotten id s) (failure : Option String) :
    Forgotten id (resume failure s) := by
  rw [SyncQueue.resume]
  split
  · exact h
  · rename_i p hp
    have hqueue := h.queue p hp
    rw [Processing.queue, List.append_cons] at hqueue
    exact processItems_forgotten failure h.writable h.unsent hqueue

theorem Forgotten.save (h : Forgotten id s) (hqueue : s.processing = none → id ∉ queue.map (·.id)) :
    Forgotten id (saveQueue s queue) := by
  have hsave : saveQueue s queue = { s with stored := lastItems 200 queue } := if_pos h.writable
  refine ⟨?_, ?_, ?_, fun hnone => ?_⟩
  · exact hsave ▸ h.writable
  · exact hsave ▸ h.unsent
  · exact hsave ▸ h.queue
  · rw [hsave] at hnone
    exact notMem_stored_saveQueue h.writable (hqueue hnone)

theorem Forgotten.push (h : Forgotten id s) (hne : item.id ≠ id) : Forgotten id (push item s) := by
  have hnew : Forgotten id { s with enqueued := s.enqueued ++ [item] } :=
    ⟨h.writable, h.unsent, h.queue, h.stored⟩
  refine hnew.save fun hnone => ?_
  simpa [Ne.symm hne] using h.stored hnone

theorem Forgotten.step (h : Forgotten id s) {a : Action δ} (ha : Ordinary id a) :
    Forgotten id (step s a) := by
  cases a with
  | enqueue id' type payload createdAt failure =>
    have hpushed : Forgotten id
        (SyncQueue.push ⟨id', type, payload, createdAt, 0, .pending, none⟩ s) :=
      h.push ha
    show Forgotten id (enqueue failure id' type payload createdAt s)
    rw [enqueue]
    split
    · exact hpushed.processQueue failure
    · exact hpushed
  | processQueue failure => exact h.processQueue failure
  | resume failure => exact h.resume failure
  | clearSynced =>
    refine h.save fun hnone hmem => h.stored hnone ?_
    obtain ⟨i, hi, hid⟩ := List.mem_map.mp hmem
    exact List.mem_map.mpr ⟨i, List.mem_of_mem_filter hi, hid⟩
  | opened failure =>
    have hopen : Forgotten id { s with wsConnected := true, wsOpen := true } :=
      ⟨h.writable, h.unsent, h.queue, h.stored⟩
    exact hopen.processQueue failure
  | closed => exact ⟨h.writable, h.unsent, h.queue, h.stored⟩
  | readyState isOpen => exact ⟨h.writable, h.unsent, h.queue, h.stored⟩
  | storage writable => exact ha.elim
  | reload => exact ha.elim

/-- **An item enqueued at an await is lost**: it is never sent, and once the
call is over it is not in the stored queue. -/
theorem lost_of_enqueue {p : Processing δ} (hp : s.processing = some p) (hwritable : s.writable)
    (hunsent : item.id ∉ s.sent.map Prod.fst) (hqueue : item.id ∉ p.queue.map (·.id))
    (actions : List (Action δ)) (h : ∀ a ∈ actions, Ordinary item.id a) :
    Forgotten item.id (actions.foldl step (push item s)) := by
  have hpushed : Forgotten item.id (push item s) := by
    rw [push, saveQueue, if_pos hwritable]
    refine ⟨hwritable, hunsent, fun q hq => ?_, fun hnone => ?_⟩
    · obtain rfl := Option.some.inj (hp.symm.trans hq)
      exact hqueue
    · rw [hp] at hnone
      cases hnone
  exact Run.foldl_preserves (fun _ _ ha hs => hs.step ha) actions _ h hpushed

theorem lost_of_enqueue_sample :
    Forgotten "sync-2" ([.resume none, .processQueue none].foldl step
      (push ⟨"sync-2", .message, .plain (), "09:00", 0, .pending, none⟩
        (([.opened none, .enqueue "sync-1" .message (.plain ()) "09:00" none]
          : List (Action Unit)).foldl step .initial))) :=
  @lost_of_enqueue Unit _ ⟨"sync-2", .message, .plain (), "09:00", 0, .pending, none⟩ _ rfl rfl
    (by decide) (by decide) [.resume none, .processQueue none] fun a ha => by
    rcases List.mem_cons.mp ha with rfl | ha
    · trivial
    · obtain rfl := List.mem_singleton.mp ha
      trivial

/-! ## Runs -/

/-- **Nothing is lost** along a run in which no item is enqueued while a call
of `processQueue` is at an await, each finds storage that takes it and cuts off
no item that is still to be sent, and no message goes without its data. -/
theorem kept_run (actions : List (Action δ)) (h : Run.Each step Room .initial actions) :
    Kept (actions.foldl step .initial) :=
  (h.preserves (fun _ _ hroom hinv => hinv.step hroom) inv_initial).kept

def samplePayload : Payload Unit := .encrypted ⟨"FILE_ADDED", "AA==", "AA=="⟩

/-- An item is enqueued, sent with an error and sent again; then, without a
connection, another whose data is not encrypted. -/
def sendAgain : List (Action Unit) :=
  [.opened none, .enqueue "sync-1" .message samplePayload "09:00" (some "send failed"),
    .resume none, .processQueue none, .resume none, .closed,
    .enqueue "sync-2" .share (.plain ()) "09:01" none]

theorem kept_sendAgain : Kept (sendAgain.foldl step .initial) := by
  have hdata : ∀ (isOpen : Bool) (failure : Option String)
      (queue : List (SyncQueueItem Unit)), (∀ i ∈ nextItem queue, i.encrypted = true) →
      SendsData isOpen failure queue := fun _ _ _ h _ _ => h
  refine kept_run sendAgain ⟨fun _ => hdata _ _ _ (by decide), ⟨rfl, rfl, ?_, fun _ => ?_⟩,
    fun p hp => hdata _ _ _ ?_, fun _ _ => hdata _ _ _ ?_, fun p hp => hdata _ _ _ ?_, trivial,
    ⟨rfl, rfl, ?_, fun h => ?_⟩, trivial⟩
  · exact fun _ hi => absurd hi List.not_mem_nil
  · exact hdata _ _ _ (by decide)
  · cases hp
    decide
  · decide
  · cases hp
    decide
  · exact fun _ hi => absurd hi List.not_mem_nil
  · cases h

/-- Two items are enqueued one after the other, on an open connection. -/
def twoEnqueued : List (Action Unit) :=
  [.opened none, .enqueue "sync-1" .message samplePayload "09:00" none,
    .enqueue "sync-2" .message samplePayload "09:00" none, .resume none]

/-- The second item is in no queue, and has not been sent. -/
theorem not_kept_twoEnqueued :
    ¬∀ actions : List (Action Unit), Kept (actions.foldl step .initial) := by
  intro h
  have hitem : ⟨"sync-2", .message, samplePayload, "09:00", 0, .pending, none⟩
      ∈ (twoEnqueued.foldl step .initial).enqueued := by decide
  have hstored : (twoEnqueued.foldl step .initial).stored.map (·.id) = ["sync-1"] := by decide
  obtain ⟨i, hi, hrequest, -⟩ := h twoEnqueued _ hitem (by rintro ⟨-, hsent⟩; revert hsent; decide)
  have hid : i.id ∈ ["sync-1"] := hstored ▸ List.mem_map_of_mem hi
  have heq : i.id = "sync-2" := congrArg Prod.fst hrequest
  rw [heq] at hid
  exact absurd hid (by decide)

end UsbVault.App.SyncQueue
