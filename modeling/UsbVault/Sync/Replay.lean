import UsbVault.Lib.Run
import UsbVault.Lib.SortedSet
import UsbVault.Lib.TypedArray
import UsbVault.Sync.Registers
import Mathlib.Logic.Function.Basic

/-!
# Sync replay

One user's sync events: the server instances with their sequence counters
in memory, the replay set they share in Redis, and one client that
receives events live and, on every connection, a replay from the highest
sequence it has seen.

A number that is not above all published ones, a replay answered between
an event's PUBLISH and its ZADD, or before the subscription, a connection
lost with a live event ahead of its replay, a live event behind a replay that
failed, and a message that the subscription drops each let the client pass an
event over. Without these (`Orderly`) none is skipped
(`replay_skips_nothing`).
-/

namespace UsbVault.Sync

open Wire

/-! ## Events -/

/-- `SyncEvent`, of the user in question. -/
structure SyncEvent where
  id : Bytes
  eventType : Bytes
  encryptedData : Bytes
  timestamp : Nat
  sequence : UInt64
  nonce : Bytes
  deriving DecidableEq, Repr

/-- Why an event is refused: "encrypted data is required", "invalid
encrypted data encoding: ...", "nonce is required". -/
inductive PublishError where
  | encryptedDataRequired
  | invalidEncoding
  | nonceRequired
  deriving DecidableEq, Repr

/-- `validateBase64`: letters, digits, `+`, `/` and `=`. -/
def validateBase64 (data : Bytes) : Bool :=
  data.all fun ch => (0x41 ≤ ch && ch ≤ 0x5a) || (0x61 ≤ ch && ch ≤ 0x7a)
    || (0x30 ≤ ch && ch ≤ 0x39) || ch == 0x2b || ch == 0x2f || ch == 0x3d

/-- The checks at the head of `PublishSyncEvent`. -/
def validateEvent (event : SyncEvent) : Except PublishError Unit :=
  if event.encryptedData = [] then .error .encryptedDataRequired
  else if validateBase64 event.encryptedData = false then .error .invalidEncoding
  else if event.nonce = [] then .error .nonceRequired
  else .ok ()

/-- The score of a member, a double. -/
def SyncEvent.score (event : SyncEvent) : Nat := Js.number event.sequence.toNat

/-- Members of one score are ordered by their JSON text, which begins with
the id. -/
def rank (event : SyncEvent) : Lex (Nat × Bytes) := toLex (event.score, event.id)

/-! ## The relay -/

/-- Where a `PublishSyncEvent` call is: before PUBLISH, ZADD,
ZREMRANGEBYRANK or EXPIRE. -/
inductive PublishPc where
  | publishing
  | appending
  | trimming
  | expiring
  | ended
  deriving DecidableEq, Repr

/-- A `PublishSyncEvent` call of a server instance. -/
structure Publish where
  server : Nat
  event : SyncEvent
  pc : PublishPc
  deriving DecidableEq, Repr

/-- What has become of a connection's replay request. -/
inductive ReplayPc where
  | requested (lastSequence : Nat)
  /-- these events are still to be written -/
  | sending (events : List SyncEvent)
  | complete
  | failed
  deriving DecidableEq, Repr

/-- A connection of the client. `live` holds what Redis delivered and the
connection loop has not written yet, nor the channel behind the subscription
dropped. `overtaken` is history: a live event was written before the replay
was complete. -/
structure Connection where
  server : Nat
  subscribed : Bool
  live : List SyncEvent
  replay : ReplayPc
  overtaken : Bool
  deriving DecidableEq, Repr

/-- The replay is to bring the event; or it has failed, and the next one asks
for it. -/
def ReplayPc.Brings : ReplayPc → Nat → SyncEvent → Prop
  | .requested asked, _, event => asked < event.score
  | .sending events, _, event => event ∈ events
  | .complete, _, _ => False
  | .failed, lastSequence, event => lastSequence < event.score

instance : (replay : ReplayPc) → (lastSequence : Nat) → (event : SyncEvent) →
    Decidable (replay.Brings lastSequence event)
  | .requested asked, _, event => inferInstanceAs (Decidable (asked < event.score))
  | .sending events, _, event => inferInstanceAs (Decidable (event ∈ events))
  | .complete, _, _ => inferInstanceAs (Decidable False)
  | .failed, lastSequence, event => inferInstanceAs (Decidable (lastSequence < event.score))

/-- The instances' counters and calls, the replay set with its expiry, the
client's connection, highest sequence and events, and the history of what
was published, each event with its second. -/
structure Relay where
  now : Nat
  seq : Nat → UInt64
  calls : List Publish
  log : SortedSet SyncEvent rank
  expiresAt : Option Nat
  connection : Option Connection
  lastSequence : Nat
  received : List SyncEvent
  published : List (SyncEvent × Nat)

def Relay.start : Relay := ⟨0, fun _ => 0, [], .empty, none, none, 0, [], []⟩

/-- The members kept: `ZRemRangeByRank(ctx, replayKey, 0, -1001)`. -/
def replayLimit : Nat := 1000

/-- `24*time.Hour`, in seconds. -/
def replayTTL : Nat := 24 * 60 * 60

/-- What happens next: time passes; an instance numbers an event of another
user, or of this one; a call's command is executed, or fails; an instance
restarts; the client connects and asks for its replay; the subscription
takes effect, or loses its link to Redis; its channel, full for too long, drops
a message; the replay query is answered, or fails; a replayed event, or the end
of the replay, is written; a live event is written; the connection is lost. -/
inductive RelayAction where
  | tick (seconds : Nat)
  | numberOther (server : Nat)
  | broadcast (server : Nat) (id eventType encryptedData nonce : Bytes)
  | publish (call : Nat) (ok : Bool)
  | append (call : Nat) (ok : Bool)
  | trim (call : Nat) (ok : Bool)
  | expire (call : Nat) (ok : Bool)
  | restart (server : Nat)
  | connect (server : Nat)
  | subscribe
  | unsubscribe
  | drop (position : Nat)
  | replay (ok : Bool)
  | sendReplayed
  | forward
  | disconnect
  deriving DecidableEq, Repr

namespace Relay

def move (s : Relay) (k : Nat) (call : Publish) (pc : PublishPc) : Relay :=
  { s with calls := s.calls.set k { call with pc := pc } }

/-- `PUBLISH` delivers to a subscribed connection. -/
def deliver (s : Relay) (event : SyncEvent) : Relay :=
  { s with
    published := s.published ++ [(event, s.now)]
    connection := s.connection.map fun c =>
      if c.subscribed then { c with live := c.live ++ [event] } else c }

/-- The client's part in a `sync` message:
`_lastSequence = Math.max(_lastSequence, event.sequence)`. -/
def receive (s : Relay) (event : SyncEvent) : Relay :=
  { s with
    received := event :: s.received
    lastSequence := max s.lastSequence event.score }

def connected (s : Relay) (c : Connection) : Relay := { s with connection := some c }

/-- `ReplayEventsFromSequence` -/
def replayEvents (s : Relay) (lastSequence : Nat) : List SyncEvent :=
  s.log.members.filter fun event => Js.number lastSequence < event.score

/-- A key that has expired is gone. -/
def tick (s : Relay) (seconds : Nat) : Relay :=
  if ∃ t ∈ s.expiresAt, t ≤ s.now + seconds then
    { s with now := s.now + seconds, log := .empty, expiresAt := none }
  else { s with now := s.now + seconds }

/-- An action of a call or a connection that is not there, or elsewhere,
does nothing. -/
def step (s : Relay) : RelayAction → Relay
  | .tick seconds => s.tick seconds
  | .numberOther server => { s with seq := Function.update s.seq server (s.seq server + 1) }
  | .broadcast server id eventType encryptedData nonce =>
    let event := ⟨id, eventType, encryptedData, s.now, s.seq server + 1, nonce⟩
    { s with
      seq := Function.update s.seq server (s.seq server + 1)
      calls := match validateEvent event with
        | .error _ => s.calls
        | .ok () => s.calls ++ [⟨server, event, .publishing⟩] }
  | .publish k ok =>
    match s.calls[k]? with
    | some call =>
      if call.pc = .publishing then
        if ok then (s.move k call .appending).deliver call.event else s.move k call .ended
      else s
    | none => s
  | .append k ok =>
    match s.calls[k]? with
    | some call =>
      if call.pc = .appending then
        { s.move k call .trimming with log := if ok then s.log.add call.event else s.log }
      else s
    | none => s
  | .trim k ok =>
    match s.calls[k]? with
    | some call =>
      if call.pc = .trimming then
        { s.move k call .expiring with
          log := if ok then s.log.keepTop replayLimit else s.log }
      else s
    | none => s
  | .expire k ok =>
    match s.calls[k]? with
    | some call =>
      if call.pc = .expiring then
        { s.move k call .ended with
          expiresAt := if ok && !s.log.members.isEmpty then some (s.now + replayTTL)
            else s.expiresAt }
      else s
    | none => s
  | .restart server =>
    { s with
      seq := Function.update s.seq server 0
      calls := s.calls.map fun call =>
        if call.server = server then { call with pc := .ended } else call
      connection := s.connection.filter fun c => c.server ≠ server }
  | .connect server =>
    match s.connection with
    | some _ => s
    | none => s.connected ⟨server, false, [], .requested s.lastSequence, false⟩
  | .subscribe => { s with connection := s.connection.map fun c => { c with subscribed := true } }
  | .unsubscribe =>
    { s with connection := s.connection.map fun c => { c with subscribed := false } }
  | .drop position =>
    { s with connection := s.connection.map fun c =>
        { c with live := c.live.eraseIdx position } }
  | .replay ok =>
    match s.connection with
    | some c =>
      match c.replay with
      | .requested lastSequence =>
        -- a number past `uint64` is refused
        if ok && decide (lastSequence < 2 ^ 64) then
          s.connected { c with replay := .sending (s.replayEvents lastSequence) }
        else s.connected { c with replay := .failed }
      | _ => s
    | none => s
  | .sendReplayed =>
    match s.connection with
    | some c =>
      match c.replay with
      | .sending (event :: events) =>
        (s.receive event).connected { c with replay := .sending events }
      | .sending [] => s.connected { c with replay := .complete }
      | _ => s
    | none => s
  | .forward =>
    match s.connection with
    | some c =>
      match c.replay, c.live with
      -- the loop writes a whole replay before it takes the next message
      | .sending _, _ => s
      | _, [] => s
      | .complete, event :: live => (s.receive event).connected { c with live := live }
      | _, event :: live =>
        (s.receive event).connected { c with live := live, overtaken := true }
    | none => s
  | .disconnect => { s with connection := none }

def run (s : Relay) (actions : List RelayAction) : Relay := actions.foldl step s

/-! ## What a client is owed -/

/-- The published events within the retained window: the last 1000, for 24
hours. -/
def window (s : Relay) : List (SyncEvent × Nat) :=
  (s.published.drop (s.published.length - replayLimit)).filter fun p => s.now < p.2 + replayTTL

/-- The event is about to reach the client: it is among the live ones about
to be written, or the connection's replay brings it; or there is no connection,
and the next replay asks for it. -/
def OnItsWay (s : Relay) (event : SyncEvent) : Prop :=
  match s.connection with
  | some c => event ∈ c.live ∨ c.replay.Brings s.lastSequence event
  | none => s.lastSequence < event.score

/-- **No event is skipped**: an event of the window was received, or is on
its way. -/
def NoneSkipped (s : Relay) : Prop := ∀ p ∈ s.window, p.1 ∈ s.received ∨ s.OnItsWay p.1

instance (s : Relay) (event : SyncEvent) : Decidable (s.OnItsWay event) :=
  match h : s.connection with
  | some c => decidable_of_iff (event ∈ c.live ∨ c.replay.Brings s.lastSequence event)
      (by rw [OnItsWay, h])
  | none => decidable_of_iff (s.lastSequence < event.score) (by rw [OnItsWay, h])

instance (s : Relay) : Decidable s.NoneSkipped :=
  inferInstanceAs (Decidable (∀ p ∈ s.window, p.1 ∈ s.received ∨ s.OnItsWay p.1))

/-! ## Orderly runs -/

/-- The number of an event about to be published is above those of all
published before, and is a double as it stands. -/
def NumberedAbove (s : Relay) (event : SyncEvent) : Prop :=
  0 < event.sequence.toNat ∧ event.sequence.toNat ≤ 2 ^ 53
    ∧ ∀ p ∈ s.published, p.1.sequence < event.sequence

end Relay

/-- The replay query was answered. -/
def ReplayPc.answered : ReplayPc → Bool
  | .sending _ | .complete => true
  | .requested _ | .failed => false

/-- The replay query is still to be answered. -/
def ReplayPc.waiting : ReplayPc → Bool
  | .requested _ => true
  | .sending _ | .complete | .failed => false

/-- The event is published and the call not over. -/
def PublishPc.unsettled : PublishPc → Bool
  | .appending | .trimming | .expiring => true
  | .publishing | .ended => false

/-- The event is in the replay set, and its EXPIRE outstanding. -/
def PublishPc.logged : PublishPc → Bool
  | .trimming | .expiring => true
  | .publishing | .appending | .ended => false

theorem PublishPc.unsettled_of_logged {pc : PublishPc} (h : pc.logged = true) :
    pc.unsettled = true := by
  cases pc with
  | trimming => rfl
  | expiring => rfl
  | publishing => cases h
  | appending => cases h
  | ended => cases h

/-- No live event is ahead of an unfinished replay. -/
def Connection.MayDrop (c : Connection) : Prop :=
  c.replay = .complete ∨ c.replay = .failed ∨ c.overtaken = false

instance (c : Connection) : Decidable c.MayDrop :=
  inferInstanceAs (Decidable (_ ∨ _ ∨ _))

namespace Relay

instance (s : Relay) (event : SyncEvent) : Decidable (s.NumberedAbove event) :=
  inferInstanceAs (Decidable (_ ∧ _ ∧ _))

/-- A replay from this number asks for every event of the window that the
client has neither received nor among the live ones. -/
def Asked (s : Relay) (c : Connection) (lastSequence : Nat) : Prop :=
  ∀ p ∈ s.window, p.1 ∈ s.received ∨ p.1 ∈ c.live ∨ lastSequence < p.1.score

instance (s : Relay) (c : Connection) (lastSequence : Nat) : Decidable (s.Asked c lastSequence) :=
  inferInstanceAs (Decidable (∀ p ∈ s.window, _ ∨ _ ∨ _))

/-- Events are published in the order of their numbers, on no connection
between its replay and its subscription; a call whose event the client has
not received is not cut off after its PUBLISH, and the key does not expire
before its EXPIRE; a replay query is answered when such a call is not
before its ZADD; no message is dropped that no replay under way brings; a
replay query fails, and a live event is written behind a failed one, when the
next replay still asks for what the client lacks; and a connection goes down
when no live event is ahead of an unfinished replay. -/
def Orderly (s : Relay) : RelayAction → Prop
  | .tick seconds => (∃ t ∈ s.expiresAt, t ≤ s.now + seconds) →
      ∀ call ∈ s.calls, call.pc.logged = true → call.event ∈ s.received
  | .publish k true => ∀ call ∈ s.calls[k]?, call.pc = .publishing →
      s.NumberedAbove call.event
        ∧ ∀ c ∈ s.connection, c.replay.answered = true → c.subscribed = true
  | .append k false => ∀ call ∈ s.calls[k]?, call.pc = .appending → call.event ∈ s.received
  | .expire k false => ∀ call ∈ s.calls[k]?, call.pc = .expiring → call.event ∈ s.received
  | .restart server =>
    (∀ call ∈ s.calls, call.server = server → call.pc.unsettled = true →
      call.event ∈ s.received)
      ∧ ∀ c ∈ s.connection, c.server = server → c.MayDrop
  | .drop position => ∀ c ∈ s.connection, c.replay.answered = true →
      ∀ event ∈ c.live[position]?, event ∈ s.received ∨ c.replay.Brings s.lastSequence event
  | .replay true => ∀ c ∈ s.connection, c.replay.waiting = true →
      ∀ call ∈ s.calls, call.pc = .appending → call.event ∈ s.received
  | .replay false => ∀ c ∈ s.connection, c.replay.waiting = true → s.Asked c s.lastSequence
  | .forward => ∀ c ∈ s.connection, c.replay = .failed →
      ∀ event ∈ c.live.head?, s.Asked c event.score
  | .disconnect => ∀ c ∈ s.connection, c.MayDrop
  | _ => True

instance (s : Relay) : (a : RelayAction) → Decidable (s.Orderly a)
  | .tick seconds => inferInstanceAs (Decidable ((∃ t ∈ s.expiresAt, t ≤ s.now + seconds) →
      ∀ call ∈ s.calls, call.pc.logged = true → call.event ∈ s.received))
  | .publish k true => inferInstanceAs (Decidable (∀ call ∈ s.calls[k]?, call.pc = .publishing →
      s.NumberedAbove call.event
        ∧ ∀ c ∈ s.connection, c.replay.answered = true → c.subscribed = true))
  | .append k false => inferInstanceAs (Decidable (∀ call ∈ s.calls[k]?,
      call.pc = .appending → call.event ∈ s.received))
  | .expire k false => inferInstanceAs (Decidable (∀ call ∈ s.calls[k]?,
      call.pc = .expiring → call.event ∈ s.received))
  | .restart server => inferInstanceAs (Decidable ((∀ call ∈ s.calls, call.server = server →
      call.pc.unsettled = true → call.event ∈ s.received)
        ∧ ∀ c ∈ s.connection, c.server = server → c.MayDrop))
  | .drop position => inferInstanceAs (Decidable (∀ c ∈ s.connection, c.replay.answered = true →
      ∀ event ∈ c.live[position]?, event ∈ s.received ∨ c.replay.Brings s.lastSequence event))
  | .replay true => inferInstanceAs (Decidable (∀ c ∈ s.connection, c.replay.waiting = true →
      ∀ call ∈ s.calls, call.pc = .appending → call.event ∈ s.received))
  | .replay false => inferInstanceAs (Decidable (∀ c ∈ s.connection, c.replay.waiting = true →
      s.Asked c s.lastSequence))
  | .forward => inferInstanceAs (Decidable (∀ c ∈ s.connection, c.replay = .failed →
      ∀ event ∈ c.live.head?, s.Asked c event.score))
  | .disconnect => inferInstanceAs (Decidable (∀ c ∈ s.connection, c.MayDrop))
  | .publish _ false | .append _ true | .expire _ true | .numberOther _ | .broadcast _ _ _ _ _
  | .trim _ _ | .connect _ | .subscribe | .unsubscribe | .sendReplayed => isTrue trivial

/-! ## What holds in an orderly run -/

/-- Published within the window, and not received. -/
def Owed (s : Relay) (p : SyncEvent × Nat) : Prop := p ∈ s.window ∧ p.1 ∉ s.received

/-- Scores grow in the order of publication. -/
structure Numbers (s : Relay) : Prop where
  above : s.published.Pairwise fun p q => p.1.score < q.1.score
  exact : ∀ p ∈ s.published, 0 < p.1.score ∧ p.1.score ≤ 2 ^ 53
  past : ∀ p ∈ s.published, p.2 ≤ s.now

/-- The replay set holds the owed events, or is about to, and lives long
enough. -/
structure Kept (s : Relay) : Prop where
  logged : ∀ event ∈ s.log.members, ∃ p ∈ s.published, p.1 = event
  called : ∀ call ∈ s.calls, call.pc.unsettled = true → ∃ p ∈ s.published, p.1 = call.event
  kept : ∀ p, s.Owed p → p.1 ∈ s.log.members
    ∨ ∃ call ∈ s.calls, call.event = p.1 ∧ call.pc = .appending
  lives : ∀ p, s.Owed p → p.1 ∈ s.log.members →
    (∃ call ∈ s.calls, call.event = p.1 ∧ call.pc.logged = true)
      ∨ ∀ t ∈ s.expiresAt, p.2 + replayTTL ≤ t

/-- The queues of a connection cover what is owed. -/
def Queued (owed : SyncEvent × Nat → Prop) (published : List (SyncEvent × Nat))
    (lastSequence : Nat) (c : Connection) : Prop :=
  match c.replay with
  | .requested asked => asked ≤ lastSequence ∧ ∀ p, owed p → asked < p.1.score
  | .sending events => (∀ event ∈ events, ∃ p ∈ published, p.1 = event)
      ∧ events.Pairwise (fun e f => e.score < f.score)
      ∧ ∀ p, owed p → p.1 ∈ events ∨ p.1 ∈ c.live ∧ lastSequence < p.1.score
          ∧ ∀ event ∈ events, event.score < p.1.score
  | .complete => ∀ p, owed p → p.1 ∈ c.live
  | .failed => ∀ p, owed p → lastSequence < p.1.score

/-- Live events were published one after the other, and those that are owed
are above the client's highest sequence. -/
structure Ahead (owed : SyncEvent × Nat → Prop) (published : List (SyncEvent × Nat))
    (lastSequence : Nat) (live : List SyncEvent) : Prop where
  known : ∀ event ∈ live, ∃ p ∈ published, p.1 = event
  sorted : live.Pairwise fun e f => e.score < f.score
  above : ∀ p, owed p → p.1 ∈ live → lastSequence < p.1.score

/-- The client's highest sequence is below what it is owed, unless a live
event is ahead of an unfinished replay. -/
structure Follows (owed : SyncEvent × Nat → Prop) (published : List (SyncEvent × Nat))
    (lastSequence : Nat) (c : Connection) : Prop where
  live : Ahead owed published lastSequence c.live
  drop : c.MayDrop → ∀ p, owed p → lastSequence < p.1.score
  queued : Queued owed published lastSequence c

/-- What holds in every state of an orderly run. -/
structure Sound (s : Relay) : Prop extends Numbers s, Kept s where
  cursor : ∀ n, 0 < n → (∀ p ∈ s.published, p.1.score < n) → s.lastSequence < n
  offline : s.connection = none → ∀ p, s.Owed p → s.lastSequence < p.1.score
  online : ∀ c, s.connection = some c → Follows s.Owed s.published s.lastSequence c

theorem Sound.noneSkipped {s : Relay} (h : s.Sound) : s.NoneSkipped := by
  intro p hp
  by_cases hreceived : p.1 ∈ s.received
  · exact .inl hreceived
  right
  rw [OnItsWay]
  split
  · rename_i c hc
    have hqueued := (h.online c hc).queued
    rw [Queued] at hqueued
    split at hqueued
    · rename_i asked hreplay
      exact .inr (by rw [hreplay]; exact hqueued.2 p ⟨hp, hreceived⟩)
    · rename_i events hreplay
      rw [hreplay]
      exact (hqueued.2.2 p ⟨hp, hreceived⟩).symm.imp_left And.left
    · exact .inl (hqueued p ⟨hp, hreceived⟩)
    · rename_i hreplay
      exact .inr (by rw [hreplay]; exact hqueued p ⟨hp, hreceived⟩)
  · rename_i hnone
    exact h.offline hnone p ⟨hp, hreceived⟩

theorem Sound.start : Relay.start.Sound where
  above := List.Pairwise.nil
  exact := fun _ hp => by cases hp
  past := fun _ hp => by cases hp
  logged := fun _ he => by cases he
  called := fun _ hc => by cases hc
  kept := fun _ hp => by cases hp.1
  lives := fun _ hp => by cases hp.1
  cursor := fun _ hn _ => hn
  offline := fun _ _ hp => by cases hp.1
  online := fun _ hc => by cases hc

/-! ## The client -/

variable {s : Relay} {c c' : Connection} {event : SyncEvent} {k : Nat} {call : Publish}
variable {owed owed' : SyncEvent × Nat → Prop} {published : List (SyncEvent × Nat)}
variable {lastSequence : Nat}

theorem Follows.mono (h : Follows owed published lastSequence c)
    (hle : ∀ p, owed' p → owed p) : Follows owed' published lastSequence c where
  live := ⟨h.live.known, h.live.sorted, fun p hp => h.live.above p (hle p hp)⟩
  drop := fun hdrop p hp => h.drop hdrop p (hle p hp)
  queued := by
    have hqueued := h.queued
    rw [Queued] at hqueued ⊢
    split at hqueued
    · exact ⟨hqueued.1, fun p hp => hqueued.2 p (hle p hp)⟩
    · exact ⟨hqueued.1, hqueued.2.1, fun p hp => hqueued.2.2 p (hle p hp)⟩
    · exact fun p hp => hqueued p (hle p hp)
    · exact fun p hp => hqueued p (hle p hp)

theorem Sound.follow (h : s.Sound) {received : List SyncEvent} {connection : Option Connection}
    (hreceived : ∀ e ∈ s.received, e ∈ received)
    (hcursor : ∀ n, 0 < n → (∀ p ∈ s.published, p.1.score < n) → lastSequence < n)
    (hoffline : connection = none → ∀ p, s.Owed p → lastSequence < p.1.score)
    (honline : ∀ c, connection = some c →
      Follows (fun p => p ∈ s.window ∧ p.1 ∉ received) s.published lastSequence c) :
    Sound { s with
      received := received
      lastSequence := lastSequence
      connection := connection } := by
  have howed : ∀ p, p ∈ s.window ∧ p.1 ∉ received → s.Owed p :=
    fun p hp => ⟨hp.1, fun hmem => hp.2 (hreceived _ hmem)⟩
  exact ⟨⟨h.above, h.exact, h.past⟩, ⟨h.logged, h.called, fun p hp => h.kept p (howed p hp),
    fun p hp => h.lives p (howed p hp)⟩, hcursor, fun hnone p hp => hoffline hnone p (howed p hp),
    honline⟩

theorem Sound.connected (h : s.Sound)
    (hc : Follows s.Owed s.published s.lastSequence c) : (s.connected c).Sound := by
  refine h.follow (fun _ he => he) h.cursor (fun hnone => by cases hnone) fun c' hc' => ?_
  rw [← Option.some.inj hc']
  exact hc

theorem Sound.receive (h : s.Sound) (hevent : ∃ p ∈ s.published, p.1 = event)
    (hc : Follows (fun p => s.Owed p ∧ p.1 ≠ event) s.published (max s.lastSequence event.score) c) :
    ((s.receive event).connected c).Sound := by
  obtain ⟨q, hq, rfl⟩ := hevent
  refine h.follow (fun _ he => List.mem_cons_of_mem _ he)
    (fun n hn habove => max_lt (h.cursor n hn habove) (habove q hq))
    (fun hnone => by cases hnone) fun c' hc' => ?_
  rw [← Option.some.inj hc']
  refine hc.mono fun p hp => ⟨⟨hp.1, fun hmem => hp.2 (List.mem_cons_of_mem _ hmem)⟩, ?_⟩
  exact fun heq => hp.2 (heq ▸ List.mem_cons_self)

theorem Ahead.tail {live : List SyncEvent}
    (h : Ahead owed published lastSequence (event :: live)) :
    Ahead (fun p => owed p ∧ p.1 ≠ event) published (max lastSequence event.score) live := by
  obtain ⟨hfirst, htail⟩ := List.pairwise_cons.mp h.sorted
  refine ⟨fun e he => h.known e (List.mem_cons_of_mem _ he), htail, fun p hp hin => ?_⟩
  exact max_lt (h.above p hp.1 (List.mem_cons_of_mem _ hin)) (hfirst p.1 hin)

theorem Sound.forward (h : s.Sound) (horderly : s.Orderly .forward) :
    (s.step .forward).Sound := by
  rw [step]
  split
  · rename_i c hc
    have hfollows := h.online c hc
    have hqueued := hfollows.queued
    rw [Queued] at hqueued
    split
    · exact h
    · exact h
    · rename_i event live hreplay hlive
      rw [hreplay] at hqueued
      have hrest : ∀ p, s.Owed p ∧ p.1 ≠ event → p.1 ∈ live := by
        intro p hp
        have hin := hqueued p hp.1
        rw [hlive] at hin
        exact (List.mem_cons.mp hin).resolve_left hp.2
      have hahead := hfollows.live
      rw [hlive] at hahead
      refine h.receive (hahead.known event List.mem_cons_self)
        ⟨hahead.tail, fun _ p hp => hahead.tail.above p hp (hrest p hp), ?_⟩
      simp only [Queued, hreplay]
      exact hrest
    · rename_i event live hlive hnotSending hnotComplete
      have hahead := hfollows.live
      rw [hlive] at hahead
      have hfailed : c.replay = .failed → ∀ p, s.Owed p ∧ p.1 ≠ event →
          max s.lastSequence event.score < p.1.score := by
        intro hreplay p hp
        rw [hreplay] at hqueued
        have hasked := horderly c hc hreplay event (by rw [hlive]; rfl) p hp.1.1
        rcases hasked.resolve_left hp.1.2 with hin | hlater
        · rw [hlive] at hin
          exact hahead.tail.above p hp ((List.mem_cons.mp hin).resolve_left hp.2)
        · exact max_lt (hqueued p hp.1) hlater
      refine h.receive (hahead.known event List.mem_cons_self) ⟨hahead.tail, ?_, ?_⟩
      · rintro (hcomplete | hfail | hfree)
        · exact absurd hcomplete hnotComplete
        · exact hfailed hfail
        · cases hfree
      · rw [Queued]
        split at hqueued
        · rename_i asked hreplay
          simp only [hreplay]
          exact ⟨le_max_of_le_left hqueued.1, fun p hp => hqueued.2 p hp.1⟩
        · rename_i events hreplay
          exact absurd hreplay (hnotSending events)
        · rename_i hreplay
          exact absurd hreplay hnotComplete
        · rename_i hreplay
          simp only [hreplay]
          exact hfailed hreplay
  · exact h

theorem Sound.sendReplayed (h : s.Sound) : (s.step .sendReplayed).Sound := by
  rw [step]
  split
  · rename_i c hc
    have hfollows := h.online c hc
    have hqueued := hfollows.queued
    rw [Queued] at hqueued
    split
    · rename_i event events hreplay
      rw [hreplay] at hqueued
      obtain ⟨hpublished, hsorted, hcover⟩ := hqueued
      obtain ⟨hfirst, htail⟩ := List.pairwise_cons.mp hsorted
      have hrest : ∀ p, s.Owed p ∧ p.1 ≠ event → p.1 ∈ events ∨ p.1 ∈ c.live
          ∧ s.lastSequence < p.1.score ∧ ∀ e ∈ event :: events, e.score < p.1.score := by
        intro p hp
        refine (hcover p hp.1).imp_left fun hin => ?_
        exact (List.mem_cons.mp hin).resolve_left hp.2
      have habove : ∀ p, s.Owed p ∧ p.1 ≠ event → event.score < p.1.score := by
        intro p hp
        rcases hrest p hp with hin | ⟨-, -, hbelow⟩
        · exact hfirst p.1 hin
        · exact hbelow event List.mem_cons_self
      refine h.receive (hpublished event List.mem_cons_self)
        ⟨⟨hfollows.live.known, hfollows.live.sorted, fun p hp hin => ?_⟩,
          fun hdrop p hp => ?_, ?_⟩
      · exact max_lt (hfollows.live.above p hp.1 hin) (habove p hp)
      · have hfree : c.overtaken = false :=
          (hdrop.resolve_left (by rintro ⟨⟩)).resolve_left (by rintro ⟨⟩)
        exact max_lt (hfollows.drop (.inr (.inr hfree)) p hp.1) (habove p hp)
      · refine ⟨fun e he => hpublished e (List.mem_cons_of_mem _ he), htail, fun p hp => ?_⟩
        refine (hrest p hp).imp_right fun ⟨hlive, hlast, hbelow⟩ => ⟨hlive, ?_, ?_⟩
        · exact max_lt hlast (hbelow event List.mem_cons_self)
        · exact fun e he => hbelow e (List.mem_cons_of_mem _ he)
    · rename_i hreplay
      rw [hreplay] at hqueued
      obtain ⟨-, -, hcover⟩ := hqueued
      have hlate : ∀ p, s.Owed p → p.1 ∈ c.live ∧ s.lastSequence < p.1.score := by
        intro p hp
        obtain ⟨hlive, hlast, -⟩ := (hcover p hp).resolve_left (by rintro ⟨⟩)
        exact ⟨hlive, hlast⟩
      exact h.connected ⟨hfollows.live, fun _ p hp => (hlate p hp).2,
        fun p hp => (hlate p hp).1⟩
    · exact h
  · exact h

theorem Sound.log_sorted (h : s.Sound) :
    s.log.members.Pairwise fun e f => e.score < f.score := by
  have hsymm : Std.Symm fun p q : SyncEvent × Nat => p.1.score ≠ q.1.score :=
    ⟨fun _ _ hne => hne.symm⟩
  have hdistinct : ∀ p ∈ s.published, ∀ q ∈ s.published, p ≠ q → p.1.score ≠ q.1.score :=
    fun p hp q hq hne => (h.above.imp fun hlt => Nat.ne_of_lt hlt).forall hp hq hne
  refine (s.log.sorted.and s.log.nodup).imp_of_mem fun {e f} he hf hef => ?_
  obtain ⟨p, hp, rfl⟩ := h.logged e he
  obtain ⟨q, hq, rfl⟩ := h.logged f hf
  obtain ⟨hle, hne⟩ := hef
  have hscore : p.1.score ≤ q.1.score := Prod.Lex.monotone_fst _ _ hle
  exact Nat.lt_of_le_of_ne hscore (hdistinct p hp q hq fun heq => hne (congrArg Prod.fst heq))

/-- **The replay query** finds whatever is owed. -/
theorem Sound.replay (h : s.Sound) {ok : Bool} (horderly : s.Orderly (.replay ok)) :
    (s.step (.replay ok)).Sound := by
  rw [step]
  split
  · rename_i c hc
    have hfollows := h.online c hc
    have hqueued := hfollows.queued
    rw [Queued] at hqueued
    split
    · rename_i asked hreplay
      rw [hreplay] at hqueued
      obtain ⟨hle, hasked⟩ := hqueued
      have hwaiting : c.replay.waiting = true := by rw [hreplay]; rfl
      split
      · rename_i hok
        obtain ⟨rfl, -⟩ := Bool.and_eq_true_iff.mp hok
        refine h.connected ⟨hfollows.live, fun hmay =>
          hfollows.drop (.inr ((hmay.resolve_left (by rintro ⟨⟩)).imp_left (by rintro ⟨⟩))), ?_⟩
        refine ⟨fun e he => h.logged e (List.mem_of_mem_filter he), h.log_sorted.filter _,
          fun p hp => .inl (List.mem_filter.mpr ⟨?_, decide_eq_true ?_⟩)⟩
        · refine (h.kept p hp).resolve_right fun ⟨call, hcall, heq, hpc⟩ => hp.2 ?_
          rw [← heq]
          exact horderly c hc hwaiting call hcall hpc
        · have hle := (h.exact p (List.mem_of_mem_drop (List.mem_of_mem_filter hp.1))).2
          rw [Js.number_of_le (Nat.le_of_lt (Nat.lt_of_lt_of_le (hasked p hp) hle))]
          exact hasked p hp
      · rename_i hrefused
        have hbelow : ∀ p, s.Owed p → s.lastSequence < p.1.score := by
          cases ok with
          | true =>
            -- the number asked for is one of a double
            have hcursor := h.cursor (2 ^ 53 + 1) (by decide)
              fun p hp => Nat.lt_succ_of_le (h.exact p hp).2
            exact absurd (by simp; omega) hrefused
          | false =>
            intro p hp
            rcases (horderly c hc hwaiting p hp.1).resolve_left hp.2 with hin | hlater
            · exact hfollows.live.above p hp hin
            · exact hlater
        exact h.connected ⟨hfollows.live, fun _ => hbelow, hbelow⟩
    · exact h
  · exact h

theorem Sound.connect (h : s.Sound) (server : Nat) : (s.step (.connect server)).Sound := by
  rw [step]
  split
  · exact h
  · rename_i hnone
    exact h.connected ⟨⟨fun _ he => (by cases he), .nil, fun _ _ hin => (by cases hin)⟩,
      fun _ => h.offline hnone, le_refl _, h.offline hnone⟩

theorem Sound.mapConnection (h : s.Sound) {f : Connection → Connection}
    (hf : ∀ c, s.connection = some c → Follows s.Owed s.published s.lastSequence (f c)) :
    Sound { s with connection := s.connection.map f } := by
  refine h.follow (fun _ he => he) h.cursor
    (fun hnone => h.offline (Option.map_eq_none_iff.mp hnone)) fun c' hc' => ?_
  obtain ⟨c, hc, rfl⟩ := Option.map_eq_some_iff.mp hc'
  exact hf c hc

theorem Sound.subscribe (h : s.Sound) (subscribed : Bool) :
    Sound { s with connection := s.connection.map fun c =>
      { c with subscribed := subscribed } } := by
  refine h.mapConnection fun c hc => ?_
  have hfollows := h.online c hc
  exact ⟨hfollows.live, hfollows.drop, hfollows.queued⟩

/-- **A message is dropped** that the client has, or that a replay brings. -/
theorem Sound.drop (h : s.Sound) {position : Nat} (horderly : s.Orderly (.drop position)) :
    (s.step (.drop position)).Sound := by
  refine h.mapConnection fun c hc => ?_
  have hfollows := h.online c hc
  have hsub : (c.live.eraseIdx position).Sublist c.live := List.eraseIdx_sublist _ _
  have hstays : c.replay.answered = true → ∀ p, s.Owed p → p.1 ∈ c.live →
      p.1 ∈ c.live.eraseIdx position ∨ c.replay.Brings s.lastSequence p.1 := by
    intro hanswered p hp hin
    obtain ⟨i, hi⟩ := List.mem_iff_getElem?.mp hin
    by_cases hne : i = position
    · subst hne
      exact .inr ((horderly c hc hanswered p.1 hi).resolve_left hp.2)
    · exact .inl (List.mem_eraseIdx_iff_getElem?.mpr ⟨i, hne, hi⟩)
  refine ⟨⟨fun e he => hfollows.live.known e (hsub.subset he), hfollows.live.sorted.sublist hsub,
    fun p hp hin => hfollows.live.above p hp (hsub.subset hin)⟩, hfollows.drop, ?_⟩
  have hqueued := hfollows.queued
  rw [Queued] at hqueued ⊢
  simp only
  split at hqueued
  · exact hqueued
  · rename_i events hreplay
    rw [hreplay] at hstays
    refine ⟨hqueued.1, hqueued.2.1, fun p hp => ?_⟩
    rcases hqueued.2.2 p hp with hin | ⟨hin, hlast, hbelow⟩
    · exact .inl hin
    · rcases hstays rfl p hp hin with hkept | hbrought
      · exact .inr ⟨hkept, hlast, hbelow⟩
      · exact .inl hbrought
  · rename_i hreplay
    rw [hreplay] at hstays
    exact fun p hp => (hstays rfl p hp (hqueued p hp)).resolve_right fun hfalse => hfalse
  · exact hqueued

/-- A connection that may go down leaves the client below what it is
owed. -/
theorem Sound.disconnect (h : s.Sound) (horderly : s.Orderly .disconnect) :
    (s.step .disconnect).Sound := by
  refine h.follow (fun _ he => he) h.cursor (fun _ => ?_) fun _ hc' => by cases hc'
  cases hc : s.connection with
  | none => exact h.offline hc
  | some c => exact (h.online c hc).drop (horderly c hc)

/-! ## The instances and the replay set -/

theorem mem_set_of_mem {calls : List Publish} {call' other : Publish} (hk : calls[k]? = some call)
    (hmem : other ∈ calls) : other ∈ calls.set k call' ∨ other = call := by
  obtain ⟨i, hi⟩ := List.mem_iff_getElem?.mp hmem
  by_cases heq : k = i
  · subst heq
    rw [hk] at hi
    exact .inr (Option.some.inj hi).symm
  · exact .inl (List.mem_of_getElem? ((List.getElem?_set_ne heq).trans hi))

theorem mem_set_self {calls : List Publish} {call' : Publish} (hk : calls[k]? = some call) :
    call' ∈ calls.set k call' := by
  obtain ⟨hlt, -⟩ := List.getElem?_eq_some_iff.mp hk
  exact List.mem_set hlt call'

theorem Sound.keep (h : s.Sound) {seq : Nat → UInt64} {calls : List Publish}
    {log : SortedSet SyncEvent rank} {expiresAt : Option Nat}
    (hkept : Kept { s with seq := seq, calls := calls, log := log, expiresAt := expiresAt }) :
    Sound { s with seq := seq, calls := calls, log := log, expiresAt := expiresAt } :=
  ⟨⟨h.above, h.exact, h.past⟩, hkept, h.cursor, h.offline, h.online⟩

theorem Kept.move (h : s.Kept) (hk : s.calls[k]? = some call) {pc : PublishPc}
    (hcalled : pc.unsettled = true → call.pc.unsettled = true)
    (hkept : ∀ p, s.Owed p → call.event = p.1 → call.pc = .appending → p.1 ∈ s.log.members)
    (hlives : ∀ p, s.Owed p → p.1 ∈ s.log.members → call.event = p.1 → call.pc.logged = true →
      pc.logged = true ∨ ∀ t ∈ s.expiresAt, p.2 + replayTTL ≤ t) :
    (s.move k call pc).Kept where
  logged := h.logged
  called := by
    intro other hother hunsettled
    rcases List.mem_or_eq_of_mem_set hother with hmem | rfl
    · exact h.called other hmem hunsettled
    · exact h.called call (List.mem_of_getElem? hk) (hcalled hunsettled)
  kept := by
    intro p hp
    rcases h.kept p hp with hlog | ⟨other, hother, heq, hpc⟩
    · exact .inl hlog
    · rcases mem_set_of_mem hk hother with hmem | rfl
      · exact .inr ⟨other, hmem, heq, hpc⟩
      · exact .inl (hkept p hp heq hpc)
  lives := by
    intro p hp hlog
    rcases h.lives p hp hlog with ⟨other, hother, heq, hpc⟩ | httl
    · rcases mem_set_of_mem hk hother with hmem | rfl
      · exact .inl ⟨other, hmem, heq, hpc⟩
      · exact (hlives p hp hlog heq hpc).imp_left fun hpc' => ⟨_, mem_set_self hk, heq, hpc'⟩
    · exact .inr httl

/-- **ZADD**: the event of the call is in the replay set. -/
theorem Kept.add (h : s.Kept) (hk : s.calls[k]? = some call) (hpc : call.pc = .appending) :
    Kept { s.move k call .trimming with log := s.log.add call.event } where
  logged := by
    intro e he
    rcases SortedSet.mem_add.mp he with rfl | hmem
    · exact h.called call (List.mem_of_getElem? hk) (by rw [hpc]; rfl)
    · exact h.logged e hmem
  called := by
    intro other hother hunsettled
    rcases List.mem_or_eq_of_mem_set hother with hmem | rfl
    · exact h.called other hmem hunsettled
    · exact h.called call (List.mem_of_getElem? hk) (by rw [hpc]; rfl)
  kept := by
    intro p hp
    rcases h.kept p hp with hlog | ⟨other, hother, heq, hother_pc⟩
    · exact .inl (SortedSet.mem_add.mpr (.inr hlog))
    · rcases mem_set_of_mem hk hother with hmem | rfl
      · exact .inr ⟨other, hmem, heq, hother_pc⟩
      · exact .inl (SortedSet.mem_add.mpr (.inl heq.symm))
  lives := by
    intro p hp hlog
    rcases SortedSet.mem_add.mp hlog with heq | hmem
    · exact .inl ⟨_, mem_set_self hk, heq.symm, rfl⟩
    · rcases h.lives p hp hmem with ⟨other, hother, heq, hlogged⟩ | httl
      · rcases mem_set_of_mem hk hother with hset | rfl
        · exact .inl ⟨other, hset, heq, hlogged⟩
        · exact .inl ⟨_, mem_set_self hk, heq, rfl⟩
      · exact .inr httl

theorem Sound.append (h : s.Sound) {ok : Bool} (horderly : s.Orderly (.append k ok)) :
    (s.step (.append k ok)).Sound := by
  rw [step]
  split
  · rename_i call hk
    split
    · rename_i hpc
      cases ok with
      | true => exact h.keep (h.toKept.add hk hpc)
      | false =>
        refine h.keep (h.toKept.move hk (fun _ => by rw [hpc]; rfl) (fun p hp heq _ => ?_)
          fun p _ _ _ hlogged => ?_)
        · exact absurd (heq ▸ horderly call hk hpc) hp.2
        · rw [hpc] at hlogged
          cases hlogged
    · exact h
  · exact h

theorem Kept.narrow (h : s.Kept) {log : SortedSet SyncEvent rank}
    (hsub : ∀ e ∈ log.members, e ∈ s.log.members)
    (hkeeps : ∀ p, s.Owed p → p.1 ∈ s.log.members → p.1 ∈ log.members) :
    Kept { s with log := log } :=
  ⟨fun e he => h.logged e (hsub e he), h.called,
    fun p hp => (h.kept p hp).imp_left fun hlog => hkeeps p hp hlog,
    fun p hp hlog => h.lives p hp (hsub p.1 hlog)⟩

theorem Sound.mem_keepTop (h : s.Sound) {p : SyncEvent × Nat} (hp : p ∈ s.window)
    (hlog : p.1 ∈ s.log.members) : p.1 ∈ (s.log.keepTop replayLimit).members := by
  have hrecent := List.mem_of_mem_filter hp
  have hlen : ((s.published.drop (s.published.length - replayLimit)).map Prod.fst).length
      ≤ replayLimit := by
    rw [List.length_map, List.length_drop]
    omega
  refine SortedSet.mem_keepTop_of_subset hlog hlen fun e he hle => ?_
  obtain ⟨q, hq, rfl⟩ := h.logged e he
  have hscore : p.1.score ≤ q.1.score := Prod.Lex.monotone_fst _ _ hle
  have habove := h.above
  rw [← List.take_append_drop (s.published.length - replayLimit) s.published] at hq habove
  rcases List.mem_append.mp hq with hold | hnew
  · have hlt := (List.pairwise_append.mp habove).2.2 q hold p hrecent
    omega
  · exact List.mem_map_of_mem hnew

/-- **ZREMRANGEBYRANK** takes nothing of the window. -/
theorem Sound.trim (h : s.Sound) (ok : Bool) : (s.step (.trim k ok)).Sound := by
  rw [step]
  split
  · rename_i call hk
    split
    · rename_i hpc
      have hkept : Kept { s with log := if ok then s.log.keepTop replayLimit else s.log } := by
        refine h.toKept.narrow (fun e he => ?_) fun p hp hlog => ?_
        · split at he
          · exact SortedSet.mem_of_keepTop he
          · exact he
        · split
          · exact h.mem_keepTop hp.1 hlog
          · exact hlog
      refine h.keep (hkept.move hk (fun _ => by rw [hpc]; rfl) (fun _ _ _ happending => ?_)
        fun _ _ _ _ _ => .inl rfl)
      rw [hpc] at happending
      cases happending
    · exact h
  · exact h

/-- **EXPIRE** gives every event 24 hours from its publication at least. -/
theorem Sound.expire (h : s.Sound) {ok : Bool} (horderly : s.Orderly (.expire k ok)) :
    (s.step (.expire k ok)).Sound := by
  rw [step]
  split
  · rename_i call hk
    split
    · rename_i hpc
      have happending : ∀ p, s.Owed p → call.event = p.1 → call.pc = .appending →
          p.1 ∈ s.log.members := by
        intro p _ _ happending
        rw [hpc] at happending
        cases happending
      cases hset : ok && !s.log.members.isEmpty with
      | true =>
        have httl : ∀ p, s.Owed p → ∀ t ∈ some (s.now + replayTTL), p.2 + replayTTL ≤ t := by
          intro p hp t ht
          rw [← Option.some.inj ht]
          exact Nat.add_le_add_right
            (h.past p (List.mem_of_mem_drop (List.mem_of_mem_filter hp.1))) _
        have hkept : Kept { s with expiresAt := some (s.now + replayTTL) } :=
          ⟨h.logged, h.called, h.kept, fun p hp _ => .inr (httl p hp)⟩
        exact h.keep (hkept.move hk (fun hnone => by cases hnone) happending
          fun p hp _ _ _ => .inr (httl p hp))
      | false =>
        refine h.keep (h.toKept.move hk (fun hnone => by cases hnone) happending
          fun p hp hlog heq _ => ?_)
        cases ok with
        | true =>
          rw [Bool.true_and, Bool.not_eq_false', List.isEmpty_iff] at hset
          rw [hset] at hlog
          cases hlog
        | false => exact absurd (heq ▸ horderly call hk hpc) hp.2
    · exact h
  · exact h

theorem Sound.numberOther (h : s.Sound) (server : Nat) : (s.step (.numberOther server)).Sound :=
  h.keep ⟨h.logged, h.called, h.kept, h.lives⟩

theorem Sound.broadcast (h : s.Sound) (server : Nat) (id eventType encryptedData nonce : Bytes) :
    (s.step (.broadcast server id eventType encryptedData nonce)).Sound := by
  refine h.keep ?_
  split
  · exact ⟨h.logged, h.called, h.kept, h.lives⟩
  · refine ⟨h.logged, fun other hother hunsettled => ?_, fun p hp => ?_, fun p hp hlog => ?_⟩
    · rcases List.mem_append.mp hother with hmem | hnew
      · exact h.called other hmem hunsettled
      · rw [List.mem_singleton.mp hnew] at hunsettled
        cases hunsettled
    · exact (h.kept p hp).imp_right fun ⟨other, hmem, hother⟩ =>
        ⟨other, List.mem_append_left _ hmem, hother⟩
    · exact (h.lives p hp hlog).imp_left fun ⟨other, hmem, hother⟩ =>
        ⟨other, List.mem_append_left _ hmem, hother⟩

/-- **A restart** cuts no call off whose event is owed. -/
theorem Sound.restart (h : s.Sound) {server : Nat} (horderly : s.Orderly (.restart server)) :
    (s.step (.restart server)).Sound := by
  obtain ⟨hcalls, hdrop⟩ := horderly
  have hstays : ∀ other ∈ s.calls, other.pc.unsettled = true → other.event ∉ s.received →
      other ∈ s.calls.map fun call =>
        if call.server = server then { call with pc := .ended } else call := by
    intro other hother hunsettled howed
    refine List.mem_map.mpr ⟨other, hother, if_neg fun hserver => howed ?_⟩
    exact hcalls other hother hserver hunsettled
  have hkept : (s.step (.restart server)).Kept := by
    refine ⟨h.logged, fun other hother hunsettled => ?_, fun p hp => ?_, fun p hp hlog => ?_⟩
    · obtain ⟨call, hcall, rfl⟩ := List.mem_map.mp hother
      split at hunsettled
      · cases hunsettled
      · rename_i hserver
        rw [if_neg hserver]
        exact h.called call hcall hunsettled
    · refine (h.kept p hp).imp_right fun ⟨other, hother, heq, hpc⟩ => ⟨other, ?_, heq, hpc⟩
      exact hstays other hother (by rw [hpc]; rfl) (heq ▸ hp.2)
    · refine (h.lives p hp hlog).imp_left fun ⟨other, hother, heq, hlogged⟩ =>
        ⟨other, ?_, heq, hlogged⟩
      exact hstays other hother (PublishPc.unsettled_of_logged hlogged) (heq ▸ hp.2)
  refine ⟨⟨h.above, h.exact, h.past⟩, hkept, h.cursor, fun hnone => ?_, fun c' hc' => ?_⟩
  · cases hc : s.connection with
    | none => exact h.offline hc
    | some c =>
      have hgone : (some c).filter (fun c => c.server ≠ server) = none := hc ▸ hnone
      rw [Option.filter_eq_none_iff] at hgone
      have hserver := hgone c rfl
      exact (h.online c hc).drop (hdrop c hc (by simpa using hserver))
  · have hc : s.connection = some c' := (Option.filter_eq_some_iff.mp hc').1
    exact h.online c' hc

theorem mem_window_of_later {p : SyncEvent × Nat} {now : Nat} (hnow : s.now ≤ now)
    (hp : p ∈ Relay.window { s with now := now }) : p ∈ s.window ∧ now < p.2 + replayTTL := by
  obtain ⟨hrecent, hyoung⟩ := List.mem_filter.mp hp
  have hlt : now < p.2 + replayTTL := of_decide_eq_true hyoung
  exact ⟨List.mem_filter.mpr ⟨hrecent, decide_eq_true (Nat.lt_of_le_of_lt hnow hlt)⟩, hlt⟩

theorem Sound.later (h : s.Sound) {now : Nat} {log : SortedSet SyncEvent rank}
    {expiresAt : Option Nat} (hnow : s.now ≤ now)
    (hkept : Kept { s with now := now, log := log, expiresAt := expiresAt }) :
    Sound { s with now := now, log := log, expiresAt := expiresAt } := by
  have howed : ∀ p, Owed { s with now := now } p → s.Owed p :=
    fun p hp => ⟨(mem_window_of_later hnow hp.1).1, hp.2⟩
  exact ⟨⟨h.above, h.exact, fun p hp => (h.past p hp).trans hnow⟩, hkept, h.cursor,
    fun hnone p hp => h.offline hnone p (howed p hp), fun c hc => (h.online c hc).mono howed⟩

/-- **The key expires** on events that are out of the window or received. -/
theorem Sound.tick (h : s.Sound) {seconds : Nat} (horderly : s.Orderly (.tick seconds)) :
    (s.step (.tick seconds)).Sound := by
  have hnow : s.now ≤ s.now + seconds := Nat.le_add_right _ _
  rw [step, Relay.tick]
  split
  · rename_i hexpired
    obtain ⟨t, ht, hle⟩ := hexpired
    refine h.later hnow ⟨fun _ he => (by cases he), h.called, fun p hp => .inr ?_,
      fun _ _ hlog => by cases hlog⟩
    obtain ⟨hwindow, hyoung⟩ := mem_window_of_later hnow hp.1
    have howed : s.Owed p := ⟨hwindow, hp.2⟩
    refine (h.kept p howed).resolve_left fun hlog => ?_
    rcases h.lives p howed hlog with ⟨call, hcall, heq, hlogged⟩ | httl
    · exact hp.2 (heq ▸ horderly ⟨t, ht, hle⟩ call hcall hlogged)
    · have hlate := httl t ht
      omega
  · have howed : ∀ p, Owed { s with now := s.now + seconds } p → s.Owed p :=
      fun p hp => ⟨(mem_window_of_later hnow hp.1).1, hp.2⟩
    exact h.later hnow ⟨h.logged, h.called, fun p hp => h.kept p (howed p hp),
      fun p hp => h.lives p (howed p hp)⟩

/-! ## Publishing -/

/-- The last `n` after one more. -/
theorem mem_last_concat {α : Type} {l : List α} {a x : α} {n : Nat}
    (h : x ∈ (l ++ [a]).drop ((l ++ [a]).length - n)) : x ∈ l.drop (l.length - n) ∨ x = a := by
  rw [List.drop_append, List.mem_append] at h
  refine h.imp (fun hold => ?_) fun hnew => List.mem_singleton.mp (List.mem_of_mem_drop hnew)
  exact (List.drop_sublist_drop_left l (by rw [List.length_append]; omega)).subset hold

/-- The queues cover an event that goes into them, and one that the replay
is still to ask for. -/
theorem Queued.publish {p₀ : SyncEvent × Nat} {live : List SyncEvent}
    (h : Queued owed published lastSequence c)
    (habove : ∀ p ∈ published, p.1.score < p₀.1.score) (hlast : lastSequence < p₀.1.score)
    (howed : ∀ p, owed' p → owed p ∨ p = p₀) (hlive : ∀ e ∈ c.live, e ∈ live)
    (hnew : c.replay.answered = true → p₀.1 ∈ live) :
    Queued owed' (published ++ [p₀]) lastSequence { c with live := live } := by
  rw [Queued] at h ⊢
  simp only
  split at h
  · refine ⟨h.1, fun p hp => ?_⟩
    rcases howed p hp with hold | rfl
    · exact h.2 p hold
    · exact Nat.lt_of_le_of_lt h.1 hlast
  · rename_i events hreplay
    obtain ⟨hevents, hsorted, hcover⟩ := h
    refine ⟨fun e he => ?_, hsorted, fun p hp => ?_⟩
    · obtain ⟨p, hp, heq⟩ := hevents e he
      exact ⟨p, List.mem_append_left _ hp, heq⟩
    · rcases howed p hp with hold | rfl
      · exact (hcover p hold).imp_right fun hlate => ⟨hlive _ hlate.1, hlate.2⟩
      · refine .inr ⟨hnew (by rw [hreplay]; rfl), hlast, fun e he => ?_⟩
        obtain ⟨q, hq, rfl⟩ := hevents e he
        exact habove q hq
  · rename_i hreplay
    intro p hp
    rcases howed p hp with hold | rfl
    · exact hlive _ (h p hold)
    · exact hnew (by rw [hreplay]; rfl)
  · intro p hp
    rcases howed p hp with hold | rfl
    · exact h p hold
    · exact hlast

theorem Follows.publish {p₀ : SyncEvent × Nat} (h : Follows owed published lastSequence c)
    (habove : ∀ p ∈ published, p.1.score < p₀.1.score) (hlast : lastSequence < p₀.1.score)
    (hanswered : c.replay.answered = true → c.subscribed = true)
    (howed : ∀ p, owed' p → owed p ∨ p = p₀) :
    Follows owed' (published ++ [p₀]) lastSequence
      (if c.subscribed then { c with live := c.live ++ [p₀.1] } else c) := by
  have hdrop : c.MayDrop → ∀ p, owed' p → lastSequence < p.1.score := by
    intro hmay p hp
    rcases howed p hp with hold | rfl
    · exact h.drop hmay p hold
    · exact hlast
  have hold : Ahead owed' (published ++ [p₀]) lastSequence c.live := by
    refine ⟨fun e he => ?_, h.live.sorted, fun p hp hin => ?_⟩
    · obtain ⟨p, hp, heq⟩ := h.live.known e he
      exact ⟨p, List.mem_append_left _ hp, heq⟩
    · rcases howed p hp with hold | rfl
      · exact h.live.above p hold hin
      · exact hlast
  split
  · refine ⟨⟨fun e he => ?_, ?_, fun p hp hin => ?_⟩, hdrop, h.queued.publish habove hlast howed
      (fun e he => List.mem_append_left _ he) fun _ => List.mem_append_right _ List.mem_cons_self⟩
    · rcases List.mem_append.mp he with hmem | hnew
      · exact hold.known e hmem
      · exact ⟨p₀, List.mem_append_right _ List.mem_cons_self, (List.mem_singleton.mp hnew).symm⟩
    · refine List.pairwise_append.mpr ⟨h.live.sorted, List.pairwise_singleton _ _,
        fun e he f hf => ?_⟩
      obtain ⟨p, hp, rfl⟩ := h.live.known e he
      rw [List.mem_singleton.mp hf]
      exact habove p hp
    · rcases List.mem_append.mp hin with hmem | hnew
      · exact hold.above p hp hmem
      · rw [List.mem_singleton.mp hnew]
        exact hlast
  · rename_i hunsubscribed
    exact ⟨hold, hdrop, h.queued.publish habove hlast howed (fun _ he => he)
      fun hans => absurd (hanswered hans) hunsubscribed⟩

theorem owed_deliver {p : SyncEvent × Nat} (hp : (s.deliver event).Owed p) :
    s.Owed p ∨ p = (event, s.now) := by
  obtain ⟨hrecent, hyoung⟩ := List.mem_filter.mp hp.1
  exact (mem_last_concat hrecent).imp_left fun hold => ⟨List.mem_filter.mpr ⟨hold, hyoung⟩, hp.2⟩

theorem Sound.deliver (h : s.Sound) (hk : s.calls[k]? = some call) (hpc : call.pc = .publishing)
    (hpos : 0 < call.event.score) (hexact : call.event.score ≤ 2 ^ 53)
    (habove : ∀ p ∈ s.published, p.1.score < call.event.score)
    (hanswered : ∀ c ∈ s.connection, c.replay.answered = true → c.subscribed = true) :
    ((s.move k call .appending).deliver call.event).Sound := by
  have hlast : s.lastSequence < call.event.score := h.cursor _ hpos habove
  have howed : ∀ p, ((s.move k call .appending).deliver call.event).Owed p →
      s.Owed p ∨ p = (call.event, s.now) := fun p hp => owed_deliver hp
  have hstays : ∀ other ∈ s.calls, other.pc.unsettled = true →
      other ∈ s.calls.set k { call with pc := .appending } := by
    intro other hother hunsettled
    refine (mem_set_of_mem hk hother).resolve_right ?_
    rintro rfl
    rw [hpc] at hunsettled
    cases hunsettled
  refine ⟨⟨?_, fun p hp => ?_, fun p hp => ?_⟩, ⟨fun e he => ?_, fun other hother hunsettled => ?_,
    fun p hp => ?_, fun p hp hlog => ?_⟩, fun n hn hbelow => ?_, fun hnone p hp => ?_,
    fun c' hc' => ?_⟩
  · refine List.pairwise_append.mpr ⟨h.above, List.pairwise_singleton _ _, fun p hp q hq => ?_⟩
    rw [List.mem_singleton.mp hq]
    exact habove p hp
  · rcases List.mem_append.mp hp with hold | hnew
    · exact h.exact p hold
    · rw [List.mem_singleton.mp hnew]
      exact ⟨hpos, hexact⟩
  · rcases List.mem_append.mp hp with hold | hnew
    · exact h.past p hold
    · rw [List.mem_singleton.mp hnew]
      exact le_refl _
  · obtain ⟨p, hp, heq⟩ := h.logged e he
    exact ⟨p, List.mem_append_left _ hp, heq⟩
  · rcases List.mem_or_eq_of_mem_set hother with hmem | rfl
    · obtain ⟨p, hp, heq⟩ := h.called other hmem hunsettled
      exact ⟨p, List.mem_append_left _ hp, heq⟩
    · exact ⟨(call.event, s.now), List.mem_append_right _ List.mem_cons_self, rfl⟩
  · rcases howed p hp with hold | rfl
    · refine (h.kept p hold).imp_right fun ⟨other, hother, heq, happending⟩ => ?_
      exact ⟨other, hstays other hother (by rw [happending]; rfl), heq, happending⟩
    · exact .inr ⟨_, mem_set_self hk, rfl, rfl⟩
  · rcases howed p hp with hold | rfl
    · refine (h.lives p hold hlog).imp_left fun ⟨other, hother, heq, hlogged⟩ => ?_
      exact ⟨other, hstays other hother (PublishPc.unsettled_of_logged hlogged), heq, hlogged⟩
    · obtain ⟨q, hq, heq⟩ := h.logged call.event hlog
      exact absurd (habove q hq) (by rw [heq]; exact Nat.lt_irrefl _)
  · exact h.cursor n hn fun p hp => hbelow p (List.mem_append_left _ hp)
  · rcases howed p hp with hold | rfl
    · exact h.offline (Option.map_eq_none_iff.mp hnone) p hold
    · exact hlast
  · obtain ⟨c, hc, rfl⟩ := Option.map_eq_some_iff.mp hc'
    exact (h.online c hc).publish habove hlast (hanswered c hc) howed

/-- **PUBLISH**: what is owed grows by the event, which is above the
client's highest sequence. -/
theorem Sound.publish (h : s.Sound) {ok : Bool} (horderly : s.Orderly (.publish k ok)) :
    (s.step (.publish k ok)).Sound := by
  rw [step]
  split
  · rename_i call hk
    split
    · rename_i hpc
      cases ok with
      | false =>
        refine h.keep (h.toKept.move hk (fun hnone => by cases hnone) (fun _ _ _ happending => ?_)
          fun _ _ _ _ hlogged => ?_)
        · rw [hpc] at happending
          cases happending
        · rw [hpc] at hlogged
          cases hlogged
      | true =>
        obtain ⟨⟨hpos, hexact, hnumbers⟩, hanswered⟩ := horderly call hk hpc
        have hscore : call.event.score = call.event.sequence.toNat := Js.number_of_le hexact
        have habove : ∀ p ∈ s.published, p.1.score < call.event.score := by
          intro p hp
          have hlt : p.1.sequence.toNat < call.event.sequence.toNat :=
            UInt64.lt_iff_toNat_lt.mp (hnumbers p hp)
          have hsmall : p.1.score = p.1.sequence.toNat :=
            Js.number_of_le (Nat.le_of_lt (Nat.lt_of_lt_of_le hlt hexact))
          rw [hsmall, hscore]
          exact hlt
        have hpositive : 0 < call.event.score := by rw [hscore]; exact hpos
        exact h.deliver hk hpc hpositive (by rw [hscore]; exact hexact) habove hanswered
    · exact h
  · exact h

/-! ## Every run -/

/-- **One action** of an orderly run. -/
theorem Sound.step (h : s.Sound) (a : RelayAction) (horderly : s.Orderly a) : (s.step a).Sound := by
  cases a with
  | tick seconds => exact h.tick horderly
  | numberOther server => exact h.numberOther server
  | broadcast server id eventType encryptedData nonce =>
    exact h.broadcast server id eventType encryptedData nonce
  | publish k ok => exact h.publish horderly
  | append k ok => exact h.append horderly
  | trim k ok => exact h.trim ok
  | expire k ok => exact h.expire horderly
  | restart server => exact h.restart horderly
  | connect server => exact h.connect server
  | subscribe => exact h.subscribe true
  | unsubscribe => exact h.subscribe false
  | drop position => exact h.drop horderly
  | replay ok => exact h.replay horderly
  | sendReplayed => exact h.sendReplayed
  | forward => exact h.forward horderly
  | disconnect => exact h.disconnect horderly

/-- **Sync replay skips no event** in any state of an orderly run. -/
theorem replay_skips_nothing {actions : List RelayAction}
    (h : Run.Each step Orderly .start actions) :
    ∀ reached, reached <+: actions → (Relay.start.run reached).NoneSkipped := by
  rintro reached ⟨rest, rfl⟩
  obtain ⟨hreached, -⟩ := Run.Each.append.mp h
  exact (hreached.preserves (fun _ a horderly hs => hs.step a horderly) Sound.start).noneSkipped

/-! ## Sample runs -/

def sampleBroadcast (server : Nat) (id : UInt8) : RelayAction :=
  .broadcast server [id] (ascii "FILE_ADDED") (ascii "AA==") (ascii "AA==")

/-- The commands of a call. -/
def publishAll (k : Nat) : List RelayAction :=
  [.publish k true, .append k true, .trim k true, .expire k true]

/-- The client connects and gets its replay of so many events. -/
def reconnect (server count : Nat) : List RelayAction :=
  ([.connect server, .subscribe, .replay true] : List RelayAction)
    ++ (List.replicate (count + 1) .sendReplayed : List RelayAction)

/-- One event is received live; the next, published by an instance that has
numbered an event of another user, by replay. -/
def sampleSession : List RelayAction :=
  reconnect 1 0 ++ [sampleBroadcast 0 1] ++ publishAll 0
    ++ [.forward, .disconnect, .numberOther 1, sampleBroadcast 1 2] ++ publishAll 1
    ++ [.tick 3600] ++ reconnect 0 1

theorem replay_skips_nothing_sample : (Relay.start.run sampleSession).NoneSkipped :=
  replay_skips_nothing (by decide) sampleSession List.prefix_rfl

/-- One event is received live; then the instance restarts and numbers the
next one like the first. -/
def restartSession : List RelayAction :=
  reconnect 1 0 ++ [sampleBroadcast 0 1] ++ publishAll 0
    ++ [.forward, .disconnect, .restart 0, sampleBroadcast 0 2] ++ publishAll 1 ++ reconnect 1 0

/-- **After a restart** an event is neither delivered live nor replayed. -/
theorem replay_skips_restart : ¬ (Relay.start.run restartSession).NoneSkipped := by decide

end Relay

end UsbVault.Sync
