import UsbVault.Lib.Calls

/-!
# Connections

The WebSocket handlers of the sync service: `WSHandler.ServeHTTP`
(`internal/sync/websocket.go`) with its pool of connections
(`connection.go`), and the legacy `HandleWebSocket` (`service.go`) with its
counter. Each handler has a goroutine that reads the socket and sends what it
has read to the handler through a channel of 16 messages.

The pool has what its handlers serve, the counter counts the others, and a user
is served five connections by each of the two routes at most
(`connections_held`). The handlers are bounded, the goroutines are not: where
the channel is full when its handler leaves, the goroutine of the first route
waits for good (`ends_iff`, `waits_forever`), and any number of them may
(`goroutines_unbounded`). The legacy one gives up when its context is cancelled.

A handler leaves its loop when a write fails or the goroutine has. The heartbeat
tracker, which nothing reads, is left out.
-/

namespace UsbVault.SyncConnections

open Calls

abbrev UserID := Nat

abbrev ConnID := Nat

def maxConnectionsPerUser : Nat := 5

/-- The messages that `clientMsgCh` holds. -/
def capacity : Nat := 16

/-! ## The pool -/

/-- `connections` with the user of each, and the keys of each map of
`userConns`. -/
structure Pool where
  connections : ConnID → Option UserID
  userConns : UserID → List ConnID

namespace Pool

def empty : Pool := ⟨fun _ => none, fun _ => []⟩

/-- `Add`; none: the limit would be exceeded. -/
def add (p : Pool) (connID : ConnID) (userID : UserID) : Option Pool :=
  if maxConnectionsPerUser ≤ (p.userConns userID).length then none
  else
    some ⟨Function.update p.connections connID (some userID),
      Function.update p.userConns userID
        (if connID ∈ p.userConns userID then p.userConns userID
          else connID :: p.userConns userID)⟩

/-- `Remove` -/
def remove (p : Pool) (connID : ConnID) : Pool :=
  match p.connections connID with
  | none => p
  | some userID =>
    ⟨Function.update p.connections connID none,
      Function.update p.userConns userID ((p.userConns userID).erase connID)⟩

end Pool

/-- `WSHandler.pool` and `SyncService.connCount`. -/
structure Server where
  pool : Pool
  connCount : UserID → Int

def Server.start : Server := ⟨.empty, fun _ => 0⟩

/-! ## Handlers -/

inductive Route where
  | ws
  | legacy
  deriving DecidableEq, Repr

inductive Pc where
  | check
  | accept
  | add
  | loop
  /-- The deferred `conn.Close` of the legacy handler. -/
  | close
  | remove
  | ended
  deriving DecidableEq, Repr

/-- The goroutine that reads. -/
inductive Reader where
  | none
  | reading
  | sending
  | ended
  deriving DecidableEq, Repr

/-- A request to connect, and its goroutine. -/
structure Handler where
  route : Route
  userID : UserID
  pc : Pc
  reader : Reader
  queue : Nat
  cancelled : Bool
  deriving DecidableEq, Repr

def Handler.arrived (route : Route) (userID : UserID) : Handler :=
  ⟨route, userID, .check, .none, 0, false⟩

/-- `main`: the upgrade succeeds, and the loop handles a message rather than
leaving. `reader`: a message is read or sent, rather than the goroutine coming
to its end. -/
inductive Outcome where
  | main (ok : Bool)
  | reader (message : Bool)
  deriving DecidableEq, Repr

/-- The loop handles the first message of the channel, or leaves and cancels
its context. -/
def Handler.serve (h : Handler) (next : Pc) (ok : Bool) : Handler :=
  if ok then { h with queue := h.queue - 1 } else { h with cancelled := true, pc := next }

/-- `WSHandler.ServeHTTP` -/
def execWS (connID : ConnID) (s : Server) (h : Handler) (ok : Bool) : Server × Handler :=
  match h.pc with
  | .check =>
    (s, { h with
      pc := if maxConnectionsPerUser ≤ (s.pool.userConns h.userID).length then .ended
        else .accept })
  | .accept => (s, { h with pc := if ok then .add else .ended })
  | .add =>
    match s.pool.add connID h.userID with
    | none => (s, { h with pc := .ended })
    | some pool => ({ s with pool := pool }, { h with reader := .reading, pc := .loop })
  | .loop => (s, h.serve .remove ok)
  | .remove => ({ s with pool := s.pool.remove connID }, { h with pc := .ended })
  | .close => (s, h)
  | .ended => (s, h)

/-- `connCount[userID]--`, and no entry for zero. -/
def decrement (count : Int) : Int := if count - 1 ≤ 0 then 0 else count - 1

/-- `HandleWebSocket` -/
def execLegacy (s : Server) (h : Handler) (ok : Bool) : Server × Handler :=
  match h.pc with
  | .check =>
    if maxConnectionsPerUser ≤ s.connCount h.userID then (s, { h with pc := .ended })
    else
      ({ s with
        connCount := Function.update s.connCount h.userID (s.connCount h.userID + 1) },
        { h with pc := .accept })
  | .accept =>
    (s, if ok then { h with reader := .reading, pc := .loop }
      else { h with pc := .remove })
  | .loop => (s, h.serve .close ok)
  | .close => (s, { h with pc := .remove })
  | .remove =>
    ({ s with
      connCount := Function.update s.connCount h.userID (decrement (s.connCount h.userID)) },
      { h with pc := .ended })
  | .add => (s, h)
  | .ended => (s, h)

/-- The goroutine. Only the legacy one stops sending when its context is
cancelled. -/
def Handler.read (h : Handler) (message : Bool) : Handler :=
  match h.reader with
  | .reading =>
    if message then { h with reader := .sending } else { h with reader := .ended }
  | .sending =>
    if message then
      if h.queue < capacity then { h with queue := h.queue + 1, reader := .reading } else h
    else if h.route = .legacy ∧ h.cancelled = true then { h with reader := .ended } else h
  | .none => h
  | .ended => h

def service : Service Server Handler (Route × UserID) Outcome where
  world s request := (s, some (.arrived request.1 request.2))
  exec connID s h
    | .main ok =>
      match h.route with
      | .ws => execWS connID s h ok
      | .legacy => execLegacy s h ok
    | .reader message => (s, h.read message)

abbrev State := Calls.State Server Handler

abbrev Action := Calls.Action (Route × UserID) Outcome

def start : State := ⟨.start, []⟩

/-! ## What handlers hold -/

/-- It has a place in the pool. -/
def Handler.pooled (h : Handler) : Bool := h.route = .ws ∧ (h.pc = .loop ∨ h.pc = .remove)

/-- It is counted. -/
def Handler.counted (h : Handler) : Bool :=
  h.route = .legacy ∧ (h.pc = .accept ∨ h.pc = .loop ∨ h.pc = .close ∨ h.pc = .remove)

/-- **What a step does** to the pool and to the counter. -/
inductive Does (connID : ConnID) (s : Server) (h : Handler) : Server × Handler → Prop
  | keeps {h'} (huser : h'.userID = h.userID) (hpooled : h'.pooled = h.pooled)
      (hcounted : h'.counted = h.counted) : Does connID s h (s, h')
  | adds {h' pool} (hadd : s.pool.add connID h.userID = some pool)
      (huser : h'.userID = h.userID) (hbefore : h.pooled = false) (hafter : h'.pooled = true)
      (hcounted : h'.counted = h.counted) : Does connID s h ({ s with pool := pool }, h')
  | removes {h'} (huser : h'.userID = h.userID) (hbefore : h.pooled = true)
      (hafter : h'.pooled = false) (hcounted : h'.counted = h.counted) :
      Does connID s h ({ s with pool := s.pool.remove connID }, h')
  | counts {h'} (hroom : s.connCount h.userID < maxConnectionsPerUser)
      (huser : h'.userID = h.userID) (hpooled : h'.pooled = h.pooled)
      (hbefore : h.counted = false) (hafter : h'.counted = true) :
      Does connID s h
        ({ s with
          connCount := Function.update s.connCount h.userID (s.connCount h.userID + 1) }, h')
  | uncounts {h'} (huser : h'.userID = h.userID) (hpooled : h'.pooled = h.pooled)
      (hbefore : h.counted = true) (hafter : h'.counted = false) :
      Does connID s h
        ({ s with
          connCount := Function.update s.connCount h.userID
            (decrement (s.connCount h.userID)) }, h')

variable {s : State} {server : Server} {k : ConnID} {h : Handler} {o : Outcome} {userID : UserID}

theorem serve_same {next : Pc} {ok : Bool} :
    (h.serve next ok).route = h.route ∧ (h.serve next ok).userID = h.userID := by
  rw [Handler.serve]
  split
  · exact ⟨rfl, rfl⟩
  · exact ⟨rfl, rfl⟩

theorem serve_pc {next : Pc} {ok : Bool} (hpc : h.pc = .loop) :
    (h.serve next ok).pc = .loop ∨ (h.serve next ok).pc = next := by
  rw [Handler.serve]
  split
  · exact .inl hpc
  · exact .inr rfl

theorem does_ws {ok : Bool} (hroute : h.route = .ws) : Does k server h (execWS k server h ok) := by
  rw [execWS]
  split
  · rename_i hpc
    refine .keeps rfl ?_ ?_
    · simp only [Handler.pooled, hpc, hroute]
      split
      · rfl
      · rfl
    · simp [Handler.counted, hroute]
  · rename_i hpc
    refine .keeps rfl ?_ ?_
    · simp only [Handler.pooled, hpc, hroute]
      split
      · rfl
      · rfl
    · simp [Handler.counted, hroute]
  · rename_i hpc
    split
    · exact .keeps rfl (by simp [Handler.pooled, hpc]) (by simp [Handler.counted, hroute])
    · rename_i pool hadd
      exact .adds hadd rfl (by simp [Handler.pooled, hpc]) (by simp [Handler.pooled, hroute])
        (by simp [Handler.counted, hroute])
  · rename_i hpc
    refine .keeps serve_same.2 ?_ ?_
    · rcases @serve_pc h .remove ok hpc with hloop | hremove
      · simp [Handler.pooled, serve_same.1, hloop, hpc]
      · simp [Handler.pooled, serve_same.1, hremove, hpc]
    · simp [Handler.counted, serve_same.1, hroute]
  · rename_i hpc
    exact .removes rfl (by simp [Handler.pooled, hpc, hroute]) (by simp [Handler.pooled])
      (by simp [Handler.counted, hroute])
  · exact .keeps rfl rfl rfl
  · exact .keeps rfl rfl rfl

theorem does_legacy {ok : Bool} (hroute : h.route = .legacy) :
    Does k server h (execLegacy server h ok) := by
  rw [execLegacy]
  split
  · rename_i hpc
    split
    · exact .keeps rfl (by simp [Handler.pooled, hroute]) (by simp [Handler.counted, hpc])
    · rename_i hroom
      exact .counts (Int.not_le.mp hroom) rfl (by simp [Handler.pooled, hroute])
        (by simp [Handler.counted, hpc]) (by simp [Handler.counted, hroute])
  · rename_i hpc
    split
    · exact .keeps rfl (by simp [Handler.pooled, hroute]) (by simp [Handler.counted, hpc])
    · exact .keeps rfl (by simp [Handler.pooled, hroute]) (by simp [Handler.counted, hpc])
  · rename_i hpc
    refine .keeps serve_same.2 (by simp [Handler.pooled, serve_same.1, hroute]) ?_
    rcases @serve_pc h .close ok hpc with hloop | hclose
    · simp [Handler.counted, serve_same.1, hloop, hpc]
    · simp [Handler.counted, serve_same.1, hclose, hpc]
  · rename_i hpc
    exact .keeps rfl (by simp [Handler.pooled, hroute]) (by simp [Handler.counted, hpc])
  · rename_i hpc
    exact .uncounts rfl (by simp [Handler.pooled, hroute])
      (by simp [Handler.counted, hpc, hroute]) (by simp [Handler.counted])
  · exact .keeps rfl rfl rfl
  · exact .keeps rfl rfl rfl

/-- The goroutine changes neither the route nor the user nor the handler's
place. -/
theorem read_same {message : Bool} :
    (h.read message).route = h.route ∧ (h.read message).userID = h.userID
      ∧ (h.read message).pc = h.pc := by
  rw [Handler.read]
  split
  · split
    · exact ⟨rfl, rfl, rfl⟩
    · exact ⟨rfl, rfl, rfl⟩
  · split
    · split
      · exact ⟨rfl, rfl, rfl⟩
      · exact ⟨rfl, rfl, rfl⟩
    · split
      · exact ⟨rfl, rfl, rfl⟩
      · exact ⟨rfl, rfl, rfl⟩
  · exact ⟨rfl, rfl, rfl⟩
  · exact ⟨rfl, rfl, rfl⟩

theorem does_exec : Does k server h (service.exec k server h o) := by
  cases o with
  | main ok =>
    cases hroute : h.route with
    | ws =>
      simp only [service, hroute]
      exact does_ws hroute
    | legacy =>
      simp only [service, hroute]
      exact does_legacy hroute
  | reader message =>
    obtain ⟨hroute, huser, hpc⟩ := @read_same h message
    refine .keeps huser ?_ ?_
    · simp only [Handler.pooled, hroute, hpc]
    · simp only [Handler.counted, hroute, hpc]

theorem exec_userID : (service.exec k server h o).2.userID = h.userID := by
  have hdoes := @does_exec server k h o
  generalize service.exec k server h o = result at hdoes
  cases hdoes with
  | keeps huser => exact huser
  | adds _ huser => exact huser
  | removes huser => exact huser
  | counts _ huser => exact huser
  | uncounts huser => exact huser

/-! ## The pool and its places -/

/-- The pool has the places of `Place`, `n` of them for each user. -/
structure PoolOk (p : Pool) (Place : ConnID → UserID → Prop) (n : UserID → Nat) : Prop where
  entry : ∀ k u, p.connections k = some u ↔ Place k u
  member : ∀ k u, k ∈ p.userConns u ↔ Place k u
  nodup : ∀ u, (p.userConns u).Nodup
  length : ∀ u, (p.userConns u).length = n u
  room : ∀ u, n u ≤ maxConnectionsPerUser

variable {p p' : Pool} {Place Place' : ConnID → UserID → Prop} {n n' : UserID → Nat}

theorem PoolOk.same (hp : PoolOk p Place n) (hplace : ∀ k u, Place' k u ↔ Place k u)
    (hcount : ∀ u, n' u = n u) : PoolOk p Place' n' := by
  refine ⟨?_, ?_, hp.nodup, ?_, ?_⟩
  · intro k u
    rw [hplace]
    exact hp.entry k u
  · intro k u
    rw [hplace]
    exact hp.member k u
  · intro u
    rw [hcount]
    exact hp.length u
  · intro u
    rw [hcount]
    exact hp.room u

theorem PoolOk.add (hp : PoolOk p Place n) (hadd : p.add k userID = some p')
    (hfree : ∀ u, ¬Place k u) (hplace : ∀ j u, Place' j u ↔ (j = k ∧ u = userID) ∨ Place j u)
    (hcount : ∀ u, n' u = n u + if u = userID then 1 else 0) : PoolOk p' Place' n' := by
  have hnew : k ∉ p.userConns userID := fun hmem => hfree userID ((hp.member k userID).mp hmem)
  by_cases hroom : maxConnectionsPerUser ≤ (p.userConns userID).length
  · rw [Pool.add, if_pos hroom] at hadd
    cases hadd
  · rw [Pool.add, if_neg hroom, if_neg hnew] at hadd
    cases hadd
    refine ⟨?_, ?_, ?_, ?_, ?_⟩
    · intro j u
      rw [hplace]
      by_cases hj : j = k
      · subst hj
        simp only [Function.update_self, Option.some.injEq, true_and]
        constructor
        · exact fun heq => .inl heq.symm
        · rintro (rfl | hold)
          · rfl
          · exact absurd hold (hfree u)
      · simp only [Function.update_of_ne hj, hj, false_and, false_or]
        exact hp.entry j u
    · intro j u
      rw [hplace]
      by_cases hu : u = userID
      · subst hu
        simp only [Function.update_self, List.mem_cons, and_true]
        exact or_congr_right (hp.member j u)
      · simp only [Function.update_of_ne hu, hu, and_false, false_or]
        exact hp.member j u
    · intro u
      by_cases hu : u = userID
      · subst hu
        simp only [Function.update_self]
        exact List.nodup_cons.mpr ⟨hnew, hp.nodup u⟩
      · simp only [Function.update_of_ne hu]
        exact hp.nodup u
    · intro u
      rw [hcount]
      by_cases hu : u = userID
      · subst hu
        simp only [Function.update_self, List.length_cons, if_true, hp.length u]
      · simp only [Function.update_of_ne hu, if_neg hu, Nat.add_zero]
        exact hp.length u
    · intro u
      rw [hcount]
      by_cases hu : u = userID
      · subst hu
        rw [hp.length u] at hroom
        rw [if_pos rfl]
        omega
      · rw [if_neg hu, Nat.add_zero]
        exact hp.room u

theorem PoolOk.remove (hp : PoolOk p Place n) (htaken : Place k userID)
    (hplace : ∀ j u, Place' j u ↔ j ≠ k ∧ Place j u)
    (hcount : ∀ u, n' u + (if u = userID then 1 else 0) = n u) :
    PoolOk (p.remove k) Place' n' := by
  have hentry : p.connections k = some userID := (hp.entry k userID).mpr htaken
  have hmem : k ∈ p.userConns userID := (hp.member k userID).mpr htaken
  have hremove : p.remove k = ⟨Function.update p.connections k none,
      Function.update p.userConns userID ((p.userConns userID).erase k)⟩ := by
    simp only [Pool.remove, hentry]
  rw [hremove]
  refine ⟨?_, ?_, ?_, ?_, ?_⟩
  · intro j u
    rw [hplace]
    by_cases hj : j = k
    · subst hj
      simp only [Function.update_self, ne_eq, not_true_eq_false, false_and, reduceCtorEq]
    · simp only [Function.update_of_ne hj, ne_eq, hj, not_false_eq_true, true_and]
      exact hp.entry j u
  · intro j u
    rw [hplace]
    by_cases hu : u = userID
    · subst hu
      simp only [Function.update_self, (hp.nodup u).mem_erase_iff]
      exact and_congr_right fun _ => hp.member j u
    · simp only [Function.update_of_ne hu]
      rw [hp.member j u]
      constructor
      · intro hother
        refine ⟨?_, hother⟩
        rintro rfl
        -- a connection has one user
        have hother := (hp.entry j u).mpr hother
        rw [hentry] at hother
        exact hu (Option.some.inj hother).symm
      · exact fun hother => hother.2
  · intro u
    by_cases hu : u = userID
    · subst hu
      simp only [Function.update_self]
      exact (hp.nodup u).erase k
    · simp only [Function.update_of_ne hu]
      exact hp.nodup u
  · intro u
    have hlength := hp.length u
    have hbefore := hcount u
    by_cases hu : u = userID
    · subst hu
      rw [if_pos rfl] at hbefore
      simp only [Function.update_self, List.length_erase_of_mem hmem]
      omega
    · rw [if_neg hu] at hbefore
      simp only [Function.update_of_ne hu]
      omega
  · intro u
    have hbefore := hcount u
    have hroom := hp.room u
    omega

/-! ## All handlers -/

/-- Handlers with a place in the pool. -/
def Placed (s : State) (k : ConnID) (u : UserID) : Prop :=
  ∃ h, s.calls[k]? = some h ∧ h.pooled = true ∧ h.userID = u

/-- How many handlers of the user have the property. -/
def count (q : Handler → Bool) (s : State) (u : UserID) : Nat :=
  s.calls.countP fun h => q h && h.userID = u

/-- **The pool and the counter** have what the handlers hold. -/
structure Held (s : State) : Prop where
  pool : PoolOk s.store.pool (Placed s) (count Handler.pooled s)
  counter : ∀ u, s.store.connCount u = count Handler.counted s u
  room : ∀ u, count Handler.counted s u ≤ maxConnectionsPerUser

theorem start_held : Held start := by
  refine ⟨⟨?_, ?_, ?_, ?_, ?_⟩, fun _ => rfl, fun _ => Nat.zero_le _⟩
  · intro k u
    exact iff_of_false (by rintro ⟨⟩) (by rintro ⟨h, ⟨⟩, -⟩)
  · intro k u
    exact iff_of_false (by rintro ⟨⟩) (by rintro ⟨h, ⟨⟩, -⟩)
  · exact fun _ => List.nodup_nil
  · exact fun _ => rfl
  · exact fun _ => Nat.zero_le _

theorem count_world {q : Handler → Bool} (request : Route × UserID)
    (hq : q (.arrived request.1 request.2) = false) (u : UserID) :
    count q (service.step s (.world request)) u = count q s u := by
  have hcalls : (service.step s (.world request)).calls
      = s.calls ++ [.arrived request.1 request.2] := rfl
  rw [count, hcalls, List.countP_append, List.countP_singleton, hq, Bool.false_and,
    if_neg Bool.false_ne_true, Nat.add_zero]
  rfl

theorem held_world (hs : Held s) (request : Route × UserID) :
    Held (service.step s (.world request)) := by
  have hpooled : (Handler.arrived request.1 request.2).pooled = false := by
    simp [Handler.pooled, Handler.arrived]
  have hcounted : (Handler.arrived request.1 request.2).counted = false := by
    simp [Handler.counted, Handler.arrived]
  refine ⟨hs.pool.same ?_ ?_, ?_, ?_⟩
  · intro k u
    constructor
    · rintro ⟨h, hk, hplace, huser⟩
      rcases Service.of_step_world hk with hold | ⟨-, hnew⟩
      · exact ⟨h, hold, hplace, huser⟩
      · cases hnew
        rw [hpooled] at hplace
        cases hplace
    · rintro ⟨h, hk, hplace⟩
      exact ⟨h, Service.step_world_of hk request, hplace⟩
  · exact count_world request hpooled
  · intro u
    rw [count_world request hcounted]
    exact hs.counter u
  · intro u
    rw [count_world request hcounted]
    exact hs.room u

/-- A handler after its step, and the others as they were. -/
structure Steps (s : State) (k : ConnID) (h : Handler) (result : Server × Handler)
    (next : State) : Prop where
  before : s.calls[k]? = some h
  store : next.store = result.1
  self : next.calls[k]? = some result.2
  others : ∀ j, j ≠ k → next.calls[j]? = s.calls[j]?
  count : ∀ q u, count q next u + (if q h && h.userID = u then 1 else 0)
    = count q s u + if q result.2 && result.2.userID = u then 1 else 0

theorem steps_exec (hk : s.calls[k]? = some h) (o : Outcome) :
    Steps s k h (service.exec k s.store h o) (service.step s (.exec k o)) where
  before := hk
  store := Service.step_exec_store hk o
  self := Service.step_exec_self hk o
  others _ hj := Service.step_exec_ne hj o
  count q u := Service.countP_exec (fun h : Handler => q h && h.userID = u) hk o

theorem placed_self (hk : s.calls[k]? = some h) :
    Placed s k userID ↔ h.pooled = true ∧ h.userID = userID := by
  constructor
  · rintro ⟨h', hk', hplace⟩
    rw [hk] at hk'
    cases hk'
    exact hplace
  · exact fun hplace => ⟨h, hk, hplace⟩

section Steps

variable {result : Server × Handler} {next : State} {q : Handler → Bool}

theorem Steps.placed_ne (hsteps : Steps s k h result next) {j : ConnID} (hj : j ≠ k)
    {u : UserID} : Placed next j u ↔ Placed s j u := by
  rw [Placed, Placed, hsteps.others j hj]

theorem Steps.count_same (hsteps : Steps s k h result next)
    (huser : result.2.userID = h.userID) (hq : q result.2 = q h) (u : UserID) :
    SyncConnections.count q next u = SyncConnections.count q s u := by
  have hcount := hsteps.count q u
  rw [huser, hq] at hcount
  omega

theorem Steps.count_more (hsteps : Steps s k h result next)
    (huser : result.2.userID = h.userID) (hbefore : q h = false) (hafter : q result.2 = true)
    (u : UserID) : SyncConnections.count q next u
      = SyncConnections.count q s u + if u = h.userID then 1 else 0 := by
  have hcount := hsteps.count q u
  rw [huser, hbefore, hafter] at hcount
  by_cases hu : h.userID = u
  · simpa [hu] using hcount
  · simpa [hu, Ne.symm hu] using hcount

theorem Steps.count_less (hsteps : Steps s k h result next) (hbefore : q h = true)
    (hafter : q result.2 = false) (u : UserID) :
    SyncConnections.count q next u + (if u = h.userID then 1 else 0)
      = SyncConnections.count q s u := by
  have hcount := hsteps.count q u
  rw [hbefore, hafter] at hcount
  by_cases hu : h.userID = u
  · simpa [hu] using hcount
  · simpa [hu, Ne.symm hu] using hcount

theorem Steps.pool_same (hsteps : Steps s k h result next) (hs : Held s)
    (huser : result.2.userID = h.userID) (hpooled : result.2.pooled = h.pooled) :
    PoolOk s.store.pool (Placed next) (SyncConnections.count Handler.pooled next) := by
  refine hs.pool.same ?_ (hsteps.count_same huser hpooled)
  intro j u
  by_cases hj : j = k
  · subst hj
    rw [placed_self hsteps.self, placed_self hsteps.before, huser, hpooled]
  · exact hsteps.placed_ne hj

theorem Steps.held (hsteps : Steps s k h result next) (hs : Held s)
    (huser : result.2.userID = h.userID) (hcounted : result.2.counted = h.counted)
    (hcounter : result.1.connCount = s.store.connCount)
    (hpool : PoolOk result.1.pool (Placed next) (SyncConnections.count Handler.pooled next)) :
    Held next := by
  refine ⟨?_, ?_, ?_⟩
  · rw [hsteps.store]
    exact hpool
  · intro u
    rw [hsteps.store, hcounter, hsteps.count_same huser hcounted u]
    exact hs.counter u
  · intro u
    rw [hsteps.count_same huser hcounted u]
    exact hs.room u

end Steps

theorem held_exec (hs : Held s) (hk : s.calls[k]? = some h) (o : Outcome) :
    Held (service.step s (.exec k o)) := by
  have hdoes := @does_exec s.store k h o
  have hsteps := steps_exec hk o
  generalize service.exec k s.store h o = result at hdoes hsteps
  generalize service.step s (.exec k o) = next at hsteps
  cases hdoes with
  | keeps huser hpooled hcounted =>
    exact hsteps.held hs huser hcounted rfl (hsteps.pool_same hs huser hpooled)
  | adds hadd huser hbefore hafter hcounted =>
    refine hsteps.held hs huser hcounted rfl ?_
    refine hs.pool.add hadd ?_ ?_ (hsteps.count_more huser hbefore hafter)
    · intro u hplace
      rw [placed_self hk, hbefore] at hplace
      cases hplace.1
    · intro j u
      by_cases hj : j = k
      · subst hj
        rw [placed_self hsteps.self, placed_self hk, hbefore, hafter, huser]
        simp only [true_and, Bool.false_eq_true, false_and, or_false, eq_comm]
      · rw [hsteps.placed_ne hj]
        simp only [hj, false_and, false_or]
  | removes huser hbefore hafter hcounted =>
    refine hsteps.held hs huser hcounted rfl ?_
    refine hs.pool.remove ((placed_self hk).mpr ⟨hbefore, rfl⟩) ?_
      (hsteps.count_less hbefore hafter)
    intro j u
    by_cases hj : j = k
    · subst hj
      rw [placed_self hsteps.self, hafter]
      simp only [Bool.false_eq_true, false_and, ne_eq, not_true_eq_false]
    · rw [hsteps.placed_ne hj]
      simp only [ne_eq, hj, not_false_eq_true, true_and]
  | counts hroom huser hpooled hbefore hafter =>
    have hcount := hsteps.count_more huser hbefore hafter
    rw [hs.counter] at hroom
    refine ⟨?_, ?_, ?_⟩
    · rw [hsteps.store]
      exact hsteps.pool_same hs huser hpooled
    · intro u
      rw [hsteps.store, hcount]
      by_cases hu : u = h.userID
      · subst hu
        simp only [Function.update_self, hs.counter, if_true]
        rfl
      · simp only [Function.update_of_ne hu, if_neg hu, Nat.add_zero]
        exact hs.counter u
    · intro u
      have hold := hs.room u
      rw [hcount]
      by_cases hu : u = h.userID
      · subst hu
        rw [if_pos rfl]
        omega
      · rw [if_neg hu]
        exact hold
  | uncounts huser hpooled hbefore hafter =>
    have hcount := hsteps.count_less hbefore hafter
    refine ⟨?_, ?_, ?_⟩
    · rw [hsteps.store]
      exact hsteps.pool_same hs huser hpooled
    · intro u
      have hold := hcount u
      have hcounter := hs.counter u
      rw [hsteps.store]
      by_cases hu : u = h.userID
      · subst hu
        rw [if_pos rfl] at hold
        simp only [Function.update_self, hcounter, decrement]
        split
        · omega
        · omega
      · rw [if_neg hu, Nat.add_zero] at hold
        rw [hold]
        simp only [Function.update_of_ne hu]
        exact hcounter
    · intro u
      have hold := hcount u
      have hroom := hs.room u
      omega

theorem held_run (actions : List Action) : Held (service.run start actions) :=
  Service.preserves (fun _ request hs _ => held_world hs request)
    (fun _ _ _ o hs _ hk => held_exec hs hk o)
    (each_of_free (fun _ _ => trivial) actions start) start_held

/-- **What is served**: the pool has the handlers of the first route that are
being served, the counter counts those of the other, five of each for a user at
most. -/
theorem connections_held (actions : List Action) (u : UserID) :
    let s := service.run start actions
    (∀ k, s.store.pool.connections k = some u ↔ Placed s k u)
      ∧ (∀ k, k ∈ s.store.pool.userConns u ↔ Placed s k u)
      ∧ (s.store.pool.userConns u).length = count Handler.pooled s u
      ∧ count Handler.pooled s u ≤ maxConnectionsPerUser
      ∧ s.store.connCount u = count Handler.counted s u
      ∧ count Handler.counted s u ≤ maxConnectionsPerUser := by
  intro s
  have hs : Held s := held_run actions
  exact ⟨fun k => hs.pool.entry k u, fun k => hs.pool.member k u, hs.pool.length u,
    hs.pool.room u, hs.counter u, hs.room u⟩

/-! ## Goroutines that are left behind -/

/-- The handler has left its loop, or never came to it. -/
def Handler.left (h : Handler) : Bool := h.pc = .close ∨ h.pc = .remove ∨ h.pc = .ended

/-- Nobody empties the channel that its goroutine sends to. -/
def Handler.waits (h : Handler) : Bool :=
  h.route = .ws ∧ h.left = true ∧ h.reader = .sending ∧ capacity ≤ h.queue

theorem waits_iff : h.waits = true ↔
    h.route = .ws ∧ h.left = true ∧ h.reader = .sending ∧ capacity ≤ h.queue := by
  rw [Handler.waits, decide_eq_true_iff]

theorem waits_exec (k : ConnID) (server : Server) (h : Handler) (o : Outcome)
    (hwaits : h.waits = true) : (service.exec k server h o).2.waits = true := by
  obtain ⟨hroute, hleft, hreader, hfull⟩ := waits_iff.mp hwaits
  cases o with
  | main ok =>
    simp only [service, hroute]
    simp only [Handler.left, decide_eq_true_eq] at hleft
    rcases hleft with hpc | hpc | hpc
    · simp only [execWS, hpc]
      exact hwaits
    · simp only [execWS, hpc]
      exact waits_iff.mpr ⟨hroute, by simp [Handler.left], hreader, hfull⟩
    · simp only [execWS, hpc]
      exact hwaits
  | reader message =>
    simp only [service, Handler.read, hreader]
    split
    · rw [if_neg (Nat.not_lt.mpr hfull)]
      exact hwaits
    · rw [if_neg (by simp [hroute])]
      exact hwaits

theorem waits_forever (hk : s.calls[k]? = some h) (hwaits : h.waits = true)
    (actions : List Action) :
    ∃ h', (service.run s actions).calls[k]? = some h' ∧ h'.waits = true :=
  Service.stays (waits_exec k) actions hk hwaits

/-- A legacy goroutine runs beside its loop, or with its context cancelled. -/
def Handler.Cancels (h : Handler) : Prop :=
  h.route = .legacy → h.reader ≠ .none → h.pc = .loop ∨ h.cancelled = true

theorem execWS_route {ok : Bool} : (execWS k server h ok).2.route = h.route := by
  rw [execWS]
  split
  · rfl
  · rfl
  · split
    · rfl
    · rfl
  · exact serve_same.1
  · rfl
  · rfl
  · rfl

theorem Handler.Cancels.cancelled (hcancels : h.Cancels) (hpc : h.pc ≠ .loop)
    (hroute : h.route = .legacy) (hreader : h.reader ≠ .none) : h.cancelled = true := by
  rcases hcancels hroute hreader with hloop | hcancelled
  · exact absurd hloop hpc
  · exact hcancelled

theorem cancels_legacy {ok : Bool} (hcancels : h.Cancels) :
    (execLegacy server h ok).2.Cancels := by
  rw [execLegacy]
  split
  · rename_i hpc
    have hcancelled := hcancels.cancelled (by simp [hpc])
    split
    · exact fun hroute hreader => .inr (hcancelled hroute hreader)
    · exact fun hroute hreader => .inr (hcancelled hroute hreader)
  · rename_i hpc
    have hcancelled := hcancels.cancelled (by simp [hpc])
    cases ok with
    | true => exact fun _ _ => .inl rfl
    | false => exact fun hroute hreader => .inr (hcancelled hroute hreader)
  · rename_i hpc
    simp only [Handler.serve]
    split
    · exact fun _ _ => .inl hpc
    · exact fun _ _ => .inr rfl
  · rename_i hpc
    exact fun hroute hreader => .inr (hcancels.cancelled (by simp [hpc]) hroute hreader)
  · rename_i hpc
    exact fun hroute hreader => .inr (hcancels.cancelled (by simp [hpc]) hroute hreader)
  · exact hcancels
  · exact hcancels

theorem cancels_read {message : Bool} (hcancels : h.Cancels) : (h.read message).Cancels := by
  rw [Handler.read]
  split
  · rename_i hreader
    have hsome : h.reader ≠ .none := by simp [hreader]
    split
    · exact fun hroute _ => hcancels hroute hsome
    · exact fun hroute _ => hcancels hroute hsome
  · rename_i hreader
    have hsome : h.reader ≠ .none := by simp [hreader]
    split
    · split
      · exact fun hroute _ => hcancels hroute hsome
      · exact hcancels
    · split
      · exact fun hroute _ => hcancels hroute hsome
      · exact hcancels
  · exact hcancels
  · exact hcancels

theorem cancels_exec (k : ConnID) (server : Server) (o : Outcome) (hcancels : h.Cancels) :
    (service.exec k server h o).2.Cancels := by
  cases o with
  | main ok =>
    cases hroute : h.route with
    | ws =>
      simp only [service, hroute]
      intro hlegacy
      rw [execWS_route, hroute] at hlegacy
      cases hlegacy
    | legacy =>
      simp only [service, hroute]
      exact cancels_legacy hcancels
  | reader message => exact cancels_read hcancels

theorem cancels_run (actions : List Action)
    (hk : (service.run start actions).calls[k]? = some h) : h.Cancels := by
  have hholds : Holds (fun _ => True) (fun _ _ h => h.Cancels) (service.run start actions) := by
    refine Holds.run ?_ ?_ (each_of_free (fun _ _ => trivial) actions start) (.initial trivial)
    · intro s request hs _
      refine ⟨trivial, fun _ _ _ hcancels => hcancels, ?_⟩
      rintro h ⟨⟩ - hreader
      exact absurd rfl hreader
    · intro s k h o hs _ hk
      exact ⟨trivial, cancels_exec k s.store o (hs.call k h hk), fun _ _ _ _ hcancels => hcancels⟩
  exact hholds.call k h hk

/-- **When a goroutine comes to its end** after its handler has left: unless it
waits to send to a full channel with no way out. -/
theorem ends_iff (actions : List Action)
    (hk : (service.run start actions).calls[k]? = some h) (hleft : h.left = true)
    (hreader : h.reader ≠ .none) :
    (∃ more h', (service.run start (actions ++ more)).calls[k]? = some h' ∧ h'.reader = .ended)
      ↔ ¬(h.route = .ws ∧ h.reader = .sending ∧ capacity ≤ h.queue) := by
  constructor
  · rintro ⟨more, h', hk', hended⟩ ⟨hroute, hsending, hfull⟩
    obtain ⟨h'', hk'', hwaits⟩ :=
      waits_forever hk (waits_iff.mpr ⟨hroute, hleft, hsending, hfull⟩) more
    rw [Service.run_append, hk''] at hk'
    cases hk'
    obtain ⟨-, -, hsending', -⟩ := waits_iff.mp hwaits
    rw [hsending'] at hended
    cases hended
  · intro hnot
    have hends : ∀ {s : State} {h : Handler}, s.calls[k]? = some h → h.reader = .reading →
        (service.step s (.exec k (.reader false))).calls[k]?
          = some { h with reader := .ended } := by
      intro s h hk hreading
      rw [Service.step_exec_self hk]
      simp [service, Handler.read, hreading]
    cases hkind : h.reader with
    | none => exact absurd hkind hreader
    | reading =>
      refine ⟨[.exec k (.reader false)], { h with reader := .ended }, ?_, rfl⟩
      rw [Service.run_append]
      exact hends hk hkind
    | sending =>
      by_cases hroom : h.queue < capacity
      · refine ⟨[.exec k (.reader true), .exec k (.reader false)],
          { h with queue := h.queue + 1, reader := .ended }, ?_, rfl⟩
        rw [Service.run_append]
        refine hends (h := { h with queue := h.queue + 1, reader := .reading }) ?_ rfl
        rw [Service.step_exec_self hk]
        simp [service, Handler.read, hkind, hroom]
      · have hroute : h.route = .legacy := by
          cases hroute : h.route with
          | ws => exact absurd ⟨hroute, hkind, Nat.le_of_not_lt hroom⟩ hnot
          | legacy => rfl
        have hcancelled : h.cancelled = true := by
          refine (cancels_run actions hk).cancelled ?_ hroute hreader
          intro hloop
          simp [Handler.left, hloop] at hleft
        refine ⟨[.exec k (.reader false)], { h with reader := .ended }, ?_, rfl⟩
        rw [Service.run_append, Service.run_cons, Service.run_nil, Service.step_exec_self hk]
        simp [service, Handler.read, hkind, hroute, hcancelled]
    | ended => exact ⟨[], h, by rw [List.append_nil, hk], hkind⟩

theorem ends_iff_sample :
    (∃ more h', (service.run start (([.world (.legacy, 7), .exec 0 (.main true),
        .exec 0 (.main true), .exec 0 (.reader true), .exec 0 (.main false)] : List Action)
          ++ more)).calls[0]? = some h' ∧ h'.reader = .ended)
      ↔ ¬(Route.legacy = .ws ∧ Reader.sending = .sending ∧ capacity ≤ 0) :=
  @ends_iff 0 ⟨.legacy, 7, .close, .sending, 0, true⟩
    [.world (.legacy, 7), .exec 0 (.main true), .exec 0 (.main true), .exec 0 (.reader true),
      .exec 0 (.main false)] rfl rfl (by decide)

/-! ## Any number of them -/

/-- A handler whose goroutine has read 17 messages while it handled none. -/
def leftBehind (userID : UserID) : Handler := ⟨.ws, userID, .ended, .sending, capacity, true⟩

/-- The handler is served, its goroutine reads and sends, and the handler
leaves. -/
def turn (k : ConnID) : List Action :=
  (List.replicate 3 (.exec k (.main true)) : List Action)
    ++ ((List.replicate (2 * capacity) (.exec k (.reader true)) : List Action)
      ++ ([.exec k (.reader true), .exec k (.main false), .exec k (.main true)] : List Action))

theorem fill_run {store : Server} (n : Nat) : ∀ {calls : List Handler} {h : Handler},
    calls[k]? = some h → h.reader = .reading → h.queue + n ≤ capacity →
    service.run ⟨store, calls⟩ (List.replicate (2 * n) (.exec k (.reader true)))
      = ⟨store, calls.set k { h with queue := h.queue + n }⟩ := by
  induction n with
  | zero =>
    intro calls h hk _ _
    obtain ⟨hlt, rfl⟩ := List.getElem?_eq_some_iff.mp hk
    show (⟨store, calls⟩ : State) = ⟨store, calls.set k calls[k]⟩
    rw [List.set_getElem_self]
  | succ n ih =>
    intro calls h hk hreading hroom
    have hlt : k < calls.length := (List.getElem?_eq_some_iff.mp hk).1
    have hself : ∀ h' : Handler, (calls.set k h')[k]? = some h' :=
      fun h' => List.getElem?_set_self hlt
    have hread : service.exec k store h (.reader true)
        = (store, { h with reader := .sending }) := by
      simp [service, Handler.read, hreading]
    have hsend : service.exec k store { h with reader := .sending } (.reader true)
        = (store, { h with queue := h.queue + 1, reader := .reading }) := by
      simp only [service, Handler.read, if_true]
      rw [if_pos (by omega)]
    have hcount : 2 * (n + 1) = 2 * n + 1 + 1 := by omega
    rw [hcount, List.replicate_succ, List.replicate_succ, Service.run_exec hk hread,
      Service.run_exec (hself _) hsend, List.set_set, ih (hself _) rfl (by simp only; omega),
      List.set_set]
    congr 2
    simp only [hreading, Nat.add_assoc, Nat.add_comm 1 n]

theorem empty_add_remove (k : ConnID) (u : UserID) :
    ∃ pool, Pool.empty.add k u = some pool ∧ pool.remove k = Pool.empty := by
  refine ⟨_, rfl, ?_⟩
  simp only [Pool.empty, Pool.remove, Function.update_self, Function.update_idem,
    List.not_mem_nil, if_false, List.erase_cons_head]
  rw [Function.update_eq_self_iff.mpr rfl, Function.update_eq_self_iff.mpr rfl]

theorem turn_run {calls : List Handler} {u : UserID} (hk : calls[k]? = some (.arrived .ws u)) :
    service.run ⟨.start, calls⟩ (turn k) = ⟨.start, calls.set k (leftBehind u)⟩ := by
  obtain ⟨pool, hadd, hremove⟩ := empty_add_remove k u
  have hlt : k < calls.length := (List.getElem?_eq_some_iff.mp hk).1
  have hself : ∀ h' : Handler, (calls.set k h')[k]? = some h' :=
    fun h' => List.getElem?_set_self hlt
  have hcheck : service.exec k .start (.arrived .ws u) (.main true)
      = (.start, ⟨.ws, u, .accept, .none, 0, false⟩) := rfl
  have haccept : service.exec k .start ⟨.ws, u, .accept, .none, 0, false⟩ (.main true)
      = (.start, ⟨.ws, u, .add, .none, 0, false⟩) := rfl
  have hloop : service.exec k .start ⟨.ws, u, .add, .none, 0, false⟩ (.main true)
      = (⟨pool, fun _ => 0⟩, ⟨.ws, u, .loop, .reading, 0, false⟩) := by
    simp only [service, execWS, Server.start, hadd]
  have hread : service.exec k ⟨pool, fun _ => 0⟩ ⟨.ws, u, .loop, .reading, capacity, false⟩
      (.reader true) = (⟨pool, fun _ => 0⟩, ⟨.ws, u, .loop, .sending, capacity, false⟩) := rfl
  have hleave : service.exec k ⟨pool, fun _ => 0⟩ ⟨.ws, u, .loop, .sending, capacity, false⟩
      (.main false) = (⟨pool, fun _ => 0⟩, ⟨.ws, u, .remove, .sending, capacity, true⟩) := rfl
  have hend : service.exec k ⟨pool, fun _ => 0⟩ ⟨.ws, u, .remove, .sending, capacity, true⟩
      (.main true) = (.start, leftBehind u) := by
    simp only [service, execWS, hremove]
    rfl
  have hchecks : service.run ⟨.start, calls⟩ (List.replicate 3 (.exec k (.main true)))
      = ⟨⟨pool, fun _ => 0⟩, calls.set k ⟨.ws, u, .loop, .reading, 0, false⟩⟩ := by
    rw [List.replicate_succ, Service.run_exec hk hcheck, List.replicate_succ,
      Service.run_exec (hself _) haccept, List.set_set, List.replicate_succ,
      Service.run_exec (hself _) hloop, List.set_set]
    rfl
  have hfill : service.run ⟨⟨pool, fun _ => 0⟩, calls.set k ⟨.ws, u, .loop, .reading, 0, false⟩⟩
      (List.replicate (2 * capacity) (.exec k (.reader true)))
        = ⟨⟨pool, fun _ => 0⟩, calls.set k ⟨.ws, u, .loop, .reading, capacity, false⟩⟩ := by
    rw [fill_run capacity (hself _) rfl (Nat.le_of_eq (Nat.zero_add capacity)), List.set_set]
    rfl
  rw [turn, Service.run_append, Service.run_append, hchecks, hfill,
    Service.run_exec (hself _) hread, List.set_set, Service.run_exec (hself _) hleave,
    List.set_set, Service.run_exec (hself _) hend, List.set_set]
  rfl

/-- The handlers of the user whose goroutines wait for good. -/
def waiting (s : State) (u : UserID) : Nat := count Handler.waits s u

def flood (n : Nat) (u : UserID) : List Action :=
  List.replicate n (.world (.ws, u)) ++ (List.range n).flatMap turn

theorem flood_run (n : Nat) (u : UserID) :
    service.run start (flood n u) = ⟨.start, List.replicate n (leftBehind u)⟩ := by
  have harrive : service.world .start (Route.ws, u) = (.start, some (.arrived .ws u)) := rfl
  have hturns := @Service.run_in_turn _ _ _ _ service (.arrived .ws u) n (fun _ => .start) turn
    (fun _ => leftBehind u) (fun _ _ _ hk => turn_run hk) n (Nat.le_refl n)
  rw [Nat.sub_self, List.replicate_zero, List.append_nil, List.map_const',
    List.length_range] at hturns
  rw [flood, Service.run_append, start, Service.run_arrive harrive, List.nil_append]
  exact hturns

/-- **Any number of goroutines** of a user, of whose connections the pool has
none, wait for good. -/
theorem goroutines_unbounded (n : Nat) (u : UserID) :
    ∃ actions, (service.run start actions).store.pool.userConns u = []
      ∧ waiting (service.run start actions) u = n
      ∧ ∀ more, n ≤ waiting (service.run start (actions ++ more)) u := by
  have hwaits : waiting (service.run start (flood n u)) u = n := by
    have hleft : ((leftBehind u).waits && (leftBehind u).userID = u) = true := by
      simp [leftBehind, Handler.waits, Handler.left]
    rw [flood_run, waiting, count, List.countP_replicate, if_pos hleft]
  refine ⟨flood n u, ?_, hwaits, ?_⟩
  · rw [flood_run]
    rfl
  · intro more
    rw [Service.run_append]
    refine Nat.le_trans (Nat.le_of_eq hwaits.symm) (Service.countP_le_run ?_ more _)
    intro k server h o hh
    rw [Bool.and_eq_true, decide_eq_true_iff] at hh ⊢
    exact ⟨waits_exec k server h o hh.1, exec_userID.trans hh.2⟩

end UsbVault.SyncConnections
