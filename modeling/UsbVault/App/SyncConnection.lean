import UsbVault.Lib.Run

/-!
# The sync connection

The sync service holds one WebSocket at a time and opens another when it
closes. Events of a socket that has been replaced, a reconnect timer that is
still set and the network's return write the same fields as those of the
current socket.

`Truthful` says that the service reports a connection just when its current
socket is open, that one socket at most is live, and that none is opened
between a disconnect and the next connect. It holds along every run whose
steps meet `Orderly` (`truthful_run`).
-/

namespace UsbVault.App.SyncConnection

/-- `readyState` -/
inductive ReadyState where
  | connecting | open | closing | closed
  deriving DecidableEq, Repr

/-- A socket is the number of the constructor call that has made it, `_ws` the
current one. A timer that is set may fire. `strayPongTimers` counts the pong
timers whose handle was written over, and `lateReconnects`, of which the code
knows nothing, the attempts to reconnect after a disconnect. -/
structure State where
  sockets : List ReadyState
  ws : Option Nat
  wsUrl : Option String
  authToken : Option String
  wsConnected : Bool
  isOnline : Bool
  intentionalClose : Bool
  reconnectAttempt : Nat
  maxAttempts : Option Nat
  reconnectTimer : Bool
  pingInterval : Bool
  pongTimer : Bool
  strayPongTimers : Nat
  lateReconnects : Nat
  deriving DecidableEq, Repr

/-- `DEFAULT_RECONNECT` never gives up. -/
def State.initial : State :=
  ⟨[], none, none, none, false, true, false, 0, none, false, false, false, 0, 0⟩

def truthy (text : Option String) : Bool := text.any (· ≠ "")

namespace State

def readyState (s : State) (i : Nat) : Option ReadyState := s.sockets[i]?

def setReadyState (s : State) (i : Nat) (r : ReadyState) : State :=
  { s with sockets := s.sockets.set i r }

/-- `close` of a socket: its close event is still to come. -/
def close (s : State) (i : Nat) : State :=
  match s.readyState i with
  | some .connecting | some .open => s.setReadyState i .closing
  | _ => s

def scheduleReconnect (s : State) : State := { s with reconnectTimer := true }

def handleDisconnect (s : State) : State :=
  if s.intentionalClose then s
  else if ∃ n ∈ s.maxAttempts, n ≤ s.reconnectAttempt then s
  else s.scheduleReconnect

/-- `_openWebSocket`; the constructor may throw. -/
def openWebSocket (constructs : Bool) (s : State) : State :=
  if truthy s.wsUrl = false ∨ truthy s.authToken = false then s
  else if constructs = false then s.handleDisconnect
  else { s with sockets := s.sockets ++ [.connecting], ws := some s.sockets.length }

def stopHeartbeat (s : State) : State := { s with pingInterval := false, pongTimer := false }

def startHeartbeat (s : State) : State := { s.stopHeartbeat with pingInterval := true }

def connect (wsUrl token : String) (constructs : Bool) (s : State) : State :=
  { s with
    wsUrl := some wsUrl
    authToken := some token
    intentionalClose := false
    reconnectAttempt := 0 }.openWebSocket constructs

def disconnect (s : State) : State :=
  let s := { s with intentionalClose := true, reconnectTimer := false }.stopHeartbeat
  match s.ws with
  | some i => { s.close i with ws := none, wsConnected := false }
  | none => { s with wsConnected := false }

def onopen (s : State) : State :=
  { s with wsConnected := true, reconnectAttempt := 0 }.startHeartbeat

def onclose (s : State) : State :=
  let s := { s with wsConnected := false }.stopHeartbeat
  if s.intentionalClose then s else s.handleDisconnect

/-- The reconnect timer fires. -/
def reconnect (constructs : Bool) (s : State) : State :=
  { s with
    reconnectTimer := false
    reconnectAttempt := s.reconnectAttempt + 1
    lateReconnects := s.lateReconnects + if s.intentionalClose then 1 else 0
    }.openWebSocket constructs

/-- The ping interval fires; the send may throw. -/
def ping (sends : Bool) (s : State) : State :=
  if (∃ i ∈ s.ws, s.readyState i = some .open) ∧ sends then
    { s with
      strayPongTimers := s.strayPongTimers + if s.pongTimer then 1 else 0
      pongTimer := true }
  else s

def pongTimeout (s : State) : State :=
  match s.ws with
  | some i => s.close i
  | none => s

def onlineHandler (s : State) : State :=
  let s := { s with isOnline := true }
  if s.wsConnected = false ∧ truthy s.wsUrl then s.scheduleReconnect else s

end State

/-! ## Runs -/

/-- Of a socket: it opens, it sends a pong, it begins to close, it closes, or it
has an error. -/
inductive Action where
  | connect (wsUrl token : String) (constructs : Bool)
  | disconnect
  | opened (i : Nat)
  | pong (i : Nat)
  | closing (i : Nat)
  | closed (i : Nat)
  | error (i : Nat)
  | online
  | offline
  | reconnect (constructs : Bool)
  | ping (sends : Bool)
  | pongTimeout
  | strayPongTimeout
  deriving DecidableEq, Repr

def step (s : State) : Action → State
  | .connect wsUrl token constructs => s.connect wsUrl token constructs
  | .disconnect => s.disconnect
  | .opened i =>
    if s.readyState i = some .connecting then (s.setReadyState i .open).onopen else s
  | .pong i => if s.readyState i = some .open then { s with pongTimer := false } else s
  | .closing i => s.close i
  | .closed i =>
    if ∃ r ∈ s.readyState i, r ≠ .closed then (s.setReadyState i .closed).onclose else s
  | .error _ => s
  | .online => s.onlineHandler
  | .offline => { s with isOnline := false }
  | .reconnect constructs => if s.reconnectTimer then s.reconnect constructs else s
  | .ping sends => if s.pingInterval then s.ping sends else s
  | .pongTimeout => if s.pongTimer then { s with pongTimer := false }.pongTimeout else s
  | .strayPongTimeout =>
    if s.strayPongTimers = 0 then s
    else { s with strayPongTimers := s.strayPongTimers - 1 }.pongTimeout

/-- A socket that is open, or about to be. -/
def Live (s : State) (i : Nat) : Prop :=
  s.readyState i = some .connecting ∨ s.readyState i = some .open

structure Truthful (s : State) : Prop where
  connected : s.wsConnected ↔ ∃ i ∈ s.ws, s.readyState i = some .open
  single : ∀ i j, Live s i → Live s j → i = j
  quiet : s.lateReconnects = 0

/-- `connect` is called when every socket has had its close event and no timer
is set. The network's return finds the service connected or never connected, or
not disconnected on purpose and with every socket closed. An open socket closes
at once. -/
def Orderly (s : State) : Action → Prop
  | .connect .. => s.reconnectTimer = false ∧ ∀ r ∈ s.sockets, r = .closed
  | .online => s.wsConnected ∨ truthy s.wsUrl = false
      ∨ s.intentionalClose = false ∧ ∀ r ∈ s.sockets, r = .closed
  | .closing i => s.readyState i ≠ some .open
  | .pongTimeout => s.pongTimer → ∀ i ∈ s.ws, s.readyState i ≠ some .open
  | .strayPongTimeout => 0 < s.strayPongTimers → ∀ i ∈ s.ws, s.readyState i ≠ some .open
  | _ => True

/-! ## The invariant -/

def AllClosed (s : State) : Prop := ∀ r ∈ s.sockets, r = .closed

/-- A socket that is not closed is the current one, or was closed by a
disconnect; and a reconnect timer is set only when every socket is closed. -/
structure Inv (s : State) : Prop where
  connected : s.wsConnected ↔ ∃ i ∈ s.ws, s.readyState i = some .open
  current : ∀ i r, s.readyState i = some r → r ≠ .closed →
    s.ws = some i ∨ s.intentionalClose ∧ r = .closing
  detached : s.intentionalClose → s.ws = none
  timer : s.reconnectTimer → s.intentionalClose = false ∧ AllClosed s
  quiet : s.lateReconnects = 0

variable {s : State} {i j : Nat} {r : ReadyState}

theorem AllClosed.readyState (h : AllClosed s) (hi : s.readyState i = some r) : r = .closed :=
  h r (List.mem_of_getElem? hi)

theorem State.readyState_setReadyState (s : State) (i j : Nat) (r : ReadyState) :
    (s.setReadyState i r).readyState j
      = if i = j then (s.readyState j).map (fun _ => r) else s.readyState j := by
  rw [State.setReadyState, State.readyState, State.readyState, List.getElem?_set]
  split
  · rename_i heq
    subst heq
    cases hj : s.sockets[i]? with
    | none => simp [List.getElem?_eq_none_iff.mp hj]
    | some r' => simp [(List.getElem?_eq_some_iff.mp hj).1]
  · rfl

/-- `close` leaves a socket closing or as it is. -/
theorem State.close_cases (s : State) (i : Nat) :
    s.close i = s ∧ ¬Live s i ∨ s.close i = s.setReadyState i .closing ∧ Live s i := by
  unfold State.close Live
  split
  · rename_i hi
    exact .inr ⟨rfl, .inl hi⟩
  · rename_i hi
    exact .inr ⟨rfl, .inr hi⟩
  · rename_i hconnecting hopen
    exact .inl ⟨rfl, fun hlive => hlive.elim hconnecting hopen⟩

theorem Inv.live (h : Inv s) (hlive : Live s i) : s.ws = some i := by
  rcases hlive with hi | hi
  · exact (h.current i _ hi (by decide)).resolve_right fun hclosing => by cases hclosing.2
  · exact (h.current i _ hi (by decide)).resolve_right fun hclosing => by cases hclosing.2

theorem Inv.truthful (h : Inv s) : Truthful s where
  connected := h.connected
  single := fun _ _ hi hj => Option.some.inj ((h.live hi).symm.trans (h.live hj))
  quiet := h.quiet

theorem inv_initial : Inv .initial where
  connected := by simp [State.initial]
  current := fun i r hi => by simp [State.readyState, State.initial] at hi
  detached := fun hclose => by cases hclose
  timer := fun htimer => by cases htimer
  quiet := rfl

/-! ## The operations -/

theorem Inv.scheduleReconnect (h : Inv s) (hstop : s.intentionalClose = false)
    (hall : AllClosed s) : Inv s.scheduleReconnect :=
  { h with timer := fun _ => ⟨hstop, hall⟩ }

theorem Inv.handleDisconnect (h : Inv s) (hall : AllClosed s) : Inv s.handleDisconnect := by
  unfold State.handleDisconnect
  split
  · exact h
  · rename_i hstop
    split
    · exact h
    · exact h.scheduleReconnect (by simpa using hstop) hall

theorem Inv.openWebSocket (h : Inv s) (constructs : Bool) (hstop : s.intentionalClose = false)
    (htimer : s.reconnectTimer = false) (hall : AllClosed s) :
    Inv (s.openWebSocket constructs) := by
  have hdown : s.wsConnected = false := by
    refine Bool.eq_false_iff.mpr fun hup => ?_
    obtain ⟨i, -, hopen⟩ := h.connected.mp hup
    cases hall.readyState hopen
  unfold State.openWebSocket
  split
  · exact h
  · split
    · exact h.handleDisconnect hall
    · have hnew : ∀ j r, (s.sockets ++ [ReadyState.connecting])[j]? = some r → r ≠ .closed →
          j = s.sockets.length ∧ r = .connecting := by
        intro j r hj hr
        rcases List.mem_append.mp (List.mem_of_getElem? hj) with hmem | hmem
        · exact absurd (hall r hmem) hr
        · obtain rfl := List.mem_singleton.mp hmem
          refine ⟨?_, rfl⟩
          by_contra hne
          have hlt := (List.getElem?_eq_some_iff.mp hj).1
          rw [List.length_append, List.length_singleton] at hlt
          rw [List.getElem?_append_left (by omega)] at hj
          cases hall.readyState hj
      refine ⟨?_, ?_, ?_, ?_, h.quiet⟩
      · refine ⟨fun hup => absurd hup (by simp [hdown]), ?_⟩
        rintro ⟨j, -, hj⟩
        cases (hnew j _ hj (by decide)).2
      · intro j r hj hr
        exact .inl (congrArg some (hnew j r hj hr).1.symm)
      · intro hclose
        exact absurd (hstop.symm.trans hclose) (by decide)
      · intro hset
        exact absurd (htimer.symm.trans hset) (by decide)

theorem Inv.connect (h : Inv s) (wsUrl token : String) (constructs : Bool)
    (htimer : s.reconnectTimer = false) (hall : AllClosed s) :
    Inv (s.connect wsUrl token constructs) := by
  have hset : Inv { s with
      wsUrl := some wsUrl, authToken := some token, intentionalClose := false,
      reconnectAttempt := 0 } := by
    refine { h with current := ?_, detached := ?_, timer := ?_ }
    · intro i r hi hr
      exact absurd (hall.readyState hi) hr
    · intro hclose
      cases hclose
    · exact fun hset => ⟨rfl, (h.timer hset).2⟩
  exact hset.openWebSocket constructs rfl htimer hall

theorem Inv.reconnect (h : Inv s) (constructs : Bool) (htimer : s.reconnectTimer) :
    Inv (s.reconnect constructs) := by
  obtain ⟨hstop, hall⟩ := h.timer htimer
  have hset : Inv { s with
      reconnectTimer := false, reconnectAttempt := s.reconnectAttempt + 1,
      lateReconnects := s.lateReconnects + if s.intentionalClose then 1 else 0 } := by
    refine { h with timer := ?_, quiet := ?_ }
    · intro hset
      cases hset
    · simpa [hstop] using h.quiet
  exact hset.openWebSocket constructs hstop rfl hall

theorem Inv.close (h : Inv s) (hi : s.readyState i ≠ some .open) : Inv (s.close i) := by
  rcases s.close_cases i with ⟨heq, -⟩ | ⟨heq, hlive⟩
  · rw [heq]
    exact h
  · rw [heq]
    have hconnecting : s.readyState i = some .connecting := hlive.resolve_right hi
    have hread := s.readyState_setReadyState i
    refine ⟨?_, ?_, h.detached, ?_, h.quiet⟩
    · rw [show (s.setReadyState i .closing).wsConnected = s.wsConnected from rfl, h.connected]
      refine exists_congr fun j => and_congr_right fun _ => ?_
      rw [hread]
      split
      · rename_i heq
        subst heq
        simp [hconnecting]
      · rfl
    · intro j r hj hr
      rw [hread] at hj
      split at hj
      · rename_i heq
        subst heq
        exact .inl (h.live hlive)
      · exact h.current j r hj hr
    · intro hset
      cases (h.timer hset).2.readyState hconnecting

theorem Inv.pongTimeout (h : Inv s) (hopen : ∀ i ∈ s.ws, s.readyState i ≠ some .open) :
    Inv s.pongTimeout := by
  unfold State.pongTimeout
  split
  · rename_i i hws
    exact h.close (hopen i hws)
  · exact h

/-- Behind a disconnect the sockets that are not closed are closing. -/
theorem inv_detached (hstop : s.intentionalClose) (hws : s.ws = none)
    (hdown : s.wsConnected = false) (htimer : s.reconnectTimer = false)
    (hquiet : s.lateReconnects = 0)
    (hclosing : ∀ i r, s.readyState i = some r → r ≠ .closed → r = .closing) : Inv s where
  connected := by simp [hws, hdown]
  current := fun i r hi hr => .inr ⟨hstop, hclosing i r hi hr⟩
  detached := fun _ => hws
  timer := fun hset => absurd (htimer.symm.trans hset) (by decide)
  quiet := hquiet

theorem State.close_frame (s : State) (i : Nat) :
    (s.close i).intentionalClose = s.intentionalClose
      ∧ (s.close i).reconnectTimer = s.reconnectTimer
      ∧ (s.close i).lateReconnects = s.lateReconnects := by
  rcases s.close_cases i with ⟨heq, -⟩ | ⟨heq, -⟩
  · simp only [heq, and_self]
  · rw [heq]
    exact ⟨rfl, rfl, rfl⟩

theorem State.close_closing (s : State)
    (h : ∀ j r, s.readyState j = some r → r ≠ .closed → i = j ∨ r = .closing)
    (hj : (s.close i).readyState j = some r) (hr : r ≠ .closed) : r = .closing := by
  rcases s.close_cases i with ⟨hsame, hdead⟩ | ⟨hset, -⟩
  · rw [hsame] at hj
    rcases h j r hj hr with rfl | rfl
    · cases r with
      | connecting => exact absurd (.inl hj) hdead
      | «open» => exact absurd (.inr hj) hdead
      | closing => rfl
      | closed => exact absurd rfl hr
    · rfl
  · rw [hset, State.readyState_setReadyState] at hj
    split at hj
    · obtain ⟨-, -, rfl⟩ := Option.map_eq_some_iff.mp hj
      rfl
    · rename_i hne
      exact (h j r hj hr).resolve_left hne

theorem Inv.disconnect (h : Inv s) : Inv s.disconnect := by
  have hclosed : ∀ (t : State) i, t.readyState = s.readyState → s.ws = some i →
      t.intentionalClose → t.reconnectTimer = false → t.lateReconnects = 0 →
      Inv { t.close i with ws := none, wsConnected := false } := by
    intro t i hsockets hws hstop htimer hquiet
    obtain ⟨hstop', htimer', hquiet'⟩ := t.close_frame i
    refine inv_detached (hstop'.trans hstop) rfl rfl (htimer'.trans htimer)
      (hquiet'.trans hquiet) fun j r hj hr => t.close_closing (fun j r hj hr => ?_) hj hr
    rw [hsockets] at hj
    rcases h.current j r hj hr with hcurrent | ⟨-, hclosing⟩
    · exact .inl (Option.some.inj (hws.symm.trans hcurrent))
    · exact .inr hclosing
  unfold State.disconnect
  dsimp only [State.stopHeartbeat]
  split
  · rename_i i hws
    exact hclosed _ i rfl hws rfl rfl h.quiet
  · rename_i hws
    refine inv_detached rfl hws rfl rfl h.quiet fun j r hj hr => ?_
    refine ((h.current j r hj hr).resolve_left fun hcurrent => ?_).2
    have hnone : s.ws = none := hws
    rw [hnone] at hcurrent
    cases hcurrent

theorem Inv.opened (h : Inv s) (hi : s.readyState i = some .connecting) :
    Inv (s.setReadyState i .open).onopen := by
  have hws : s.ws = some i := h.live (.inl hi)
  have hread := s.readyState_setReadyState i
  refine ⟨?_, ?_, h.detached, ?_, h.quiet⟩
  · refine ⟨fun _ => ⟨i, hws, ?_⟩, fun _ => rfl⟩
    show (s.setReadyState i .open).readyState i = some .open
    rw [hread, if_pos rfl, hi]
    rfl
  · intro j r hj hr
    have hj' : (s.setReadyState i .open).readyState j = some r := hj
    rw [hread] at hj'
    split at hj'
    · rename_i heq
      subst heq
      exact .inl hws
    · exact h.current j r hj' hr
  · intro hset
    cases (h.timer hset).2.readyState hi

theorem Inv.other (h : Inv s) {r' : ReadyState} (hi : s.readyState i = some r) (hr : r ≠ .closed)
    (hj : s.readyState j = some r') (hr' : r' ≠ .closed) (hne : i ≠ j) : s.intentionalClose := by
  rcases h.current i r hi hr with hcurrent | ⟨hstop, -⟩
  · refine ((h.current j r' hj hr').resolve_left fun hother => hne ?_).1
    exact Option.some.inj (hcurrent.symm.trans hother)
  · exact hstop

/-- A socket closes: the current one, or one that a disconnect has closed. -/
theorem Inv.closed (h : Inv s) (hi : s.readyState i = some r) (hr : r ≠ .closed) :
    Inv (s.setReadyState i .closed).onclose := by
  have hread : ∀ {j r'}, (s.setReadyState i .closed).readyState j = some r' → r' ≠ .closed →
      i ≠ j ∧ s.readyState j = some r' := by
    intro j r' hj hr'
    rw [State.readyState_setReadyState] at hj
    split at hj
    · obtain ⟨-, -, rfl⟩ := Option.map_eq_some_iff.mp hj
      exact absurd rfl hr'
    · rename_i hne
      exact ⟨hne, hj⟩
  have hset : Inv { (s.setReadyState i .closed) with
      wsConnected := false, pingInterval := false, pongTimer := false } := by
    refine ⟨⟨fun hup => (by cases hup), ?_⟩, ?_, h.detached, ?_, h.quiet⟩
    · rintro ⟨j, hj, hopen⟩
      obtain ⟨hne, hopen'⟩ := hread hopen (by decide)
      have hnone := h.detached (h.other hi hr hopen' (by decide) hne)
      exact absurd (hnone.symm.trans hj) (by simp)
    · intro j r' hj hr'
      obtain ⟨-, hj'⟩ := hread hj hr'
      exact h.current j r' hj' hr'
    · intro htimer
      exact absurd ((h.timer htimer).2.readyState hi) hr
  unfold State.onclose
  dsimp only [State.stopHeartbeat]
  split
  · exact hset
  · rename_i hstop
    refine hset.handleDisconnect fun r' hr' => ?_
    by_contra hopen
    obtain ⟨j, hj⟩ := List.mem_iff_getElem?.mp hr'
    obtain ⟨hne, hj'⟩ := hread hj hopen
    exact hstop (h.other hi hr hj' hopen hne)

theorem Inv.onlineHandler (h : Inv s)
    (hback : s.wsConnected ∨ truthy s.wsUrl = false ∨ s.intentionalClose = false ∧ AllClosed s) :
    Inv s.onlineHandler := by
  have hset : Inv { s with isOnline := true } := { h with }
  unfold State.onlineHandler
  dsimp only
  split
  · rename_i hcond
    obtain ⟨hdown, hurl⟩ := hcond
    rcases hback with hup | hempty | ⟨hstop, hall⟩
    · exact absurd (hdown.symm.trans hup) (by decide)
    · exact absurd (hempty.symm.trans hurl) (by decide)
    · exact hset.scheduleReconnect hstop hall
  · exact hset

/-- **One step** of the service. -/
theorem Inv.step (h : Inv s) {a : Action} (horderly : Orderly s a) : Inv (step s a) := by
  cases a with
  | connect wsUrl token constructs =>
    exact h.connect wsUrl token constructs horderly.1 horderly.2
  | disconnect => exact h.disconnect
  | opened i =>
    rw [SyncConnection.step]
    split
    · rename_i hi
      exact h.opened hi
    · exact h
  | pong i =>
    rw [SyncConnection.step]
    split
    · exact { h with }
    · exact h
  | closing i => exact h.close horderly
  | closed i =>
    rw [SyncConnection.step]
    split
    · rename_i hi
      obtain ⟨r, hi, hr⟩ := hi
      exact h.closed hi hr
    · exact h
  | error i => exact h
  | online => exact h.onlineHandler horderly
  | offline => exact { h with }
  | reconnect constructs =>
    rw [SyncConnection.step]
    split
    · rename_i htimer
      exact h.reconnect constructs htimer
    · exact h
  | ping sends =>
    rw [SyncConnection.step]
    split
    · unfold State.ping
      split
      · exact { h with }
      · exact h
    · exact h
  | pongTimeout =>
    rw [SyncConnection.step]
    split
    · rename_i hset
      have hfired : Inv { s with pongTimer := false } := { h with }
      exact hfired.pongTimeout (horderly hset)
    · exact h
  | strayPongTimeout =>
    rw [SyncConnection.step]
    split
    · exact h
    · rename_i hsome
      have hfired : Inv { s with strayPongTimers := s.strayPongTimers - 1 } := { h with }
      exact hfired.pongTimeout (horderly (Nat.pos_of_ne_zero hsome))

/-- **The service tells the truth** along a run in which `connect` finds every
socket closed and no timer set, the network's return finds the service connected,
or every socket closed and no disconnect, and an open socket closes at once. -/
theorem truthful_run (actions : List Action) (h : Run.Each step Orderly .initial actions) :
    Truthful (actions.foldl step .initial) :=
  (h.preserves (fun _ _ horderly hinv => hinv.step horderly) inv_initial).truthful

instance Orderly.decidable (s : State) : (a : Action) → Decidable (Orderly s a)
  | .connect .. =>
    inferInstanceAs (Decidable (s.reconnectTimer = false ∧ ∀ r ∈ s.sockets, r = .closed))
  | .online => inferInstanceAs (Decidable (s.wsConnected ∨ truthy s.wsUrl = false
      ∨ s.intentionalClose = false ∧ ∀ r ∈ s.sockets, r = .closed))
  | .closing i => inferInstanceAs (Decidable (s.readyState i ≠ some .open))
  | .pongTimeout =>
    inferInstanceAs (Decidable (s.pongTimer → ∀ i ∈ s.ws, s.readyState i ≠ some .open))
  | .strayPongTimeout =>
    inferInstanceAs (Decidable (0 < s.strayPongTimers → ∀ i ∈ s.ws, s.readyState i ≠ some .open))
  | .disconnect | .opened _ | .pong _ | .closed _ | .error _ | .offline | .reconnect _ | .ping _ =>
    .isTrue trivial

/-- The connection breaks and is made again; after a disconnect the service
connects once the socket is closed. -/
def brokenOnce : List Action :=
  [.connect "wss://host/ws/sync" "token" true, .opened 0, .ping true, .pong 0, .error 0, .closed 0,
    .online, .reconnect true, .opened 1, .disconnect, .closed 1,
    .connect "wss://host/ws/sync" "token" true, .opened 2]

theorem truthful_brokenOnce : Truthful (brokenOnce.foldl step .initial) :=
  truthful_run brokenOnce (by decide)

/-- A disconnect is followed by a connect, before the first socket has had its
close event. -/
def connectedAgain : List Action :=
  [.connect "wss://host/ws/sync" "token" true, .opened 0, .disconnect,
    .connect "wss://host/ws/sync" "token" true, .opened 1, .closed 0]

/-- The second socket is open, and the service reports no connection. -/
theorem not_truthful_connectedAgain :
    ¬∀ actions : List Action, Truthful (actions.foldl step .initial) := by
  intro h
  have hup := (h connectedAgain).connected.mpr ⟨1, by decide, by decide⟩
  exact absurd hup (by decide)

end UsbVault.App.SyncConnection
