import UsbVault.Lib.Run
import Mathlib.Data.List.Infix
import Mathlib.Data.List.Perm.Basic
import Mathlib.Data.List.Nodup

/-!
# The offline queue

Operations that could not reach the server wait in a queue in memory, with a
copy in `localStorage`, until `processQueue` calls their handlers. A call of
`processQueue` goes through the operations that were pending when it started,
whatever becomes of the queue at its awaits, and saves the queue at its end.

`AtMostOnce` says of the log of a run that no handler succeeds twice for one
operation and none starts after the operation was removed or cleared. It holds
along every run that meets `Careful` (`atMostOnce_run`).
-/

namespace UsbVault.App.OfflineQueue

/-! ## Operations -/

inductive OperationType where
  | create_vault | delete_vault | rename_vault | upload_file | delete_file | rename_file
  deriving DecidableEq, Repr

inductive OperationStatus where
  | pending | processing | completed | failed | conflict
  deriving DecidableEq, Repr

structure QueuedOperation (δ : Type) where
  id : String
  type : OperationType
  payload : δ
  status : OperationStatus
  createdAt : String
  retryCount : Nat
  maxRetries : Nat
  lastError : Option String
  lastAttemptAt : Option String
  deriving DecidableEq, Repr

def MAX_QUEUE_SIZE : Nat := 100

def MAX_RETRIES_DEFAULT : Nat := 5

/-- What a handler throws: an object with a code, another error with a message,
or some other value, and its text. -/
structure Thrown where
  code : Option String
  isError : Bool
  text : String

def Thrown.isNetworkError (error : Thrown) : Bool :=
  match error.code with
  | some code => code ∈ ["NETWORK_ERROR", "OFFLINE", "ERR_NETWORK"]
  | none =>
    error.isError ∧ ∃ word ∈ ["network", "offline", "failed to fetch"],
      word.toList <:+: error.text.toLower.toList

/-! ## The service -/

/-- The object of an operation: the number of the `enqueue` that has made it.
It is the same in a copy that is loaded later. -/
abbrev Ref := Nat

inductive Event where
  | started (op : Ref)
  | succeeded (op : Ref)
  | removed (op : Ref)
  deriving DecidableEq, Repr

/-- A call of `processQueue`: at the await of a handler, at the pause after a
failure, with the operations it has not come to, or at its end. -/
inductive Loop where
  | handling (op : Ref) (rest : List Ref)
  | sleeping (rest : List Ref)
  | finished
  deriving DecidableEq, Repr

/-- `stored` is the copy in `localStorage`, which may refuse a new one.
`created` counts the calls of `enqueue`; of it and of the log the code knows
nothing. -/
structure State (δ : Type) where
  objects : Ref → QueuedOperation δ
  queue : List Ref
  isProcessing : Bool
  isOnline : Bool
  handlers : List OperationType
  loops : List Loop
  stored : List (Ref × QueuedOperation δ)
  writable : Bool
  created : Nat
  log : List Event

variable {δ : Type}

/-- A first page. `blank` stands for the objects that are not made yet. -/
def State.initial (blank : QueuedOperation δ) : State δ :=
  ⟨fun _ => blank, [], false, true, [], [], [], true, 0, []⟩

namespace State

def status (s : State δ) (r : Ref) : OperationStatus := (s.objects r).status

/-- An assignment to fields of an operation. -/
def modify (s : State δ) (r : Ref) (f : QueuedOperation δ → QueuedOperation δ) : State δ :=
  { s with objects := fun r' => if r' = r then f (s.objects r) else s.objects r' }

def record (s : State δ) (event : Event) : State δ := { s with log := s.log ++ [event] }

def saveQueue (s : State δ) : State δ :=
  if s.writable then { s with stored := s.queue.map fun r => (r, s.objects r) } else s

def trimQueue (s : State δ) : State δ :=
  let removable := s.queue.filter fun r => s.status r = .failed ∨ s.status r = .completed
  { s with queue := s.queue.diff (removable.take (s.queue.length - MAX_QUEUE_SIZE)) }

def enqueue (id : String) (type : OperationType) (payload : δ) (now : String) (s : State δ) :
    State δ :=
  let op : QueuedOperation δ :=
    ⟨id, type, payload, .pending, now, 0, MAX_RETRIES_DEFAULT, none, none⟩
  { s.modify s.created fun _ => op with
    queue := s.queue ++ [s.created]
    created := s.created + 1 }.trimQueue.saveQueue

/-- The end of `processQueue`. -/
def finish (s : State δ) : State δ :=
  { s with
    queue := s.queue.filter fun r => s.status r ≠ OperationStatus.completed
    isProcessing := false }.saveQueue

/-- The loop of `processQueue` up to its next await, or to its end. -/
def runFrom (now : String) (s : State δ) : List Ref → State δ × Loop
  | [] => (s.finish, .finished)
  | op :: rest =>
    if (s.objects op).type ∉ s.handlers then
      runFrom now (s.modify op fun o =>
        { o with status := .failed, lastError := some "No handler registered" }) rest
    else
      ((s.modify op fun o => { o with status := .processing, lastAttemptAt := some now }).record
        (.started op), .handling op rest)

def pending (s : State δ) : List Ref := s.queue.filter fun r => s.status r = .pending

def processQueue (now : String) (s : State δ) : State δ :=
  if s.isProcessing ∨ s.isOnline = false ∨ s.pending = [] then s
  else
    let (t, loop) := runFrom now { s with isProcessing := true } s.pending
    { t with loops := s.loops ++ [loop] }

/-- How the promise of a handler settles. -/
inductive Outcome where
  | resolved
  | rejected (error : Thrown)

/-- A call of `processQueue` goes on behind its await. -/
def continueLoop (now : String) (outcome : Outcome) (s : State δ) : Loop → State δ × Loop
  | .handling op rest =>
    match outcome with
    | .resolved =>
      runFrom now ((s.modify op fun o => { o with status := .completed }).record
        (.succeeded op)) rest
    | .rejected error =>
      let retryCount := (s.objects op).retryCount + 1
      if (s.objects op).maxRetries ≤ retryCount then
        runFrom now (s.modify op fun o => { o with
          retryCount := retryCount, lastError := some error.text, status := .failed }) rest
      else
        let s := s.modify op fun o => { o with
          retryCount := retryCount, lastError := some error.text, status := .pending }
        if error.isNetworkError then ({ s with isOnline := false }.finish, .finished)
        else (s, .sleeping rest)
  | .sleeping rest => runFrom now s rest
  | .finished => (s, .finished)

def resume (k : Nat) (now : String) (outcome : Outcome) (s : State δ) : State δ :=
  match s.loops[k]? with
  | none => s
  | some loop =>
    let (t, loop') := continueLoop now outcome s loop
    { t with loops := s.loops.set k loop' }

/-- The operation that `removeOperation` finds. -/
def find (s : State δ) (id : String) : Option Ref := s.queue.find? fun r => (s.objects r).id = id

def removeOperation (id : String) (s : State δ) : State δ :=
  match s.find id with
  | none => s
  | some r => ({ s with queue := s.queue.erase r }.record (.removed r)).saveQueue

def retryFailed (s : State δ) : State δ :=
  { s with
    objects := fun r =>
      if r ∈ s.queue ∧ s.status r = OperationStatus.failed then
        { s.objects r with status := .pending, retryCount := 0, lastError := none }
      else s.objects r }.saveQueue

def clear (s : State δ) : State δ :=
  { s with
    queue := []
    isProcessing := false
    isOnline := true
    log := s.log ++ s.queue.map Event.removed }.saveQueue

/-- A new page: the constructor loads the queue. -/
def reload (isOnline : Bool) (s : State δ) : State δ :=
  { s with
    objects := fun r =>
      match s.stored.lookup r with
      | some op => if op.status = .processing then { op with status := .pending } else op
      | none => s.objects r
    queue := s.stored.map Prod.fst
    isProcessing := false
    isOnline := isOnline
    handlers := []
    loops := [] }

end State

/-! ## Runs -/

inductive Action (δ : Type) where
  | enqueue (id : String) (type : OperationType) (payload : δ) (now : String)
  | processQueue (now : String)
  | resume (k : Nat) (now : String) (outcome : State.Outcome)
  | removeOperation (id : String)
  | retryFailed
  | clear
  | reload (isOnline : Bool)
  | online (now : String)
  | offline
  | registerHandler (type : OperationType)
  | storage (writable : Bool)

def step (s : State δ) : Action δ → State δ
  | .enqueue id type payload now => s.enqueue id type payload now
  | .processQueue now => s.processQueue now
  | .resume k now outcome => s.resume k now outcome
  | .removeOperation id => s.removeOperation id
  | .retryFailed => s.retryFailed
  | .clear => s.clear
  | .reload isOnline => s.reload isOnline
  | .online now => { s with isOnline := true }.processQueue now
  | .offline => { s with isOnline := false }
  | .registerHandler type => { s with handlers := type :: s.handlers }
  | .storage writable => { s with writable := writable }

/-- No handler succeeds twice for one operation, and none starts after the
operation was removed. -/
structure AtMostOnce (log : List Event) : Prop where
  once : ∀ op, log.count (.succeeded op) ≤ 1
  notAfter : log.Pairwise fun earlier later =>
    ∀ op, earlier = .removed op → later ≠ .started op

/-- The operations that a call has not come to. -/
def Loop.rest : Loop → List Ref
  | .handling _ rest => rest
  | .sleeping rest => rest
  | .finished => []

/-- No call of `processQueue` has an operation left to start. -/
def Idle (s : State δ) : Prop := ∀ loop ∈ s.loops, loop.rest = []

/-- An operation is removed, or the queue cleared, only when no call is still to
start what is removed; a call starts only when no other has an operation left to
start; and a page is loaded only when no operation is stored as unfinished that
has succeeded or was removed. -/
def Careful (s : State δ) : Action δ → Prop
  | .removeOperation id => ∀ r ∈ s.find id, ∀ loop ∈ s.loops, r ∉ loop.rest
  | .clear => Idle s
  | .processQueue _ => s.isProcessing ∨ Idle s
  | .online _ => s.isProcessing ∨ Idle s
  | .reload _ => ∀ p ∈ s.stored, p.2.status ≠ .completed →
      .succeeded p.1 ∉ s.log ∧ .removed p.1 ∉ s.log
  | _ => True

instance Careful.decidable (s : State δ) : (a : Action δ) → Decidable (Careful s a)
  | .removeOperation id =>
    inferInstanceAs (Decidable (∀ r ∈ s.find id, ∀ loop ∈ s.loops, r ∉ loop.rest))
  | .clear => inferInstanceAs (Decidable (∀ loop ∈ s.loops, loop.rest = []))
  | .processQueue _ | .online _ =>
    inferInstanceAs (Decidable (s.isProcessing ∨ ∀ loop ∈ s.loops, loop.rest = []))
  | .reload _ =>
    inferInstanceAs (Decidable (∀ p ∈ s.stored, p.2.status ≠ .completed →
      .succeeded p.1 ∉ s.log ∧ .removed p.1 ∉ s.log))
  | .enqueue .. | .resume .. | .retryFailed | .offline | .registerHandler _ | .storage _ =>
    .isTrue trivial

/-! ## The log -/

variable {log : List Event} {op r : Ref}

/-- The operation has not succeeded and was not removed. -/
def Untouched (log : List Event) (r : Ref) : Prop :=
  .succeeded r ∉ log ∧ .removed r ∉ log

theorem AtMostOnce.started (h : AtMostOnce log) (hop : .removed op ∉ log) :
    AtMostOnce (log ++ [.started op]) := by
  constructor
  · intro op'
    simpa using h.once op'
  · refine List.pairwise_append.mpr ⟨h.notAfter, List.pairwise_singleton _ _, ?_⟩
    rintro earlier hearlier later hlater op' rfl rfl
    obtain ⟨⟩ := List.mem_singleton.mp hlater
    exact hop hearlier

theorem AtMostOnce.succeeded (h : AtMostOnce log) (hop : .succeeded op ∉ log) :
    AtMostOnce (log ++ [.succeeded op]) := by
  constructor
  · intro op'
    rw [List.count_append]
    by_cases heq : op' = op
    · subst heq
      rw [List.count_eq_zero.mpr hop]
      simp
    · have hne : Event.succeeded op ≠ .succeeded op' := fun h => heq (Event.succeeded.inj h).symm
      simpa [List.count_singleton, hne] using h.once op'
  · refine List.pairwise_append.mpr ⟨h.notAfter, List.pairwise_singleton _ _, ?_⟩
    rintro earlier hearlier later hlater op' rfl rfl
    cases List.mem_singleton.mp hlater

theorem AtMostOnce.removed (h : AtMostOnce log) (ops : List Ref) :
    AtMostOnce (log ++ ops.map Event.removed) := by
  have hkind : ∀ later ∈ ops.map Event.removed, ∃ op, later = .removed op := by
    intro later hlater
    obtain ⟨op, -, rfl⟩ := List.mem_map.mp hlater
    exact ⟨op, rfl⟩
  constructor
  · intro op
    have hnone : .succeeded op ∉ ops.map Event.removed := by simp
    rw [List.count_append, List.count_eq_zero.mpr hnone]
    exact h.once op
  · refine List.pairwise_append.mpr ⟨h.notAfter, ?_, ?_⟩
    · refine List.pairwise_of_forall_mem_list fun earlier _ later hlater op _ => ?_
      obtain ⟨op', rfl⟩ := hkind later hlater
      exact Event.noConfusion
    · intro earlier _ later hlater op _
      obtain ⟨op', rfl⟩ := hkind later hlater
      exact Event.noConfusion

/-! ## The invariant -/

def Loop.current : Loop → Option Ref
  | .handling op _ => some op
  | _ => none

def Loop.refs (loop : Loop) : List Ref := loop.current.toList ++ loop.rest

def held (loops : List Loop) : List Ref := loops.flatMap Loop.refs

def Event.subject : Event → Ref
  | .started op => op
  | .succeeded op => op
  | .removed op => op

/-- What holds of a state and the calls at an await: no operation is held
twice, the one whose handler runs has not succeeded, and those still to start
are pending in the queue, where no unfinished operation is removed or has
succeeded. -/
structure Inv (s : State δ) (loops : List Loop) : Prop where
  once : AtMostOnce s.log
  nodup : s.queue.Nodup
  live : ∀ r ∈ s.queue, s.status r ≠ .completed → Untouched s.log r
  held_nodup : (held loops).Nodup
  current : ∀ loop ∈ loops, ∀ r ∈ loop.current, s.status r = .processing ∧ .succeeded r ∉ s.log
  rest : ∀ loop ∈ loops, ∀ r ∈ loop.rest, r ∈ s.queue ∧ s.status r = .pending
  stored_nodup : (s.stored.map Prod.fst).Nodup
  queue_lt : ∀ r ∈ s.queue, r < s.created
  held_lt : ∀ r ∈ held loops, r < s.created
  stored_lt : ∀ r ∈ s.stored.map Prod.fst, r < s.created
  log_lt : ∀ event ∈ s.log, event.subject < s.created

variable {s : State δ} {loops loops' others : List Loop} {rest : List Ref} {loop : Loop}

theorem mem_held_of_current (hloop : loop ∈ loops) (hr : r ∈ loop.current) : r ∈ held loops :=
  List.mem_flatMap.mpr ⟨loop, hloop, List.mem_append_left _ (Option.mem_toList.mpr hr)⟩

theorem mem_held_of_rest (hloop : loop ∈ loops) (hr : r ∈ loop.rest) : r ∈ held loops :=
  List.mem_flatMap.mpr ⟨loop, hloop, List.mem_append_right _ hr⟩

theorem Inv.perm (h : Inv s loops) (hperm : loops.Perm loops') : Inv s loops' where
  once := h.once
  nodup := h.nodup
  live := h.live
  held_nodup := (hperm.flatMap_right Loop.refs).nodup_iff.mp h.held_nodup
  current := fun loop hloop => h.current loop (hperm.mem_iff.mpr hloop)
  rest := fun loop hloop => h.rest loop (hperm.mem_iff.mpr hloop)
  stored_nodup := h.stored_nodup
  queue_lt := h.queue_lt
  held_lt := fun r hr => h.held_lt r ((hperm.flatMap_right Loop.refs).mem_iff.mpr hr)
  stored_lt := h.stored_lt
  log_lt := h.log_lt

theorem Inv.shrink (h : Inv s (loop :: others)) {loop' : Loop}
    (hrefs : loop'.refs.Sublist loop.refs) (hcurrent : ∀ r ∈ loop'.current, r ∈ loop.current)
    (hrest : loop'.rest ⊆ loop.rest) : Inv s (loop' :: others) where
  once := h.once
  nodup := h.nodup
  live := h.live
  held_nodup := h.held_nodup.sublist (hrefs.append_right _)
  current := by
    intro l hl r hr
    rcases List.mem_cons.mp hl with rfl | hl
    · exact h.current loop List.mem_cons_self r (hcurrent r hr)
    · exact h.current l (List.mem_cons_of_mem _ hl) r hr
  rest := by
    intro l hl r hr
    rcases List.mem_cons.mp hl with rfl | hl
    · exact h.rest loop List.mem_cons_self r (hrest hr)
    · exact h.rest l (List.mem_cons_of_mem _ hl) r hr
  stored_nodup := h.stored_nodup
  queue_lt := h.queue_lt
  held_lt := fun r hr => h.held_lt r ((hrefs.append_right _).subset hr)
  stored_lt := h.stored_lt
  log_lt := h.log_lt

theorem State.status_modify_self (f : QueuedOperation δ → QueuedOperation δ) :
    (s.modify r f).status r = (f (s.objects r)).status := by
  simp [State.status, State.modify]

theorem State.status_modify_ne {r' : Ref} (hne : r' ≠ r)
    (f : QueuedOperation δ → QueuedOperation δ) : (s.modify r f).status r' = s.status r' := by
  simp [State.status, State.modify, hne]

theorem Inv.modify (h : Inv s loops) (hfree : r ∉ held loops)
    {f : QueuedOperation δ → QueuedOperation δ}
    (hlive : r ∈ s.queue → (f (s.objects r)).status ≠ .completed → Untouched s.log r) :
    Inv (s.modify r f) loops where
  once := h.once
  nodup := h.nodup
  live := by
    intro r' hr' hstatus
    by_cases heq : r' = r
    · subst heq
      rw [State.status_modify_self] at hstatus
      exact hlive hr' hstatus
    · rw [State.status_modify_ne heq] at hstatus
      exact h.live r' hr' hstatus
  held_nodup := h.held_nodup
  current := by
    intro loop hloop r' hr'
    have hne : r' ≠ r := fun heq => hfree (heq ▸ mem_held_of_current hloop hr')
    rw [State.status_modify_ne hne]
    exact h.current loop hloop r' hr'
  rest := by
    intro loop hloop r' hr'
    have hne : r' ≠ r := fun heq => hfree (heq ▸ mem_held_of_rest hloop hr')
    rw [State.status_modify_ne hne]
    exact h.rest loop hloop r' hr'
  stored_nodup := h.stored_nodup
  queue_lt := h.queue_lt
  held_lt := h.held_lt
  stored_lt := h.stored_lt
  log_lt := h.log_lt

theorem Inv.save (h : Inv s loops) : Inv s.saveQueue loops := by
  unfold State.saveQueue
  split
  · have hrefs : (s.queue.map fun r => (r, s.objects r)).map Prod.fst = s.queue := by
      rw [List.map_map]
      exact List.map_id _
    refine { h with stored_nodup := ?_, stored_lt := ?_ }
    · show ((s.queue.map fun r => (r, s.objects r)).map Prod.fst).Nodup
      rw [hrefs]
      exact h.nodup
    · show ∀ r ∈ (s.queue.map fun r => (r, s.objects r)).map Prod.fst, r < s.created
      rw [hrefs]
      exact h.queue_lt
  · exact h

/-! ## The loop -/

theorem Inv.next (h : Inv s (.sleeping (op :: rest) :: others)) :
    Inv s (.sleeping rest :: others) ∧ op ∉ held (.sleeping rest :: others)
      ∧ op ∈ s.queue ∧ s.status op = .pending := by
  have hnodup : (op :: held (.sleeping rest :: others)).Nodup := h.held_nodup
  obtain ⟨hqueue, hpending⟩ := h.rest _ List.mem_cons_self op List.mem_cons_self
  refine ⟨h.shrink ?_ ?_ ?_, (List.nodup_cons.mp hnodup).1, hqueue, hpending⟩
  · exact List.sublist_cons_self op rest
  · exact fun r hr => hr
  · exact List.subset_cons_self op rest

theorem Inv.release (h : Inv s (.handling op rest :: others)) :
    Inv s (.sleeping rest :: others) ∧ op ∉ held (.sleeping rest :: others)
      ∧ s.status op = .processing ∧ .succeeded op ∉ s.log := by
  have hnodup : (op :: held (.sleeping rest :: others)).Nodup := h.held_nodup
  obtain ⟨hstatus, hlog⟩ := h.current _ List.mem_cons_self op rfl
  refine ⟨h.shrink ?_ ?_ ?_, (List.nodup_cons.mp hnodup).1, hstatus, hlog⟩
  · exact List.sublist_cons_self op rest
  · exact fun r hr => by cases hr
  · exact List.Subset.refl rest

theorem Inv.hold (h : Inv s (.sleeping rest :: others))
    (hfree : op ∉ held (.sleeping rest :: others))
    (hstatus : s.status op = .processing) (hlog : .succeeded op ∉ s.log) (hlt : op < s.created) :
    Inv s (.handling op rest :: others) where
  once := h.once
  nodup := h.nodup
  live := h.live
  held_nodup := List.nodup_cons.mpr ⟨hfree, h.held_nodup⟩
  current := by
    intro l hl r hr
    rcases List.mem_cons.mp hl with rfl | hl
    · obtain rfl := Option.some.inj hr
      exact ⟨hstatus, hlog⟩
    · exact h.current l (List.mem_cons_of_mem _ hl) r hr
  rest := by
    intro l hl r hr
    rcases List.mem_cons.mp hl with rfl | hl
    · exact h.rest _ List.mem_cons_self r hr
    · exact h.rest l (List.mem_cons_of_mem _ hl) r hr
  stored_nodup := h.stored_nodup
  queue_lt := h.queue_lt
  held_lt := by
    intro r hr
    rcases List.mem_cons.mp hr with rfl | hr
    · exact hlt
    · exact h.held_lt r hr
  stored_lt := h.stored_lt
  log_lt := h.log_lt

theorem log_lt_append {s : State δ} {event : Event} (h : ∀ e ∈ s.log, e.subject < s.created)
    (hevent : event.subject < s.created) : ∀ e ∈ s.log ++ [event], e.subject < s.created := by
  intro e he
  rcases List.mem_append.mp he with he | he
  · exact h e he
  · exact List.mem_singleton.mp he ▸ hevent

theorem Inv.recordStarted (h : Inv s loops) (hop : .removed op ∉ s.log) (hlt : op < s.created) :
    Inv (s.record (.started op)) loops where
  once := h.once.started hop
  nodup := h.nodup
  live := by
    intro r hr hstatus
    obtain ⟨hsucceeded, hremoved⟩ := h.live r hr hstatus
    simpa [Untouched, State.record] using ⟨hsucceeded, hremoved⟩
  held_nodup := h.held_nodup
  current := by
    intro loop hloop r hr
    obtain ⟨hprocessing, hlog⟩ := h.current loop hloop r hr
    exact ⟨hprocessing, by simpa [State.record] using hlog⟩
  rest := h.rest
  stored_nodup := h.stored_nodup
  queue_lt := h.queue_lt
  held_lt := h.held_lt
  stored_lt := h.stored_lt
  log_lt := log_lt_append h.log_lt hlt

theorem Inv.recordSucceeded (h : Inv s loops) (hfree : op ∉ held loops)
    (hstatus : s.status op = .completed) (hop : .succeeded op ∉ s.log) (hlt : op < s.created) :
    Inv (s.record (.succeeded op)) loops where
  once := h.once.succeeded hop
  nodup := h.nodup
  live := by
    intro r hr hlive
    have hne : r ≠ op := fun heq => hlive (heq ▸ hstatus)
    obtain ⟨hsucceeded, hremoved⟩ := h.live r hr hlive
    simpa [Untouched, State.record, hne] using ⟨hsucceeded, hremoved⟩
  held_nodup := h.held_nodup
  current := by
    intro loop hloop r hr
    have hne : r ≠ op := fun heq => hfree (heq ▸ mem_held_of_current hloop hr)
    obtain ⟨hprocessing, hlog⟩ := h.current loop hloop r hr
    exact ⟨hprocessing, by simpa [State.record, hne] using hlog⟩
  rest := h.rest
  stored_nodup := h.stored_nodup
  queue_lt := h.queue_lt
  held_lt := h.held_lt
  stored_lt := h.stored_lt
  log_lt := log_lt_append h.log_lt hlt

theorem Inv.setQueue (h : Inv s loops) {queue : List Ref} (hsub : queue.Sublist s.queue)
    (hpending : ∀ r ∈ s.queue, s.status r = .pending → r ∈ queue) :
    Inv { s with queue := queue } loops :=
  { h with
    nodup := h.nodup.sublist hsub
    live := fun r hr => h.live r (hsub.subset hr)
    rest := fun loop hloop r hr =>
      ⟨hpending r (h.rest loop hloop r hr).1 (h.rest loop hloop r hr).2, (h.rest loop hloop r hr).2⟩
    queue_lt := fun r hr => h.queue_lt r (hsub.subset hr) }

theorem Inv.finish (h : Inv s loops) : Inv s.finish loops := by
  have hqueue : Inv { s with queue := s.queue.filter fun r => s.status r ≠ .completed } loops := by
    refine h.setQueue List.filter_sublist fun r hr hstatus => ?_
    exact List.mem_filter.mpr ⟨hr, by rw [hstatus]; rfl⟩
  exact (show Inv { s with
    queue := s.queue.filter fun r => s.status r ≠ .completed, isProcessing := false } loops from
      { hqueue with }).save

theorem Inv.stop (h : Inv s (.sleeping rest :: others)) : Inv s (.finished :: others) :=
  h.shrink (List.nil_sublist rest) (fun _ hr => hr) (List.nil_subset rest)

theorem Inv.setOnline (h : Inv s loops) (isOnline : Bool) :
    Inv { s with isOnline := isOnline } loops :=
  { h with }

/-- **The loop of `processQueue`** starts what is pending in the queue, each
operation once. -/
theorem Inv.runFrom (now : String) {rest : List Ref} :
    ∀ {s : State δ}, Inv s (.sleeping rest :: others) →
      Inv (s.runFrom now rest).1 ((s.runFrom now rest).2 :: others) := by
  induction rest with
  | nil =>
    intro s h
    exact h.stop.finish
  | cons op rest ih =>
    intro s h
    obtain ⟨hnext, hfree, hqueue, hpending⟩ := h.next
    have hlive : Untouched s.log op := h.live op hqueue (by rw [hpending]; decide)
    rw [State.runFrom]
    split
    · exact ih (hnext.modify hfree fun _ _ => hlive)
    · have hmodified := hnext.modify hfree (f := fun o =>
        { o with status := .processing, lastAttemptAt := some now }) fun _ _ => hlive
      have hlt : op < s.created := h.queue_lt op hqueue
      refine (hmodified.recordStarted hlive.2 hlt).hold hfree ?_ ?_ hlt
      · exact State.status_modify_self fun o =>
          { o with status := .processing, lastAttemptAt := some now }
      · simpa [State.record, State.modify] using hlive.1

theorem Inv.continueLoop (h : Inv s (loop :: others)) (now : String) (outcome : State.Outcome) :
    Inv (s.continueLoop now outcome loop).1 ((s.continueLoop now outcome loop).2 :: others) := by
  cases loop with
  | finished => exact h
  | sleeping rest => exact h.runFrom now
  | handling op rest =>
    obtain ⟨hreleased, hfree, hstatus, hlog⟩ := h.release
    have hlt : op < s.created := h.held_lt op List.mem_cons_self
    have hlive : op ∈ s.queue → Untouched s.log op := fun hqueue =>
      h.live op hqueue (by rw [hstatus]; decide)
    cases outcome with
    | resolved =>
      have hcompleted := hreleased.modify hfree (f := fun o => { o with status := .completed })
        fun _ hne => absurd rfl hne
      refine (hcompleted.recordSucceeded hfree ?_ hlog hlt).runFrom now
      exact State.status_modify_self fun o => { o with status := .completed }
    | rejected error =>
      rw [State.continueLoop]
      dsimp only
      split
      · exact (hreleased.modify hfree fun hqueue _ => hlive hqueue).runFrom now
      · have hretried := hreleased.modify hfree (f := fun o => { o with
          retryCount := (s.objects op).retryCount + 1, lastError := some error.text,
          status := .pending }) fun hqueue _ => hlive hqueue
        split
        · exact (hretried.stop.setOnline false).finish
        · exact hretried

/-! ## The operations -/

theorem Inv.setLoops (h : Inv s loops) (loops' : List Loop) :
    Inv { s with loops := loops' } loops :=
  { h with }

theorem Inv.resume (h : Inv s s.loops) (k : Nat) (now : String) (outcome : State.Outcome) :
    Inv (s.resume k now outcome) (s.resume k now outcome).loops := by
  unfold State.resume
  split
  · exact h
  · rename_i loop hloop
    obtain ⟨hlt, rfl⟩ := List.getElem?_eq_some_iff.mp hloop
    have hsplit := h.perm (List.getElem_cons_eraseIdx_perm hlt).symm
    have hnext := hsplit.continueLoop now outcome
    exact (hnext.perm (List.set_perm_cons_eraseIdx hlt _).symm).setLoops _

theorem Inv.processQueue (h : Inv s s.loops) (now : String) (hidle : s.isProcessing ∨ Idle s) :
    Inv (s.processQueue now) (s.processQueue now).loops := by
  rw [State.processQueue]
  split
  · exact h
  · rename_i hfree
    have hrest : Idle s := hidle.resolve_left fun hprocessing => hfree (.inl hprocessing)
    have hheld : ∀ r ∈ held s.loops, s.status r = .processing := by
      intro r hr
      obtain ⟨loop, hloop, hmem⟩ := List.mem_flatMap.mp hr
      rw [Loop.refs, hrest loop hloop, List.append_nil, Option.mem_toList] at hmem
      exact (h.current loop hloop r hmem).1
    have hpending : ∀ r ∈ s.pending, r ∈ s.queue ∧ s.status r = .pending := by
      intro r hr
      obtain ⟨hqueue, hstatus⟩ := List.mem_filter.mp hr
      exact ⟨hqueue, of_decide_eq_true hstatus⟩
    have hstart : Inv { s with isProcessing := true } (.sleeping s.pending :: s.loops) :=
      { h with
        held_nodup := by
          refine List.nodup_append.mpr ⟨h.nodup.sublist List.filter_sublist, h.held_nodup, ?_⟩
          rintro r hr _ hr' rfl
          have heq := (hpending r hr).2.symm.trans (hheld r hr')
          cases heq
        current := by
          intro l hl r hr
          rcases List.mem_cons.mp hl with rfl | hl
          · cases hr
          · exact h.current l hl r hr
        rest := by
          intro l hl r hr
          rcases List.mem_cons.mp hl with rfl | hl
          · exact hpending r hr
          · exact h.rest l hl r hr
        held_lt := by
          intro r hr
          rcases List.mem_append.mp hr with hr | hr
          · exact h.queue_lt r (hpending r hr).1
          · exact h.held_lt r hr }
    exact ((hstart.runFrom now).perm (List.perm_append_singleton _ _).symm).setLoops _

theorem Inv.trim (h : Inv s loops) : Inv s.trimQueue loops := by
  refine h.setQueue (List.diff_sublist _ _) fun r hr hstatus => ?_
  refine List.mem_diff_of_mem hr fun hremovable => ?_
  have hkind := (List.mem_filter.mp (List.mem_of_mem_take hremovable)).2
  rw [hstatus] at hkind
  exact absurd hkind (by decide)

theorem Inv.enqueue (h : Inv s loops) (id : String) (type : OperationType) (payload : δ)
    (now : String) : Inv (s.enqueue id type payload now) loops := by
  have hqueue : s.created ∉ s.queue := fun hmem => Nat.lt_irrefl _ (h.queue_lt _ hmem)
  have hheld : s.created ∉ held loops := fun hmem => Nat.lt_irrefl _ (h.held_lt _ hmem)
  have hnew : Untouched s.log s.created :=
    ⟨fun hmem => Nat.lt_irrefl _ (h.log_lt _ hmem), fun hmem => Nat.lt_irrefl _ (h.log_lt _ hmem)⟩
  have hmade := h.modify hheld (f := fun _ =>
    ⟨id, type, payload, .pending, now, 0, MAX_RETRIES_DEFAULT, none, none⟩)
    fun hmem => absurd hmem hqueue
  refine Inv.save (Inv.trim ?_)
  exact
    { hmade with
      nodup := by
        show (s.queue ++ [s.created]).Nodup
        rw [← List.concat_eq_append]
        exact h.nodup.concat hqueue
      live := by
        intro r hr hstatus
        rcases List.mem_append.mp hr with hr | hr
        · exact hmade.live r hr hstatus
        · exact List.mem_singleton.mp hr ▸ hnew
      rest := fun loop hloop r hr =>
        ⟨List.mem_append_left _ (hmade.rest loop hloop r hr).1, (hmade.rest loop hloop r hr).2⟩
      queue_lt := by
        intro r hr
        rcases List.mem_append.mp hr with hr | hr
        · exact Nat.lt_succ_of_lt (h.queue_lt r hr)
        · exact List.mem_singleton.mp hr ▸ Nat.lt_succ_self _
      held_lt := fun r hr => Nat.lt_succ_of_lt (h.held_lt r hr)
      stored_lt := fun r hr => Nat.lt_succ_of_lt (h.stored_lt r hr)
      log_lt := fun event he => Nat.lt_succ_of_lt (h.log_lt event he) }

theorem untouched_removed {ops : List Ref} (h : Untouched log r) (hr : r ∉ ops) :
    Untouched (log ++ ops.map Event.removed) r := by
  simpa [Untouched, hr] using h

theorem Inv.remove (h : Inv s loops) (queue ops : List Ref) (hsub : queue.Sublist s.queue)
    (hops : ∀ r ∈ ops, r ∈ s.queue ∧ r ∉ queue ∧ ∀ loop ∈ loops, r ∉ loop.rest)
    (hall : ∀ r ∈ s.queue, r ∉ ops → r ∈ queue) :
    Inv { s with queue := queue, log := s.log ++ ops.map Event.removed } loops :=
  { h with
    once := h.once.removed ops
    nodup := h.nodup.sublist hsub
    live := fun r hr hstatus => untouched_removed (h.live r (hsub.subset hr) hstatus)
      fun hmem => (hops r hmem).2.1 hr
    current := fun loop hloop r hr =>
      ⟨(h.current loop hloop r hr).1, by simpa using (h.current loop hloop r hr).2⟩
    rest := fun loop hloop r hr =>
      ⟨hall r (h.rest loop hloop r hr).1 fun hmem => (hops r hmem).2.2 loop hloop hr,
        (h.rest loop hloop r hr).2⟩
    queue_lt := fun r hr => h.queue_lt r (hsub.subset hr)
    log_lt := by
      intro event he
      rcases List.mem_append.mp he with he | he
      · exact h.log_lt event he
      · obtain ⟨r, hr, rfl⟩ := List.mem_map.mp he
        exact h.queue_lt r (hops r hr).1 }

theorem Inv.removeOperation (h : Inv s loops) {id : String}
    (hcareful : ∀ r ∈ s.find id, ∀ loop ∈ loops, r ∉ loop.rest) :
    Inv (s.removeOperation id) loops := by
  unfold State.removeOperation
  split
  · exact h
  · rename_i r hfind
    have hmem : r ∈ s.queue := List.mem_of_find?_eq_some hfind
    refine (h.remove _ [r] List.erase_sublist ?_ ?_).save
    · intro r' hr'
      obtain rfl := List.mem_singleton.mp hr'
      exact ⟨hmem, h.nodup.not_mem_erase, hcareful r' hfind⟩
    · intro r' hr' hne
      exact (List.mem_erase_of_ne (by simpa using hne)).mpr hr'

theorem Inv.clear (h : Inv s loops) (hidle : ∀ loop ∈ loops, loop.rest = []) :
    Inv s.clear loops := by
  have hremoved := h.remove [] s.queue (List.nil_sublist _)
    (fun r hr => ⟨hr, List.not_mem_nil, fun loop hloop hmem => by
      rw [hidle loop hloop] at hmem
      cases hmem⟩)
    fun r hr hne => absurd hr hne
  exact Inv.save { hremoved with }

theorem Inv.retryFailed (h : Inv s loops) : Inv s.retryFailed loops := by
  have hstatus : ∀ r, s.status r ≠ .failed →
      (if r ∈ s.queue ∧ s.status r = .failed then
        { s.objects r with status := .pending, retryCount := 0, lastError := none }
      else s.objects r).status = s.status r := by
    intro r hne
    rw [if_neg fun hand => hne hand.2]
    rfl
  refine Inv.save ?_
  exact
    { h with
      live := by
        intro r hr hlive
        by_cases hfailed : s.status r = .failed
        · exact h.live r hr (by rw [hfailed]; decide)
        · exact h.live r hr fun hcompleted => hlive ((hstatus r hfailed).trans hcompleted)
      current := by
        intro loop hloop r hr
        obtain ⟨hprocessing, hlog⟩ := h.current loop hloop r hr
        exact ⟨(hstatus r (by rw [hprocessing]; decide)).trans hprocessing, hlog⟩
      rest := by
        intro loop hloop r hr
        obtain ⟨hqueue, hpending⟩ := h.rest loop hloop r hr
        exact ⟨hqueue, (hstatus r (by rw [hpending]; decide)).trans hpending⟩ }

theorem Inv.reload (h : Inv s loops) (isOnline : Bool)
    (hcareful : ∀ p ∈ s.stored, p.2.status ≠ .completed → Untouched s.log p.1) :
    Inv (s.reload isOnline) [] where
  once := h.once
  nodup := h.stored_nodup
  live := by
    intro r hr hlive
    obtain ⟨op, hlookup⟩ : ∃ op, s.stored.lookup r = some op := by
      obtain ⟨p, hp, rfl⟩ := List.mem_map.mp hr
      cases hfind : s.stored.lookup p.1 with
      | some op => exact ⟨op, rfl⟩
      | none =>
        have hnone := List.lookup_eq_none_iff.mp hfind p hp
        simp at hnone
    obtain ⟨l₁, l₂, hsplit, -⟩ := List.lookup_eq_some_iff.mp hlookup
    refine hcareful (r, op) (by rw [hsplit]; simp) fun hcompleted => hlive ?_
    have hne : op.status ≠ .processing := by rw [hcompleted]; decide
    simp only [State.status, State.reload, hlookup, if_neg hne]
    exact hcompleted
  held_nodup := List.nodup_nil
  current := fun loop hloop => absurd hloop List.not_mem_nil
  rest := fun loop hloop => absurd hloop List.not_mem_nil
  stored_nodup := h.stored_nodup
  queue_lt := h.stored_lt
  held_lt := fun r hr => absurd hr List.not_mem_nil
  stored_lt := h.stored_lt
  log_lt := h.log_lt

/-! ## Runs -/

def Sound (s : State δ) : Prop := Inv s s.loops

theorem Inv.sound (h : Inv s loops) (heq : s.loops = loops) : Sound s := by
  subst heq
  exact h

/-- **One step** of the service. -/
theorem Sound.step (h : Sound s) {a : Action δ} (hcareful : Careful s a) : Sound (step s a) := by
  have hsave : ∀ t : State δ, t.saveQueue.loops = t.loops := by
    intro t
    unfold State.saveQueue
    split <;> rfl
  cases a with
  | enqueue id type payload now =>
    have hloops : (s.enqueue id type payload now).loops = s.loops := hsave _
    exact (Inv.enqueue h id type payload now).sound hloops
  | processQueue now => exact Inv.processQueue h now hcareful
  | resume k now outcome => exact Inv.resume h k now outcome
  | removeOperation id =>
    have hloops : (s.removeOperation id).loops = s.loops := by
      unfold State.removeOperation
      split
      · rfl
      · exact hsave _
    exact (Inv.removeOperation h hcareful).sound hloops
  | retryFailed =>
    have hloops : s.retryFailed.loops = s.loops := hsave _
    exact (Inv.retryFailed h).sound hloops
  | clear =>
    have hloops : s.clear.loops = s.loops := hsave _
    exact (Inv.clear h hcareful).sound hloops
  | reload isOnline => exact Inv.reload h isOnline hcareful
  | online now => exact (Inv.setOnline h true).processQueue now hcareful
  | offline => exact Inv.setOnline h false
  | registerHandler type => exact { (show Inv s s.loops from h) with }
  | storage writable => exact { (show Inv s s.loops from h) with }

theorem sound_initial (blank : QueuedOperation δ) : Sound (State.initial blank) where
  once := ⟨fun _ => Nat.zero_le _, List.Pairwise.nil⟩
  nodup := List.nodup_nil
  live := fun _ hr => absurd hr List.not_mem_nil
  held_nodup := List.nodup_nil
  current := fun _ hloop => absurd hloop List.not_mem_nil
  rest := fun _ hloop => absurd hloop List.not_mem_nil
  stored_nodup := List.nodup_nil
  queue_lt := fun _ hr => absurd hr List.not_mem_nil
  held_lt := fun _ hr => absurd hr List.not_mem_nil
  stored_lt := fun _ hr => absurd hr List.not_mem_nil
  log_lt := fun _ he => absurd he List.not_mem_nil

/-- **Operations run at most once**, and not after their removal, along a run in
which nothing is removed or cleared that a call is still to start, no call starts
beside one with operations left, and no page is loaded from a copy with
operations that have succeeded or were removed. -/
theorem atMostOnce_run (blank : QueuedOperation δ) (actions : List (Action δ))
    (h : Run.Each step Careful (.initial blank) actions) :
    AtMostOnce (actions.foldl step (.initial blank)).log :=
  (h.preserves (fun _ _ hcareful hs => hs.step hcareful) (sound_initial blank)).once

/-- An operation before it is made. -/
def noOperation : QueuedOperation Unit :=
  ⟨"", .create_vault, (), .pending, "", 0, 0, none, none⟩

/-- An operation succeeds, another is removed, and the page is loaded again. -/
def removedLater : List (Action Unit) :=
  [.registerHandler .upload_file, .enqueue "op-1" .upload_file () "09:00", .processQueue "09:01",
    .resume 0 "09:02" .resolved, .enqueue "op-2" .upload_file () "09:03", .removeOperation "op-2",
    .clear, .reload true]

theorem atMostOnce_removedLater :
    AtMostOnce (removedLater.foldl step (.initial noOperation)).log :=
  atMostOnce_run noOperation removedLater (by decide)

/-- The second of two operations is removed while the handler of the first
runs. -/
def removedWhileProcessing : List (Action Unit) :=
  [.registerHandler .upload_file, .enqueue "op-1" .upload_file () "09:00",
    .enqueue "op-2" .upload_file () "09:00", .processQueue "09:01", .removeOperation "op-2",
    .resume 0 "09:02" .resolved]

/-- Its handler is called nevertheless. -/
theorem not_atMostOnce_removedWhileProcessing :
    ¬∀ (blank : QueuedOperation Unit) (actions : List (Action Unit)),
      AtMostOnce (actions.foldl step (.initial blank)).log := by
  intro h
  have hlog : (removedWhileProcessing.foldl step (.initial noOperation)).log
      = [.started 0, .removed 1, .succeeded 0, .started 1] := by decide
  have hafter := (h noOperation removedWhileProcessing).notAfter
  rw [hlog] at hafter
  simp at hafter

end UsbVault.App.OfflineQueue
