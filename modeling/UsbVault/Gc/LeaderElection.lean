import UsbVault.Lib.Lease
import UsbVault.Lib.Run

/-!
# The leader of the garbage collection

Every replica of the server has a scheduler of the clean-up jobs
(`internal/gc/scheduler.go`) and runs them only while it is the leader, which
is the one whose name is under the lock key in Redis
(`internal/gc/leader.go`). The name runs out unless its owner prolongs it. No two
replicas have one name, and a command takes effect no later than its answer.

A replica relies on the lock while its flag is up, while a job of it runs, and
between a command to Redis and what it does upon the answer (`Relies`). As long
as the lock never runs out under its owner, every replica that relies on the
lock holds it, and no two replicas run jobs (`jobs_exclusive`). The condition
is exact (`backed_iff_timely`): a job that outlives the lock is enough to break
it, since a failed renewal takes the flag down and leaves the job running.
-/

namespace UsbVault.Gc

open Expiring

abbrev InstanceID := String

abbrev JobName := String

/-! ## A replica -/

/-- How a command to Redis ends: carried out and answered, carried out with an
error for an answer, or not carried out. -/
inductive Reply where
  | ok
  | lost
  | refused
  deriving DecidableEq, Repr

/-- Where the loop of the elector is. -/
inductive Pc where
  /-- In its `select`. -/
  | waiting
  /-- `SETNX` has been answered. -/
  | acquired (ok : Bool)
  /-- `tryRenew` has read the lock. -/
  | verified (own : Bool)
  /-- `release` has taken the flag down. -/
  | releasing
  /-- `release` has found its own name. -/
  | deleting
  /-- The process is not there. -/
  | down
  deriving DecidableEq, Repr

/-- The scheduler: `Stop` cancels the loops of the jobs and waits for them. -/
inductive Phase where
  | running
  | stopping
  | stopped
  deriving DecidableEq, Repr

/-- A replica: `LeaderElector.isLeader`, the elector's loop, the scheduler, and
the jobs that run. -/
structure Instance where
  isLeader : Bool
  pc : Pc
  phase : Phase
  running : List JobName
  deriving DecidableEq, Repr

/-- A process that has just started both. -/
def Instance.fresh : Instance := ⟨false, .waiting, .running, []⟩

def Instance.off : Instance := ⟨false, .down, .stopped, []⟩

structure Config where
  lockKey : String
  ttl : Nat

/-- What a replica does next. The elector's loop goes on at a tick or, within
an operation, upon an answer; each job has a loop of its own. -/
inductive Act where
  | start
  | crash
  | tick (reply : Reply)
  | resume (reply : Reply)
  | executeJob (job : JobName)
  | finish (job : JobName)
  | stopScheduler
  | drained
  | stop
  deriving DecidableEq, Repr

section Replica

variable (C : Config) (i : InstanceID) (now : Nat) (redis : Keys String InstanceID) (x : Instance)

/-- `tryAcquire`, up to the answer. -/
def tryAcquire : Reply → Instance × Keys String InstanceID
  | .ok =>
    ({ x with pc := .acquired (redis.setNX now C.ttl C.lockKey i).1 },
      (redis.setNX now C.ttl C.lockKey i).2)
  | .lost => ({ x with pc := .acquired false }, (redis.setNX now C.ttl C.lockKey i).2)
  | .refused => ({ x with pc := .acquired false }, redis)

/-- The lock is read, and holds the replica's own name. -/
def ownsLock (reply : Reply) : Bool := reply = .ok ∧ redis.get now C.lockKey = some i

/-- What the elector's loop does upon an answer. -/
def resume (reply : Reply) : Instance × Keys String InstanceID :=
  match x.pc with
  | .acquired ok => ({ x with isLeader := ok, pc := .waiting }, redis)
  | .verified true =>
    ({ x with pc := .waiting },
      if reply = .refused then redis else redis.expire now C.ttl C.lockKey)
  | .verified false => ({ x with isLeader := false, pc := .waiting }, redis)
  | .releasing =>
    ({ x with pc := if ownsLock C i now redis reply then .deleting else .down }, redis)
  | .deleting =>
    ({ x with pc := .down }, if reply = .refused then redis else redis.delete C.lockKey)
  | .waiting => (x, redis)
  | .down => (x, redis)

def act : Act → Instance × Keys String InstanceID
  | .start => (if x.pc = .down then .fresh else x, redis)
  | .crash => (.off, redis)
  | .tick reply =>
    if x.pc = .waiting then
      if x.isLeader then ({ x with pc := .verified (ownsLock C i now redis reply) }, redis)
      else tryAcquire C i now redis x reply
    else (x, redis)
  | .resume reply => resume C i now redis x reply
  -- a job's loop runs it once at a time, and skips it when not the leader
  | .executeJob job =>
    (if x.phase ≠ .stopped ∧ job ∉ x.running ∧ x.isLeader = true then
      { x with running := job :: x.running } else x, redis)
  | .finish job => ({ x with running := x.running.filter (· ≠ job) }, redis)
  | .stopScheduler => (if x.phase = .running then { x with phase := .stopping } else x, redis)
  | .drained =>
    (if x.phase = .stopping ∧ x.running = [] then { x with phase := .stopped } else x, redis)
  -- `Shutdown` stops the elector once the scheduler has stopped
  | .stop =>
    (if x.phase = .stopped ∧ x.pc = .waiting then
      { x with isLeader := false, pc := if x.isLeader then .releasing else .down } else x, redis)

end Replica

/-! ## All replicas -/

structure Cluster where
  now : Nat
  redis : Keys String InstanceID
  instances : InstanceID → Instance

def start : Cluster := ⟨0, .empty, fun _ => .off⟩

inductive Event where
  | advance (ms : Nat)
  | act (i : InstanceID) (a : Act)
  deriving DecidableEq, Repr

variable (C : Config)

def step (s : Cluster) : Event → Cluster
  | .advance ms => { s with now := s.now + ms }
  | .act i a =>
    { s with
      redis := (act C i s.now s.redis (s.instances i) a).2
      instances :=
        Function.update s.instances i (act C i s.now s.redis (s.instances i) a).1 }

def run (es : List Event) : Cluster := es.foldl (step C) start

/-- The replica relies on the lock. -/
def Relies (x : Instance) : Prop :=
  x.isLeader = true ∨ x.running ≠ [] ∨ x.pc = .acquired true ∨ x.pc = .deleting

instance (x : Instance) : Decidable (Relies x) :=
  inferInstanceAs (Decidable (x.isLeader = true ∨ x.running ≠ [] ∨ _ ∨ _))

/-- Every replica that relies on the lock holds it. -/
def Backed (s : Cluster) : Prop :=
  s.redis.Backed (fun i => Relies (s.instances i)) s.now C.lockKey

/-- The lock does not run out while its owner relies on it. -/
def Timely (s : Cluster) : Event → Prop
  | .advance ms =>
    ∀ e ∈ s.redis.entry C.lockKey, e.2 < s.now + ms → ¬Relies (s.instances e.1)
  | .act _ _ => True

instance (s : Cluster) : (e : Event) → Decidable (Timely C s e)
  | .advance ms =>
    inferInstanceAs (Decidable (∀ e ∈ s.redis.entry C.lockKey, e.2 < s.now + ms → ¬_))
  | .act _ _ => isTrue trivial

/-! ## One step of a replica -/

/-- Once the scheduler has stopped no job runs, and the elector stops later. -/
structure Orderly (x : Instance) : Prop where
  idle : x.phase = .stopped → x.running = []
  leaving : x.pc = .releasing ∨ x.pc = .deleting ∨ x.pc = .down →
    x.phase = .stopped ∧ x.isLeader = false

theorem Orderly.fresh : Orderly .fresh := by
  constructor
  · rintro ⟨⟩
  · rintro (⟨⟨⟩⟩ | ⟨⟨⟩⟩ | ⟨⟨⟩⟩)

theorem Orderly.off : Orderly .off := ⟨fun _ => rfl, fun _ => ⟨rfl, rfl⟩⟩

theorem Orderly.not_relies {x : Instance} (h : Orderly x) (hdown : x.pc = .down) : ¬Relies x := by
  obtain ⟨hphase, hflag⟩ := h.leaving (.inr (.inr hdown))
  rintro (hleads | hruns | hacquired | hdeleting)
  · rw [hflag] at hleads
    cases hleads
  · exact hruns (h.idle hphase)
  · rw [hdown] at hacquired
    cases hacquired
  · rw [hdown] at hdeleting
    cases hdeleting

variable {C} {i : InstanceID} {now : Nat} {redis : Keys String InstanceID} {x : Instance}

theorem tryAcquire_instance (reply : Reply) :
    ∃ ok, (tryAcquire C i now redis x reply).1 = { x with pc := .acquired ok } := by
  cases reply with
  | ok => exact ⟨_, rfl⟩
  | lost => exact ⟨false, rfl⟩
  | refused => exact ⟨false, rfl⟩

/-- The elector's loop is in the middle of an operation or back in its
`select`; the jobs and their loops are as they were. -/
theorem Orderly.at {pc : Pc} (h : Orderly x)
    (hpc : ¬(pc = .releasing ∨ pc = .deleting ∨ pc = .down)) :
    Orderly { x with pc := pc } :=
  ⟨h.idle, fun hleaving => absurd hleaving hpc⟩

theorem Orderly.resume (h : Orderly x) (reply : Reply) :
    Orderly (resume C i now redis x reply).1 := by
  rw [Gc.resume]
  split
  · exact ⟨h.idle, by rintro (⟨⟨⟩⟩ | ⟨⟨⟩⟩ | ⟨⟨⟩⟩)⟩
  · exact h.at (by rintro (⟨⟨⟩⟩ | ⟨⟨⟩⟩ | ⟨⟨⟩⟩))
  · exact ⟨h.idle, by rintro (⟨⟨⟩⟩ | ⟨⟨⟩⟩ | ⟨⟨⟩⟩)⟩
  · rename_i hpc
    exact ⟨h.idle, fun _ => h.leaving (.inl hpc)⟩
  · rename_i hpc
    exact ⟨h.idle, fun _ => h.leaving (.inr (.inl hpc))⟩
  · exact h
  · exact h

theorem Orderly.act (h : Orderly x) (a : Act) : Orderly (act C i now redis x a).1 := by
  cases a with
  | start =>
    dsimp only [Gc.act]
    split
    · exact .fresh
    · exact h
  | crash => exact .off
  | tick reply =>
    dsimp only [Gc.act]
    split
    · split
      · exact h.at (by rintro (⟨⟨⟩⟩ | ⟨⟨⟩⟩ | ⟨⟨⟩⟩))
      · obtain ⟨ok, hnext⟩ := @tryAcquire_instance C i now redis x reply
        rw [hnext]
        exact h.at (by rintro (⟨⟨⟩⟩ | ⟨⟨⟩⟩ | ⟨⟨⟩⟩))
    · exact h
  | resume reply => exact h.resume reply
  | executeJob job =>
    dsimp only [Gc.act]
    split
    · rename_i hruns
      exact ⟨fun hstopped => absurd hstopped hruns.1, h.leaving⟩
    · exact h
  | finish job =>
    refine ⟨fun hstopped => ?_, h.leaving⟩
    dsimp only [Gc.act]
    rw [h.idle hstopped, List.filter_nil]
  | stopScheduler =>
    dsimp only [Gc.act]
    split
    · rename_i hrunning
      refine ⟨by rintro ⟨⟩, fun hleaving => ?_⟩
      have hstopped := (h.leaving hleaving).1
      rw [hrunning] at hstopped
      cases hstopped
    · exact h
  | drained =>
    dsimp only [Gc.act]
    split
    · rename_i hdone
      exact ⟨fun _ => hdone.2, fun hleaving => ⟨rfl, (h.leaving hleaving).2⟩⟩
    · exact h
  | stop =>
    dsimp only [Gc.act]
    split
    · rename_i hstops
      exact ⟨h.idle, fun _ => ⟨hstops.1, rfl⟩⟩
    · exact h

/-! ## What a step does to the lock -/

/-- **What a step does**: it keeps the lock and relies on it as before, or less;
it takes the free lock; it has found its own name in it; or it deletes the lock
it has relied on. -/
inductive Does (C : Config) (i : InstanceID) (now : Nat) (redis : Keys String InstanceID)
    (x : Instance) : Instance × Keys String InstanceID → Prop
  | keeps {x' redis'} (hget : redis'.get now C.lockKey = redis.get now C.lockKey)
      (hrelies : Relies x' → Relies x) : Does C i now redis x (x', redis')
  | takes {x'} (hset : (redis.setNX now C.ttl C.lockKey i).1 = true) :
      Does C i now redis x (x', (redis.setNX now C.ttl C.lockKey i).2)
  | finds {x'} (hget : redis.get now C.lockKey = some i) : Does C i now redis x (x', redis)
  | deletes {x'} (hrelied : Relies x) (hleft : ¬Relies x') :
      Does C i now redis x (x', redis.delete C.lockKey)

theorem does_tryAcquire (reply : Reply) :
    Does C i now redis x (tryAcquire C i now redis x reply) := by
  have hwaits : ∀ {ok}, ok = false → Relies { x with pc := .acquired ok } → Relies x := by
    rintro ok rfl (hleads | hruns | ⟨⟨⟩⟩ | ⟨⟨⟩⟩)
    · exact .inl hleads
    · exact .inr (.inl hruns)
  cases hset : (redis.setNX now C.ttl C.lockKey i).1 with
  | true =>
    cases reply with
    | ok => exact .takes hset
    | lost => exact .takes hset
    | refused => exact .keeps rfl (hwaits rfl)
  | false =>
    have hsame : (redis.setNX now C.ttl C.lockKey i).2 = redis := by
      cases hget : redis.get now C.lockKey with
      | some w => rw [Keys.setNX_of_some hget]
      | none =>
        rw [Keys.setNX_of_none hget] at hset
        cases hset
    cases reply with
    | ok => exact .keeps (by rw [hsame]) (hwaits hset)
    | lost => exact .keeps (by rw [hsame]) (hwaits rfl)
    | refused => exact .keeps rfl (hwaits rfl)

theorem ownsLock_eq_true {reply : Reply} (h : ownsLock C i now redis reply = true) :
    redis.get now C.lockKey = some i := (of_decide_eq_true h).2

theorem does_resume (hx : Orderly x) (reply : Reply) :
    Does C i now redis x (resume C i now redis x reply) := by
  rw [resume]
  split
  · rename_i ok hpc
    refine .keeps rfl ?_
    rintro (rfl | hruns | ⟨⟨⟩⟩ | ⟨⟨⟩⟩)
    · exact .inr (.inr (.inl hpc))
    · exact .inr (.inl hruns)
  · refine .keeps ?_ ?_
    · split
      · rfl
      · exact Keys.get_expire
    · rintro (hleads | hruns | ⟨⟨⟩⟩ | ⟨⟨⟩⟩)
      · exact .inl hleads
      · exact .inr (.inl hruns)
  · refine .keeps rfl ?_
    rintro (⟨⟨⟩⟩ | hruns | ⟨⟨⟩⟩ | ⟨⟨⟩⟩)
    exact .inr (.inl hruns)
  · rename_i hpc
    cases howns : ownsLock C i now redis reply with
    | true => exact .finds (ownsLock_eq_true howns)
    | false =>
      refine .keeps rfl ?_
      rintro (hleads | hruns | ⟨⟨⟩⟩ | ⟨⟨⟩⟩)
      · exact .inl hleads
      · exact .inr (.inl hruns)
  · rename_i hpc
    have hleft : ¬Relies { x with pc := .down } :=
      Orderly.not_relies ⟨hx.idle, fun _ => hx.leaving (.inr (.inl hpc))⟩ rfl
    split
    · exact .keeps rfl fun hrelies => absurd hrelies hleft
    · exact .deletes (.inr (.inr (.inr hpc))) hleft
  · exact .keeps rfl id
  · exact .keeps rfl id

theorem does_act (hx : Orderly x) (a : Act) :
    Does C i now redis x (act C i now redis x a) := by
  cases a with
  | start =>
    refine .keeps rfl ?_
    split
    · rintro (⟨⟨⟩⟩ | hruns | ⟨⟨⟩⟩ | ⟨⟨⟩⟩)
      exact absurd rfl hruns
    · exact id
  | crash =>
    exact .keeps rfl fun hrelies => absurd hrelies (Orderly.off.not_relies rfl)
  | tick reply =>
    dsimp only [act]
    split
    · rename_i hpc
      cases hflag : x.isLeader with
      | true => exact .keeps rfl fun _ => .inl hflag
      | false => exact does_tryAcquire reply
    · exact .keeps rfl id
  | resume reply => exact does_resume hx reply
  | executeJob job =>
    refine .keeps rfl ?_
    split
    · rename_i hruns
      exact fun _ => .inl hruns.2.2
    · exact id
  | finish job =>
    refine .keeps rfl ?_
    rintro (hleads | hruns | hpc)
    · exact .inl hleads
    · refine .inr (.inl fun hnone => hruns ?_)
      simp only [hnone, List.filter_nil]
    · exact .inr (.inr hpc)
  | stopScheduler =>
    refine .keeps rfl ?_
    split
    · exact id
    · exact id
  | drained =>
    refine .keeps rfl ?_
    split
    · exact id
    · exact id
  | stop =>
    refine .keeps rfl ?_
    split
    · rename_i hstops
      rintro (⟨⟨⟩⟩ | hruns | hacquired | hdeleting)
      · exact .inr (.inl hruns)
      · dsimp only at hacquired
        split at hacquired
        · cases hacquired
        · cases hacquired
      · dsimp only at hdeleting
        split at hdeleting
        · cases hdeleting
        · cases hdeleting
    · exact id

/-! ## Runs -/

variable {s : Cluster} {es : List Event}

theorem step_orderly (h : ∀ j, Orderly (s.instances j)) (e : Event) (j : InstanceID) :
    Orderly ((step C s e).instances j) := by
  cases e with
  | advance ms => exact h j
  | act i a =>
    by_cases hj : j = i
    · subst hj
      simpa [step] using (h j).act a
    · simpa [step, Function.update_of_ne hj] using h j

theorem start_orderly (j : InstanceID) : Orderly (start.instances j) := .off

theorem start_backed : Backed C start := by
  intro j hrelies
  exact absurd hrelies (Orderly.off.not_relies rfl)

/-- **One step**: each keeps the lock with those that rely on it, but for time
that passes, which may not run the lock out under its owner. -/
theorem backed_step (horderly : ∀ j, Orderly (s.instances j)) (h : Backed C s) (e : Event) :
    Backed C (step C s e) ↔ Timely C s e := by
  cases e with
  | advance ms => exact h.later_iff
  | act i a =>
    refine iff_of_true ?_ trivial
    have hothers : ∀ j, j ≠ i → Relies ((step C s (.act i a)).instances j) →
        Relies (s.instances j) := by
      intro j hj
      simp only [step, Function.update_of_ne hj, imp_self]
    have hself : (step C s (.act i a)).instances i
        = (act C i s.now s.redis (s.instances i) a).1 := by
      simp only [step, Function.update_self]
    have hredis : (step C s (.act i a)).redis
        = (act C i s.now s.redis (s.instances i) a).2 := rfl
    have hdoes := @does_act C i s.now s.redis (s.instances i) (horderly i) a
    generalize act C i s.now s.redis (s.instances i) a = next at hself hredis hdoes
    rw [Backed, hredis]
    cases hdoes with
    | keeps hget hrelies =>
      refine Keys.Backed.mono h (fun j hj => ?_) hget
      by_cases hji : j = i
      · subst hji
        rw [hself] at hj
        exact hrelies hj
      · exact hothers j hji hj
    | takes hset =>
      refine Keys.Backed.setNX h hset fun j hj => ?_
      by_cases hji : j = i
      · exact .inl hji
      · exact .inr (hothers j hji hj)
    | finds hget =>
      intro j hj
      by_cases hji : j = i
      · rw [hji]
        exact hget
      · exact h j (hothers j hji hj)
    | deletes hrelied hleft =>
      refine Keys.Backed.delete h hrelied fun j hj => ?_
      by_cases hji : j = i
      · subst hji
        rw [hself] at hj
        exact absurd hj hleft
      · exact ⟨hothers j hji hj, hji⟩

/-- **The exact condition**: along a run, every replica that relies on the lock
holds it, just when the lock never runs out under an owner that relies on it. -/
theorem backed_iff_timely (C : Config) (es : List Event) :
    (∀ pre post, es = pre ++ post → Backed C (run C pre))
      ↔ Run.Each (step C) (Timely C) start es :=
  @Run.Each.iff_prefixes_beside _ _ (step C) (Timely C)
    (fun s : Cluster => ∀ j, Orderly (s.instances j)) (Backed C)
    (fun _ e h => step_orderly h e) (fun _ e horderly h => backed_step horderly h e) es
    start start_orderly start_backed

/-- The replica is the leader, or a job of it runs. -/
def Works (x : Instance) : Prop := x.isLeader = true ∨ x.running ≠ []

theorem Works.relies (h : Works x) : Relies x := h.imp_right .inl

/-- **No two replicas work**: while locks are prolonged in time, there is one
leader at most, and jobs run on one replica at most. -/
theorem jobs_exclusive (C : Config) (es : List Event)
    (h : Run.Each (step C) (Timely C) start es) (i j : InstanceID)
    (hi : Works ((run C es).instances i)) (hj : Works ((run C es).instances j)) : i = j := by
  have hbacked := (backed_iff_timely C es).mpr h es [] (List.append_nil es).symm
  exact Keys.Backed.unique hbacked hi.relies hj.relies

/-- The ttl of `services.go`, in milliseconds. -/
def sampleConfig : Config := ⟨"usbvault:gc:leader", 30000⟩

def acquires (i : InstanceID) : List Event :=
  [.act i .start, .act i (.tick .ok), .act i (.resume .ok)]

/-- The first replica prolongs the lock while a job of it runs, and shuts down.
The second starts in the meantime, and takes over. -/
def sampleHandover : List Event :=
  List.flatten
    [acquires "api-1", acquires "api-2",
     [.act "api-1" (.executeJob "s3_orphan"), .advance 10000, .act "api-1" (.tick .ok),
      .act "api-1" (.resume .ok), .advance 25000, .act "api-1" .stopScheduler,
      .act "api-1" (.finish "s3_orphan"), .act "api-1" .drained, .act "api-1" .stop,
      .act "api-1" (.resume .ok), .act "api-1" (.resume .ok), .act "api-2" (.tick .ok),
      .act "api-2" (.resume .ok), .act "api-2" (.executeJob "s3_orphan")]]

theorem jobs_exclusive_sample :
    Works ((run sampleConfig sampleHandover).instances "api-2")
      ∧ ¬Works ((run sampleConfig sampleHandover).instances "api-1") := by
  have htimely : Run.Each (step sampleConfig) (Timely sampleConfig) start sampleHandover := by
    decide
  have hworks : Works ((run sampleConfig sampleHandover).instances "api-2") := .inl (by decide)
  refine ⟨hworks, fun hboth => ?_⟩
  have hsame := jobs_exclusive sampleConfig sampleHandover htimely _ _ hboth hworks
  exact absurd hsame (by decide)

/-- A failed renewal takes the flag down; the job goes on, the lock runs out,
and the other replica starts the same job. -/
def sampleOutage : List Event :=
  List.flatten
    [acquires "api-1",
     [.act "api-1" (.executeJob "s3_orphan"), .advance 10000, .act "api-1" (.tick .refused),
      .act "api-1" (.resume .refused), .advance 20001], acquires "api-2",
     [.act "api-2" (.executeJob "s3_orphan")]]

example : ((run sampleConfig sampleOutage).instances "api-1").running = ["s3_orphan"]
    ∧ ((run sampleConfig sampleOutage).instances "api-2").running = ["s3_orphan"] := by
  decide

/-! ## Taking over -/

/-- No command reaches Redis. -/
def Silent : Event → Prop
  | .act _ (.tick reply) => reply = .refused
  | .act _ (.resume reply) => reply = .refused
  | _ => True

/-- The time that passes. -/
def elapsed : List Event → Nat
  | [] => 0
  | .advance ms :: es => ms + elapsed es
  | .act _ _ :: es => elapsed es

/-- The lock runs out within its time to live. -/
def Bounded (C : Config) (s : Cluster) : Prop :=
  ∀ e ∈ s.redis.entry C.lockKey, e.2 ≤ s.now + C.ttl

/-- The lock that an operation leaves is the one there was, one set now, or none. -/
theorem entry_act (a : Act) :
    (act C i now redis x a).2.entry C.lockKey = redis.entry C.lockKey
      ∨ (∃ v, (act C i now redis x a).2.entry C.lockKey = some (v, now + C.ttl))
      ∨ (act C i now redis x a).2.entry C.lockKey = none := by
  have hset : (redis.setNX now C.ttl C.lockKey i).2.entry C.lockKey = redis.entry C.lockKey
      ∨ ∃ v, (redis.setNX now C.ttl C.lockKey i).2.entry C.lockKey = some (v, now + C.ttl) := by
    cases hget : redis.get now C.lockKey with
    | some w => exact .inl (by rw [Keys.setNX_of_some hget])
    | none => exact .inr ⟨i, by rw [Keys.setNX_of_none hget, Keys.entry_set_self]⟩
  cases a with
  | tick reply =>
    dsimp only [act]
    split
    · split
      · exact .inl rfl
      · cases reply with
        | ok => exact hset.imp_right .inl
        | lost => exact hset.imp_right .inl
        | refused => exact .inl rfl
    · exact .inl rfl
  | resume reply =>
    dsimp only [act, resume]
    split
    · exact .inl rfl
    · dsimp only
      split
      · exact .inl rfl
      · cases hget : redis.get now C.lockKey with
        | some w =>
          exact .inr (.inl ⟨w, by rw [Keys.expire_of_some hget, Keys.entry_set_self]⟩)
        | none => exact .inl (by rw [Keys.expire_of_none hget])
    · exact .inl rfl
    · exact .inl rfl
    · dsimp only
      split
      · exact .inl rfl
      · exact .inr (.inr Keys.entry_delete_self)
    · exact .inl rfl
    · exact .inl rfl
  | start => exact .inl rfl
  | crash => exact .inl rfl
  | executeJob job => exact .inl rfl
  | finish job => exact .inl rfl
  | stopScheduler => exact .inl rfl
  | drained => exact .inl rfl
  | stop => exact .inl rfl

theorem bounded_step (h : Bounded C s) (e : Event) : Bounded C (step C s e) := by
  cases e with
  | advance ms =>
    intro e he
    have hle := h e he
    show e.2 ≤ s.now + ms + C.ttl
    omega
  | act i a =>
    intro e he
    have hkept : (step C s (.act i a)).redis.entry C.lockKey
        = (act C i s.now s.redis (s.instances i) a).2.entry C.lockKey := rfl
    rw [hkept] at he
    rcases @entry_act C i s.now s.redis (s.instances i) a with hsame | ⟨v, hset⟩ | hnone
    · rw [hsame] at he
      exact h e he
    · rw [hset] at he
      cases he
      exact Nat.le_refl _
    · rw [hnone] at he
      cases he

theorem start_bounded : Bounded C start := by
  rintro e ⟨⟩

theorem bounded_run (C : Config) (es : List Event) : Bounded C (run C es) :=
  @Run.foldl_preserves _ _ (step C) (Bounded C) (fun _ => True)
    (fun _ e _ h => bounded_step h e) es start (fun _ _ => trivial) start_bounded

theorem step_silent {e : Event} (h : Silent e) :
    (step C s e).redis = s.redis ∧ (step C s e).now = s.now + elapsed [e] := by
  cases e with
  | advance ms => exact ⟨rfl, rfl⟩
  | act i a =>
    refine ⟨?_, rfl⟩
    dsimp only [step]
    cases a with
    | tick reply =>
      cases (h : reply = .refused)
      dsimp only [act]
      split
      · split
        · rfl
        · rfl
      · rfl
    | resume reply =>
      cases (h : reply = .refused)
      dsimp only [act, resume]
      split
      · rfl
      · rfl
      · rfl
      · rfl
      · rfl
      · rfl
      · rfl
    | start => rfl
    | crash => rfl
    | executeJob job => rfl
    | finish job => rfl
    | stopScheduler => rfl
    | drained => rfl
    | stop => rfl

theorem elapsed_cons (e : Event) (es : List Event) :
    elapsed (e :: es) = elapsed [e] + elapsed es := by
  cases e with
  | advance ms => rfl
  | act i a => exact (Nat.zero_add _).symm

theorem run_silent (h : ∀ e ∈ es, Silent e) :
    ∀ s, (es.foldl (step C) s).redis = s.redis
      ∧ (es.foldl (step C) s).now = s.now + elapsed es := by
  induction es with
  | nil => exact fun s => ⟨rfl, rfl⟩
  | cons e es ih =>
    intro s
    obtain ⟨hredis, hnow⟩ := @step_silent C s e (h e List.mem_cons_self)
    have hrest : ∀ e' ∈ es, Silent e' := fun e' he' => h e' (List.mem_cons_of_mem e he')
    obtain ⟨hredis', hnow'⟩ := ih hrest (step C s e)
    rw [List.foldl_cons, hredis', hnow', hredis, hnow, elapsed_cons e es, Nat.add_assoc]
    exact ⟨rfl, rfl⟩

/-- **A dead leader is replaced**: when nobody has reached Redis for longer than
the time to live, whatever came before, the next replica whose tick does is the
leader, and holds the lock. -/
theorem takeover (C : Config) (es silence : List Event) (i : InstanceID)
    (hsilent : ∀ e ∈ silence, Silent e) (hlong : C.ttl < elapsed silence)
    (hwaits : ((run C (es ++ silence)).instances i).pc = .waiting)
    (hflag : ((run C (es ++ silence)).instances i).isLeader = false) :
    ((run C (es ++ silence
        ++ ([.act i (.tick .ok), .act i (.resume .ok)] : List Event))).instances i).isLeader = true
      ∧ (run C (es ++ silence
          ++ ([.act i (.tick .ok), .act i (.resume .ok)] : List Event))).redis.get
          (run C (es ++ silence)).now C.lockKey = some i := by
  have hsplit : run C (es ++ silence) = silence.foldl (step C) (run C es) := List.foldl_append
  obtain ⟨hredis, hnow⟩ := @run_silent C silence hsilent (run C es)
  rw [← hsplit] at hredis hnow
  have hfree : (run C (es ++ silence)).redis.get (run C (es ++ silence)).now C.lockKey = none := by
    rw [hredis, hnow]
    cases hget : (run C es).redis.get ((run C es).now + elapsed silence) C.lockKey with
    | none => rfl
    | some v =>
      obtain ⟨last, hentry, hle⟩ := Keys.get_eq_some.mp hget
      have hbound : last ≤ (run C es).now + C.ttl := bounded_run C es (v, last) hentry
      omega
  generalize hs : run C (es ++ silence) = s at hwaits hflag hfree
  have hrun : run C (es ++ silence ++ ([.act i (.tick .ok), .act i (.resume .ok)] : List Event))
      = step C (step C s (.act i (.tick .ok))) (.act i (.resume .ok)) := by
    rw [run, List.foldl_append, ← hs]
    rfl
  have htick : step C s (.act i (.tick .ok))
      = ⟨s.now, s.redis.set s.now C.ttl C.lockKey i,
        Function.update s.instances i { s.instances i with pc := .acquired true }⟩ := by
    simp only [step, act, hwaits, if_true, hflag, Bool.false_eq_true, if_false, tryAcquire,
      Keys.setNX_of_none hfree]
  rw [hrun, htick]
  constructor
  · simp only [step, act, resume, Function.update_self]
  · simp only [step, act, resume, Function.update_self]
    exact Keys.get_set_self

/-- The leader dies. The other replica has found the lock held, and waits. -/
def sampleDeath : List Event :=
  List.flatten
    [acquires "api-1", acquires "api-2",
     [.act "api-1" (.executeJob "s3_orphan"), .act "api-1" .crash]]

theorem takeover_sample :
    ((run sampleConfig (sampleDeath ++ ([.advance 30001] : List Event)
        ++ ([.act "api-2" (.tick .ok), .act "api-2" (.resume .ok)] : List Event))).instances
          "api-2").isLeader = true
      ∧ (run sampleConfig (sampleDeath ++ ([.advance 30001] : List Event)
          ++ ([.act "api-2" (.tick .ok), .act "api-2" (.resume .ok)] : List Event))).redis.get
          (run sampleConfig (sampleDeath ++ ([.advance 30001] : List Event))).now
          "usbvault:gc:leader"
        = some "api-2" := by
  have hsilent : ∀ e ∈ [Event.advance 30001], Silent e := by
    intro e he
    cases List.mem_singleton.mp he
    trivial
  exact takeover sampleConfig sampleDeath [.advance 30001] "api-2" hsilent (by decide)
    (by decide) (by decide)

end UsbVault.Gc
