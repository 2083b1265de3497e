import UsbVault.Lib.Calls
import UsbVault.Lib.Table
import UsbVault.Migrations.Files

/-!
# Migration runners

`Migrate` of `migrations/migrate.go`, called by any number of processes at
once: the replicas as they start and the job before a rollout. A runner holds
an advisory lock of the database while it works, but only in the session that
it has taken it in; its statements go through other connections of the pool.

As long as no session with the lock ends under a runner that works, runners
work one at a time (`one_works`), every migration is committed once at most,
and a runner that ends without error leaves none of its own undone
(`applied_once`). Runners of the same directory apply its migrations in order,
from the first to the last (`applied_in_order`).
-/

namespace UsbVault.Migrations

open Calls Tables

/-! ## The database -/

/-- `schema_migrations`, if it is there; the migrations whose SQL has been
committed, in order; and the runner whose session holds the advisory lock. -/
structure Database where
  schemaMigrations : Option (List (Int × String))
  history : List Migration
  lock : Option Nat
  deriving DecidableEq, Repr

namespace Database

/-- A database that no runner has used yet. -/
def start (rows : Option (List (Int × String))) : Database := ⟨rows, [], none⟩

/-- `SELECT version FROM schema_migrations`; a table that does not exist counts as
an empty one. Other errors that say "does not exist" are not told apart. -/
def versions (d : Database) : List Int := (d.schemaMigrations.getD []).map Prod.fst

/-- `CREATE TABLE IF NOT EXISTS` -/
def createTable (d : Database) : Database :=
  { d with schemaMigrations := some (d.schemaMigrations.getD []) }

/-- The transaction of `applyMigration`: the SQL, and the row unless there is
one of the version (`ON CONFLICT DO NOTHING`). -/
def apply (d : Database) (mig : Migration) : Database :=
  { d with
    schemaMigrations :=
      d.schemaMigrations.map fun rows =>
        if mig.version ∈ rows.map Prod.fst then rows else rows ++ [(mig.version, mig.name)]
    history := d.history ++ [mig] }

def take (d : Database) (k : Nat) : Database := { d with lock := some k }

/-- Only the session that holds the lock releases it. -/
def release (d : Database) (k : Nat) : Database :=
  if d.lock = some k then { d with lock := none } else d

end Database

/-! ## A runner -/

/-- The statement that comes next. -/
inductive Pc where
  | lock
  | createTable
  | readFiles
  | query (migrations : List Migration)
  | loop (appliedVersions : List Int) (left : List Migration)
  | commit (appliedVersions : List Int) (migration : Migration) (left : List Migration)
  | unlock (ok : Bool)
  | ended (ok : Bool)
  deriving DecidableEq, Repr

structure Runner where
  dir : Option (List DirEntry)
  pc : Pc
  deriving DecidableEq, Repr

/-- The process can die between any two statements, and all its sessions end. -/
inductive Outcome where
  | answer (e : Execution)
  | crash
  deriving DecidableEq, Repr

inductive Event where
  | migrate (dir : Option (List DirEntry))
  /-- The session that holds the lock ends. -/
  | sessionEnds
  deriving DecidableEq, Repr

variable (sort : List Migration → List Migration)

/-- A runner that fails unlocks all the same. -/
def Pc.orFail (pc : Pc) (e : Execution) : Pc := if e = .done then pc else .unlock false

def Pc.crash : Pc → Pc
  | .ended ok => .ended ok
  | _ => .ended false

def Database.onTook (d d' : Database) (e : Execution) : Database := if e.Took then d' else d

/-- `Migrate`, statement by statement. -/
def exec (k : Nat) (d : Database) (r : Runner) (e : Execution) : Database × Pc :=
  match r.pc with
  -- `pg_advisory_lock` waits; at the time limit the answer is lost if granted
  | .lock =>
    match e with
    | .done => if d.lock = none then (d.take k, .createTable) else (d, .lock)
    | .failed => (d, .ended false)
    | .unacknowledged => (if d.lock = none then d.take k else d, .ended false)
  | .createTable => (d.onTook d.createTable e, Pc.orFail .readFiles e)
  | .readFiles =>
    match readMigrations sort r.dir with
    | .ok migrations => (d, .query migrations)
    | .error _ => (d, .unlock false)
  | .query migrations => (d, Pc.orFail (.loop d.versions migrations) e)
  | .loop _ [] => (d, .unlock true)
  | .loop appliedVersions (migration :: left) =>
    if migration.version ∈ appliedVersions then (d, .loop appliedVersions left)
    else (d, Pc.orFail (.commit appliedVersions migration left) e)
  | .commit appliedVersions migration left =>
    (d.onTook (d.apply migration) e, Pc.orFail (.loop appliedVersions left) e)
  | .unlock ok => (d.onTook (d.release k) e, .ended ok)
  | .ended ok => (d, .ended ok)

def service : Service Database Runner Event Outcome where
  world d
    | .migrate dir => (d, some ⟨dir, .lock⟩)
    | .sessionEnds => ({ d with lock := none }, none)
  exec k d r
    | .answer e => ((exec sort k d r e).1, { r with pc := (exec sort k d r e).2 })
    | .crash => (d.release k, { r with pc := r.pc.crash })

abbrev State := Calls.State Database Runner

abbrev Action := Calls.Action Event Outcome

/-- In `migrateLocked`. -/
def Pc.Works : Pc → Prop
  | .createTable => True
  | .readFiles => True
  | .query _ => True
  | .loop _ _ => True
  | .commit _ _ _ => True
  | _ => False

instance : (pc : Pc) → Decidable pc.Works
  | .lock => isFalse id
  | .createTable => isTrue trivial
  | .readFiles => isTrue trivial
  | .query _ => isTrue trivial
  | .loop _ _ => isTrue trivial
  | .commit _ _ _ => isTrue trivial
  | .unlock _ => isFalse id
  | .ended _ => isFalse id

/-- No session with the lock ends under a runner that works. -/
def KeepsLock (s : State) : Action → Prop
  | .world .sessionEnds => ∀ k ∈ s.store.lock, ∀ r ∈ s.calls[k]?, ¬r.pc.Works
  | _ => True

instance (s : State) : (a : Action) → Decidable (KeepsLock s a)
  | .world .sessionEnds =>
    inferInstanceAs (Decidable (∀ k ∈ s.store.lock, ∀ r ∈ s.calls[k]?, ¬r.pc.Works))
  | .world (.migrate _) => isTrue trivial
  | .exec _ _ => isTrue trivial

/-! ## What is known of a runner -/

/-- What is left to apply. -/
def pending (appliedVersions : List Int) (migrations : List Migration) : List Migration :=
  migrations.filter (·.version ∉ appliedVersions)

/-- Every migration of the directory has its row. -/
def Complete (d : Database) (dir : Option (List DirEntry)) : Prop :=
  ∃ migs, readMigrations sort dir = .ok migs ∧ ∀ mig ∈ migs, mig.version ∈ d.versions

/-- What a history may be: `P` holds of no migrations, of the first ones of any
migrations it holds of, and goes on to hold as a runner goes on with what has no
row yet. -/
structure Plan (initial : List Int) (D : Option (List DirEntry) → Prop)
    (P : List Migration → Prop) : Prop where
  nil : P []
  first : ∀ {ms ms'}, P (ms ++ ms') → P ms
  goesOn : ∀ {dir migs ms rows}, D dir → readMigrations sort dir = .ok migs → P ms →
    (∀ v, v ∈ rows ↔ v ∈ initial ∨ v ∈ ms.map Migration.version) → P (ms ++ pending rows migs)

variable (initial : List Int) (D : Option (List DirEntry) → Prop) (P : List Migration → Prop)

/-- A version has a row when it had one, or has been applied. -/
structure Sound (d : Database) : Prop where
  rows : ∀ v, v ∈ d.versions ↔ v ∈ initial ∨ v ∈ d.history.map Migration.version
  history : P d.history

/-- Where a runner is, and the database. -/
inductive At (d : Database) (k : Nat) (dir : Option (List DirEntry)) : Pc → Prop
  | lock : At d k dir .lock
  | createTable (hlock : d.lock = some k) : At d k dir .createTable
  | readFiles (hlock : d.lock = some k) (htable : d.schemaMigrations.isSome) :
      At d k dir .readFiles
  | query {migs} (hlock : d.lock = some k) (htable : d.schemaMigrations.isSome)
      (hread : readMigrations sort dir = .ok migs) : At d k dir (.query migs)
  | loop {applied left} (hlock : d.lock = some k) (htable : d.schemaMigrations.isSome)
      (hplan : P (d.history ++ pending applied left))
      (hdone : ∃ migs, readMigrations sort dir = .ok migs
        ∧ ∀ mig ∈ migs, mig ∈ left ∨ mig.version ∈ d.versions)
      (hrows : ∀ v ∈ applied, v ∈ d.versions) : At d k dir (.loop applied left)
  | commit {applied mig left} (hlock : d.lock = some k) (htable : d.schemaMigrations.isSome)
      (hplan : P (d.history ++ mig :: pending applied left))
      (hdone : ∃ migs, readMigrations sort dir = .ok migs
        ∧ ∀ m ∈ migs, m = mig ∨ m ∈ left ∨ m.version ∈ d.versions)
      (hrows : ∀ v ∈ applied, v ∈ d.versions) : At d k dir (.commit applied mig left)
  | unlock {ok} (hcomplete : ok = true → Complete sort d dir) : At d k dir (.unlock ok)
  | ended {ok} (hcomplete : ok = true → Complete sort d dir) : At d k dir (.ended ok)

variable {sort initial D P}
variable {d d' : Database} {k j : Nat} {dir : Option (List DirEntry)} {pc : Pc} {e : Execution}

/-! ## The database after a statement -/

theorem versions_release : (d.release k).versions = d.versions := by
  rw [Database.release]
  split
  · rfl
  · rfl

theorem mem_versions_apply {mig : Migration} {v : Int} (htable : d.schemaMigrations.isSome) :
    v ∈ (d.apply mig).versions ↔ v ∈ d.versions ∨ v = mig.version := by
  obtain ⟨rows, hrows⟩ := Option.isSome_iff_exists.mp htable
  simp only [Database.versions, Database.apply, hrows, Option.map_some, Option.getD_some]
  split
  · rename_i hold
    constructor
    · exact .inl
    · rintro (hmem | rfl)
      · exact hmem
      · exact hold
  · simp only [List.map_append, List.mem_append, List.map_cons, List.map_nil,
      List.mem_singleton]

theorem history_apply {mig : Migration} : (d.apply mig).history = d.history ++ [mig] := rfl

theorem isSome_apply {mig : Migration} (htable : d.schemaMigrations.isSome) :
    (d.apply mig).schemaMigrations.isSome := by
  rw [Database.apply, Option.isSome_map]
  exact htable

/-- `d'` differs from `d` in its lock alone. -/
structure SameData (d d' : Database) : Prop where
  rows : d'.schemaMigrations = d.schemaMigrations
  history : d'.history = d.history

theorem SameData.versions (h : SameData d d') : d'.versions = d.versions := by
  rw [Database.versions, h.rows, Database.versions]

theorem sameData_take : SameData d (d.take k) := ⟨rfl, rfl⟩

theorem sameData_release : SameData d (d.release k) := by
  rw [Database.release]
  split
  · exact ⟨rfl, rfl⟩
  · exact ⟨rfl, rfl⟩

theorem Sound.same (h : Sound initial P d) (hsame : SameData d d') : Sound initial P d' :=
  ⟨by rw [hsame.versions, hsame.history]; exact h.rows, by rw [hsame.history]; exact h.history⟩

theorem Sound.apply (h : Sound initial P d) {mig : Migration}
    (htable : d.schemaMigrations.isSome) (hplan : P (d.history ++ [mig])) :
    Sound initial P (d.apply mig) := by
  refine ⟨fun v => ?_, hplan⟩
  rw [mem_versions_apply htable, h.rows, history_apply, List.map_append, List.mem_append,
    List.map_singleton, List.mem_singleton, or_assoc]

theorem Complete.mono (h : Complete sort d dir) (hrows : ∀ v ∈ d.versions, v ∈ d'.versions) :
    Complete sort d' dir := by
  obtain ⟨migs, hread, hall⟩ := h
  exact ⟨migs, hread, fun mig hmem => hrows _ (hall mig hmem)⟩

/-! ## One statement -/

/-- A runner is where it was when another has executed a statement. -/
theorem At.other (h : At sort P d k dir pc)
    (hsame : d.lock = some k → d'.lock = some k ∧ SameData d d')
    (hrows : ∀ v ∈ d.versions, v ∈ d'.versions) : At sort P d' k dir pc := by
  cases h with
  | lock => exact .lock
  | createTable hlock => exact .createTable (hsame hlock).1
  | readFiles hlock htable =>
    obtain ⟨hlock', hdata⟩ := hsame hlock
    exact .readFiles hlock' (hdata.rows ▸ htable)
  | query hlock htable hread =>
    obtain ⟨hlock', hdata⟩ := hsame hlock
    exact .query hlock' (hdata.rows ▸ htable) hread
  | loop hlock htable hplan hdone happlied =>
    obtain ⟨hlock', hdata⟩ := hsame hlock
    refine .loop hlock' (hdata.rows ▸ htable) (hdata.history ▸ hplan) ?_ ?_
    · rw [hdata.versions]
      exact hdone
    · rw [hdata.versions]
      exact happlied
  | commit hlock htable hplan hdone happlied =>
    obtain ⟨hlock', hdata⟩ := hsame hlock
    refine .commit hlock' (hdata.rows ▸ htable) (hdata.history ▸ hplan) ?_ ?_
    · rw [hdata.versions]
      exact hdone
    · rw [hdata.versions]
      exact happlied
  | unlock hcomplete => exact .unlock fun hok => (hcomplete hok).mono hrows
  | ended hcomplete => exact .ended fun hok => (hcomplete hok).mono hrows

theorem At.locked (h : At sort P d k dir pc) (hworks : pc.Works) : d.lock = some k := by
  cases h with
  | createTable hlock => exact hlock
  | readFiles hlock => exact hlock
  | query hlock => exact hlock
  | loop hlock => exact hlock
  | commit hlock => exact hlock
  | lock => cases hworks
  | unlock => cases hworks
  | ended => cases hworks

theorem pending_cons {applied : List Int} {mig : Migration} {left : List Migration} :
    pending applied (mig :: left)
      = if mig.version ∈ applied then pending applied left else mig :: pending applied left := by
  by_cases h : mig.version ∈ applied
  · rw [if_pos h, pending, List.filter_cons_of_neg (by simpa using h), pending]
  · rw [if_neg h, pending, List.filter_cons_of_pos (by simpa using h), pending]

theorem At.orFail (hnext : e = .done → At sort P d k dir pc) : At sort P d k dir (pc.orFail e) := by
  rw [Pc.orFail]
  split
  · rename_i hdone
    exact hnext hdone
  · exact .unlock (by rintro ⟨⟩)

theorem Sound.createTable (h : Sound initial P d) : Sound initial P d.createTable :=
  ⟨h.rows, h.history⟩

theorem onTook_cases {Q : Database → Prop} (htook : e.Took → Q d') (hfailed : Q d) :
    Q (d.onTook d' e) := by
  rw [Database.onTook]
  split
  · rename_i h
    exact htook h
  · exact hfailed

theorem At.applied {applied : List Int} {mig : Migration} {left : List Migration}
    (h : At sort P d k dir (.commit applied mig left)) :
    At sort P (d.apply mig) k dir (.loop applied left) := by
  cases h with
  | commit hlock htable hplan hdone happlied =>
    refine .loop hlock (isSome_apply htable) ?_ ?_ ?_
    · rw [history_apply, List.append_assoc]
      exact hplan
    · obtain ⟨migs, hread, hall⟩ := hdone
      refine ⟨migs, hread, fun m hm => ?_⟩
      rw [mem_versions_apply htable]
      rcases hall m hm with rfl | hleft | hrow
      · exact .inr (.inr rfl)
      · exact .inl hleft
      · exact .inr (.inl hrow)
    · intro v hv
      exact (mem_versions_apply htable).mpr (.inl (happlied v hv))

/-- **One statement of a runner** that is where it should be. -/
theorem exec_at (hplan : Plan sort initial D P) {r : Runner} (hdir : D r.dir)
    (h : Sound initial P d) (hat : At sort P d k r.dir r.pc) :
    Sound initial P (exec sort k d r e).1
      ∧ At sort P (exec sort k d r e).1 k r.dir (exec sort k d r e).2 := by
  obtain ⟨dir, pc⟩ := r
  cases hat with
  | lock =>
    cases e with
    | done =>
      dsimp only [exec]
      split
      · exact ⟨h.same sameData_take, .createTable rfl⟩
      · exact ⟨h, .lock⟩
    | failed => exact ⟨h, .ended (by rintro ⟨⟩)⟩
    | unacknowledged =>
      dsimp only [exec]
      split
      · exact ⟨h.same sameData_take, .ended (by rintro ⟨⟩)⟩
      · exact ⟨h, .ended (by rintro ⟨⟩)⟩
  | createTable hlock =>
    refine ⟨onTook_cases (fun _ => h.createTable) h, At.orFail ?_⟩
    rintro rfl
    exact .readFiles hlock rfl
  | readFiles hlock htable =>
    dsimp only [exec]
    split
    · rename_i migs hread
      exact ⟨h, .query hlock htable hread⟩
    · exact ⟨h, .unlock (by rintro ⟨⟩)⟩
  | query hlock htable hread =>
    rename_i migs
    refine ⟨h, At.orFail fun _ => .loop hlock htable ?_ ?_ fun v hv => hv⟩
    · exact hplan.goesOn hdir hread h.history h.rows
    · exact ⟨migs, hread, fun mig hmem => .inl hmem⟩
  | loop hlock htable hnext hdone happlied =>
    rename_i applied left
    cases left with
    | nil =>
      obtain ⟨migs, hread, hall⟩ := hdone
      refine ⟨h, .unlock fun _ => ⟨migs, hread, fun mig hmem => ?_⟩⟩
      exact (hall mig hmem).resolve_left List.not_mem_nil
    | cons mig left =>
      dsimp only [exec]
      rw [pending_cons] at hnext
      obtain ⟨migs, hread, hall⟩ := hdone
      split
      · rename_i hold
        rw [if_pos hold] at hnext
        refine ⟨h, .loop hlock htable hnext ⟨migs, hread, fun m hm => ?_⟩ happlied⟩
        rcases hall m hm with hleft | hrow
        · rcases List.mem_cons.mp hleft with rfl | hlater
          · exact .inr (happlied _ hold)
          · exact .inl hlater
        · exact .inr hrow
      · rename_i hnew
        rw [if_neg hnew] at hnext
        refine ⟨h, At.orFail fun _ => .commit hlock htable hnext ⟨migs, hread, ?_⟩ happlied⟩
        intro m hm
        rcases hall m hm with hleft | hrow
        · exact (List.mem_cons.mp hleft).imp_right .inl
        · exact .inr (.inr hrow)
  | commit hlock htable hnext hdone happlied =>
    rename_i applied mig left
    have hfirst : P (d.history ++ [mig]) := by
      rw [List.append_cons] at hnext
      exact hplan.first hnext
    refine ⟨onTook_cases (fun _ => h.apply htable hfirst) h, At.orFail ?_⟩
    rintro rfl
    exact At.applied (.commit hlock htable hnext hdone happlied)
  | unlock hcomplete =>
    rename_i ok
    refine ⟨onTook_cases (fun _ => h.same sameData_release) h, .ended fun hok => ?_⟩
    refine (hcomplete hok).mono fun v hv => ?_
    refine onTook_cases (Q := fun d => v ∈ d.versions) (fun _ => ?_) hv
    rw [versions_release]
    exact hv
  | ended hcomplete => exact ⟨h, .ended hcomplete⟩

/-- **What a statement leaves to the others**: the lock of another runner, and
then all data. -/
theorem exec_others {r : Runner} (hat : At sort P d k r.dir r.pc) (hne : j ≠ k)
    (hlock : d.lock = some j) :
    (exec sort k d r e).1.lock = some j ∧ SameData d (exec sort k d r e).1 := by
  have hfree : ¬r.pc.Works := by
    intro hworks
    rw [hat.locked hworks] at hlock
    exact hne (Option.some.inj hlock).symm
  obtain ⟨dir, pc⟩ := r
  have hsame : d.lock = some j ∧ SameData d d := ⟨hlock, rfl, rfl⟩
  cases pc with
  | lock =>
    cases e with
    | done =>
      dsimp only [exec]
      rw [if_neg (by rw [hlock]; rintro ⟨⟩)]
      exact hsame
    | failed => exact hsame
    | unacknowledged =>
      dsimp only [exec]
      rw [if_neg (by rw [hlock]; rintro ⟨⟩)]
      exact hsame
  | unlock ok =>
    refine onTook_cases (Q := fun d' => d'.lock = some j ∧ SameData d d') (fun _ => ?_) hsame
    rw [Database.release, if_neg (by rw [hlock]; exact fun heq => hne (Option.some.inj heq))]
    exact hsame
  | ended ok => exact hsame
  | createTable => exact absurd trivial hfree
  | readFiles => exact absurd trivial hfree
  | query migs => exact absurd trivial hfree
  | loop applied left => exact absurd trivial hfree
  | commit applied mig left => exact absurd trivial hfree

theorem exec_versions {r : Runner} (hat : At sort P d k r.dir r.pc) :
    ∀ v ∈ d.versions, v ∈ (exec sort k d r e).1.versions := by
  intro v hv
  obtain ⟨dir, pc⟩ := r
  cases hat with
  | lock =>
    cases e with
    | done =>
      dsimp only [exec]
      split
      · exact hv
      · exact hv
    | failed => exact hv
    | unacknowledged =>
      dsimp only [exec]
      split
      · exact hv
      · exact hv
  | createTable => exact onTook_cases (Q := fun d => v ∈ d.versions) (fun _ => hv) hv
  | readFiles =>
    dsimp only [exec]
    split
    · exact hv
    · exact hv
  | query => exact hv
  | loop =>
    rename_i applied left _ _ _ _ _
    cases left with
    | nil => exact hv
    | cons mig left =>
      dsimp only [exec]
      split
      · exact hv
      · exact hv
  | commit hlock htable =>
    exact onTook_cases (Q := fun d => v ∈ d.versions)
      (fun _ => (mem_versions_apply htable).mpr (.inl hv)) hv
  | unlock =>
    refine onTook_cases (Q := fun d => v ∈ d.versions) (fun _ => ?_) hv
    rw [versions_release]
    exact hv
  | ended => exact hv

/-! ## Runs -/

variable {s : State} {as : List Action}

/-- The runner of index `k`. -/
def RunnerOk (sort : List Migration → List Migration) (D : Option (List DirEntry) → Prop)
    (P : List Migration → Prop) (d : Database) (k : Nat) (r : Runner) : Prop :=
  D r.dir ∧ At sort P d k r.dir r.pc

/-- The directory that a runner starts with. -/
def StartsIn (D : Option (List DirEntry) → Prop) (a : Action) : Prop :=
  ∀ dir, a = .world (.migrate dir) → D dir

theorem RunnerOk.crash {r : Runner} (h : RunnerOk sort D P d k r) :
    RunnerOk sort D P (d.release k) k { r with pc := r.pc.crash } := by
  obtain ⟨hdir, hat⟩ := h
  refine ⟨hdir, ?_⟩
  obtain ⟨dir, pc⟩ := r
  cases hat with
  | ended hcomplete =>
    refine .ended fun hok => (hcomplete hok).mono fun v hv => ?_
    rw [versions_release]
    exact hv
  | lock => exact .ended (by rintro ⟨⟩)
  | createTable => exact .ended (by rintro ⟨⟩)
  | readFiles => exact .ended (by rintro ⟨⟩)
  | query => exact .ended (by rintro ⟨⟩)
  | loop => exact .ended (by rintro ⟨⟩)
  | commit => exact .ended (by rintro ⟨⟩)
  | unlock => exact .ended (by rintro ⟨⟩)

/-- **Every run that keeps its locks**: the history is one that the plan
allows, and every runner is where it should be. -/
theorem holds_run (hplan : Plan sort initial D P)
    (hkeeps : Run.Each (service sort).step KeepsLock s as) (hdirs : ∀ a ∈ as, StartsIn D a)
    (h : Holds (Sound initial P) (RunnerOk sort D P) s) :
    Holds (Sound initial P) (RunnerOk sort D P) ((service sort).run s as) := by
  refine Holds.run ?_ ?_ (hkeeps.and_forall hdirs) h
  · rintro s event hs ⟨hok, hstart⟩
    cases event with
    | migrate dir =>
      refine ⟨hs.store, fun _ _ _ hr => hr, ?_⟩
      rintro r ⟨⟩
      exact ⟨hstart dir rfl, .lock⟩
    | sessionEnds =>
      have hdata : SameData s.store { s.store with lock := none } := ⟨rfl, rfl⟩
      refine ⟨hs.store.same hdata, ?_, by rintro r ⟨⟩⟩
      rintro k r hk ⟨hdir, hat⟩
      by_cases hlock : s.store.lock = some k
      · have hfree : ¬r.pc.Works := hok k hlock r hk
        refine ⟨hdir, ?_⟩
        cases hpc : r.pc with
        | lock => exact .lock
        | unlock ok =>
          rw [hpc] at hat
          cases hat with
          | unlock hcomplete => exact .unlock hcomplete
        | ended ok =>
          rw [hpc] at hat
          cases hat with
          | ended hcomplete => exact .ended hcomplete
        | createTable => exact absurd (by rw [hpc]; trivial) hfree
        | readFiles => exact absurd (by rw [hpc]; trivial) hfree
        | query migs => exact absurd (by rw [hpc]; trivial) hfree
        | loop applied left => exact absurd (by rw [hpc]; trivial) hfree
        | commit applied mig left => exact absurd (by rw [hpc]; trivial) hfree
      · exact ⟨hdir, hat.other (fun hheld => absurd hheld hlock) fun v hv => hv⟩
  · rintro s k r o hs - hk
    obtain ⟨hdir, hat⟩ := hs.call k r hk
    cases o with
    | answer e =>
      obtain ⟨hsound, hnext⟩ := @exec_at sort initial D P s.store k e hplan r hdir hs.store hat
      refine ⟨hsound, ⟨hdir, hnext⟩, ?_⟩
      rintro j q hne - ⟨hdir', hat'⟩
      exact ⟨hdir', hat'.other (exec_others hat hne) (exec_versions hat)⟩
    | crash =>
      refine ⟨hs.store.same sameData_release, RunnerOk.crash ⟨hdir, hat⟩, ?_⟩
      rintro j q hne - ⟨hdir', hat'⟩
      refine ⟨hdir', hat'.other (fun hheld => ⟨?_, sameData_release⟩) fun v hv => ?_⟩
      · show (s.store.release k).lock = some j
        rw [Database.release, if_neg (by rw [hheld]; exact fun heq => hne (Option.some.inj heq))]
        exact hheld
      · show v ∈ (s.store.release k).versions
        rw [versions_release]
        exact hv

theorem holds_start (hplan : Plan sort initial D P) {rows : Option (List (Int × String))}
    (hinitial : initial = (Database.start rows).versions) :
    Holds (Sound initial P) (RunnerOk sort D P) ⟨.start rows, []⟩ := by
  refine .initial ⟨fun v => ?_, hplan.nil⟩
  rw [hinitial]
  exact (or_iff_left List.not_mem_nil).symm

/-! ## Plans -/

theorem pending_sublist {rows : List Int} {migs : List Migration} :
    (pending rows migs).Sublist migs :=
  List.filter_sublist

/-- **Any directories**: each version once, and none that had a row. -/
theorem plan_once (hsort : Sorts sort) (initial : List Int) :
    Plan sort initial (fun _ => True)
      (fun ms => (ms.map Migration.version).Nodup ∧ ∀ mig ∈ ms, mig.version ∉ initial) := by
  constructor
  · exact ⟨.nil, by rintro mig ⟨⟩⟩
  · rintro ms ms' ⟨hnodup, hnew⟩
    rw [List.map_append] at hnodup
    exact ⟨hnodup.of_append_left, fun mig hmem => hnew mig (List.mem_append_left _ hmem)⟩
  · rintro dir migs ms rows - hread ⟨hnodup, hnew⟩ hrows
    have hunique : ((pending rows migs).map Migration.version).Nodup := by
      have hascending :=
        (readMigrations_ascending hsort hread).sublist (@pending_sublist rows migs)
      exact List.pairwise_map.mpr (hascending.imp fun hlt => ne_of_lt hlt)
    have hfresh : ∀ mig ∈ pending rows migs,
        mig.version ∉ initial ∧ mig.version ∉ ms.map Migration.version := by
      intro mig hmem
      have hnone : mig.version ∉ rows := by simpa using (List.mem_filter.mp hmem).2
      rw [hrows] at hnone
      exact not_or.mp hnone
    refine ⟨?_, fun mig hmem => ?_⟩
    · rw [List.map_append, List.nodup_append']
      refine ⟨hnodup, hunique, fun v hv hv' => ?_⟩
      obtain ⟨mig, hmem, rfl⟩ := List.mem_map.mp hv'
      exact (hfresh mig hmem).2 hv
    · rcases List.mem_append.mp hmem with hold | hlater
      · exact hnew mig hold
      · exact (hfresh mig hlater).1

/-- What a runner finds left, when the first of a plan have been applied. -/
theorem pending_of_begins {migs ms rest : List Migration} {rows : List Int}
    (hascending : migs.Pairwise fun a b => a.version < b.version)
    (hsplit : pending initial migs = ms ++ rest)
    (hrows : ∀ v, v ∈ rows ↔ v ∈ initial ∨ v ∈ ms.map Migration.version) :
    pending rows migs = rest := by
  have hboth : pending rows migs = pending (ms.map Migration.version) (pending initial migs) := by
    rw [pending, pending, pending, List.filter_filter]
    refine List.filter_congr fun mig _ => ?_
    rw [← Bool.decide_and, decide_eq_decide, hrows, not_or, and_comm]
  have hpairs := hascending.sublist (@pending_sublist initial migs)
  rw [hsplit, List.pairwise_append] at hpairs
  rw [hboth, hsplit, pending, List.filter_append]
  have hdone : ms.filter (·.version ∉ ms.map Migration.version) = [] := by
    rw [List.filter_eq_nil_iff]
    intro mig hmem hnew
    exact of_decide_eq_true hnew (List.mem_map_of_mem hmem)
  have hleft : rest.filter (·.version ∉ ms.map Migration.version) = rest := by
    rw [List.filter_eq_self]
    intro mig hmem
    refine decide_eq_true fun hold => ?_
    obtain ⟨mig', hmem', heq⟩ := List.mem_map.mp hold
    have hlt := hpairs.2.2 mig' hmem' mig hmem
    omega
  rw [hdone, hleft, List.nil_append]

/-- **One directory**: its migrations without a row, in order. -/
theorem plan_inOrder (hsort : Sorts sort) (initial : List Int) {dir : Option (List DirEntry)}
    {migs : List Migration} (hread : readMigrations sort dir = .ok migs) :
    Plan sort initial (· = dir) (· <+: pending initial migs) := by
  constructor
  · exact List.nil_prefix
  · exact fun hbegins => (List.prefix_append _ _).trans hbegins
  · rintro _ migs' ms rows rfl hread' ⟨rest, hsplit⟩ hrows
    rw [hread] at hread'
    cases hread'
    have hascending := readMigrations_ascending hsort hread
    rw [pending_of_begins hascending hsplit.symm hrows, hsplit]

/-! ## All runners -/

theorem locked_run (hsort : Sorts sort) (rows : Option (List (Int × String)))
    (hkeeps : Run.Each (service sort).step KeepsLock ⟨.start rows, []⟩ as) {r : Runner}
    (hk : ((service sort).run ⟨.start rows, []⟩ as).calls[k]? = some r) (hworks : r.pc.Works) :
    ((service sort).run ⟨.start rows, []⟩ as).store.lock = some k := by
  have hplan := plan_once hsort (Database.start rows).versions
  have hall := holds_run hplan hkeeps (fun _ _ _ _ => trivial) (holds_start hplan rfl)
  exact (hall.call k r hk).2.locked hworks

/-- What runners of any directories leave in the database. -/
structure AppliedOnce (sort : List Migration → List Migration)
    (rows : Option (List (Int × String))) (s : State) : Prop where
  /-- No two of them work at once. -/
  alone : ∀ (j k : Nat) (q r : Runner), s.calls[j]? = some q → s.calls[k]? = some r →
    q.pc.Works → r.pc.Works → j = k
  /-- No migration is committed twice. -/
  once : (s.store.history.map Migration.version).Nodup
  /-- None that had a row before is committed again. -/
  unapplied : ∀ mig ∈ s.store.history, mig.version ∉ (Database.start rows).versions
  /-- The rows are those there were, and those of the migrations. -/
  recorded : ∀ v, v ∈ s.store.versions ↔
    v ∈ (Database.start rows).versions ∨ v ∈ s.store.history.map Migration.version
  /-- A runner that has ended without error has left nothing undone. -/
  complete : ∀ (k : Nat) (r : Runner), s.calls[k]? = some r → r.pc = .ended true →
    Complete sort s.store r.dir

/-- **Migrations are applied once**, by any number of runners of any
directories, whatever fails and whoever dies: as long as no session with the
lock ends under a runner that works. -/
theorem applied_once (hsort : Sorts sort) (rows : Option (List (Int × String)))
    (as : List Action)
    (hkeeps : Run.Each (service sort).step KeepsLock ⟨.start rows, []⟩ as) :
    AppliedOnce sort rows ((service sort).run ⟨.start rows, []⟩ as) := by
  have hplan := plan_once hsort (Database.start rows).versions
  have hall := holds_run hplan hkeeps (fun _ _ _ _ => trivial) (holds_start hplan rfl)
  refine ⟨?_, hall.store.history.1, hall.store.history.2, hall.store.rows, ?_⟩
  · intro j k q r hj hk hworks hworks'
    have hlock := locked_run hsort rows hkeeps hj hworks
    rw [locked_run hsort rows hkeeps hk hworks'] at hlock
    exact (Option.some.inj hlock).symm
  · intro k r hk hended
    obtain ⟨-, hat⟩ := hall.call k r hk
    rw [hended] at hat
    cases hat with
    | ended hcomplete => exact hcomplete rfl

/-- The first of two runners dies between its two migrations. -/
def sampleRun : List Action :=
  List.flatten
    [[.world (.migrate (some sampleDir)), .world (.migrate (some sampleDir))],
     List.replicate 6 (.exec 0 (.answer .done)), [.exec 1 (.answer .done), .exec 0 .crash],
     List.replicate 9 (.exec 1 (.answer .done))]

theorem applied_once_sample :
    AppliedOnce stableSort none ((service stableSort).run ⟨.start none, []⟩ sampleRun) :=
  applied_once stableSort_sorts none sampleRun (by decide)

/-- The session of the first runner ends, and the lock is free: the second
commits the same migrations, which have one row each. -/
def sampleLost : List Action :=
  List.flatten
    [[.world (.migrate (some sampleDir)), .world (.migrate (some sampleDir))],
     List.replicate 5 (.exec 0 (.answer .done)), [.world .sessionEnds],
     List.replicate 8 (.exec 1 (.answer .done)), List.replicate 2 (.exec 0 (.answer .done))]

example :
    ((service stableSort).run ⟨.start none, []⟩ sampleLost).store.history.map (·.version)
        = [1, 2, 1]
      ∧ ((service stableSort).run ⟨.start none, []⟩ sampleLost).store.versions = [1, 2] := by
  decide

/-- **Runners of one directory** apply its migrations in order: what has been
committed are the first of those that had no row, and all of them once a runner
has ended without error. -/
theorem applied_in_order (hsort : Sorts sort) {dir : Option (List DirEntry)}
    {migs : List Migration} (hread : readMigrations sort dir = .ok migs)
    (rows : Option (List (Int × String))) (as : List Action)
    (hkeeps : Run.Each (service sort).step KeepsLock ⟨.start rows, []⟩ as)
    (hdirs : ∀ a ∈ as, ∀ dir', a = .world (.migrate dir') → dir' = dir) :
    ((service sort).run ⟨.start rows, []⟩ as).store.history
        <+: pending (Database.start rows).versions migs
      ∧ ∀ (k : Nat) (r : Runner), ((service sort).run ⟨.start rows, []⟩ as).calls[k]? = some r →
          r.pc = .ended true →
          ((service sort).run ⟨.start rows, []⟩ as).store.history
            = pending (Database.start rows).versions migs := by
  have hplan := plan_inOrder hsort (Database.start rows).versions hread
  have hall := holds_run hplan hkeeps hdirs (holds_start hplan rfl)
  refine ⟨hall.store.history, ?_⟩
  intro k r hk hended
  obtain ⟨hdir, hat⟩ := hall.call k r hk
  rw [hended] at hat
  cases hat with
  | ended hcomplete =>
    obtain ⟨migs', hread', hrows⟩ := hcomplete rfl
    rw [hdir, hread] at hread'
    cases hread'
    obtain ⟨rest, hsplit⟩ := hall.store.history
    have hascending := readMigrations_ascending hsort hread
    -- every migration has its row, so that a runner would find none left
    have hnone := pending_of_begins hascending hsplit.symm hall.store.rows
    have hall' : pending ((service sort).run ⟨.start rows, []⟩ as).store.versions migs = [] := by
      rw [pending, List.filter_eq_nil_iff]
      intro mig hmem hnew
      exact of_decide_eq_true hnew (hrows mig hmem)
    rw [← hsplit, ← hnone, hall', List.append_nil]

theorem applied_in_order_sample :
    ((service stableSort).run ⟨.start none, []⟩ sampleRun).store.history
        <+: pending [] sampleMigrations
      ∧ ((service stableSort).run ⟨.start none, []⟩ sampleRun).store.history
        = pending [] sampleMigrations := by
  have hdirs : ∀ a ∈ sampleRun, ∀ dir', a = .world (.migrate dir') → dir' = some sampleDir := by
    intro a ha dir' heq
    subst heq
    simpa [sampleRun] using ha
  obtain ⟨hbegins, hall⟩ := applied_in_order stableSort_sorts readMigrations_sampleDir none
    sampleRun (by decide) hdirs
  exact ⟨hbegins, hall 1 ⟨some sampleDir, .ended true⟩ (by decide) rfl⟩

/-! ## A runner alone -/

theorem loop_reaches {applied : List Int} {left : List Migration} :
    ∀ d : Database, d.schemaMigrations.isSome → d.lock = some k →
      ∃ d', Service.Reaches (service sort) k (.answer .done) d ⟨dir, .loop applied left⟩
          d' ⟨dir, .ended true⟩
        ∧ d'.lock = none ∧ d'.history = d.history ++ pending applied left
        ∧ ∀ v, v ∈ d'.versions ↔
            v ∈ d.versions ∨ v ∈ (pending applied left).map Migration.version := by
  induction left with
  | nil =>
    intro d _ hlock
    have hrelease : d.release k = { d with lock := none } := by
      rw [Database.release, if_pos hlock]
    refine ⟨d.release k, .step (.exec_eq rfl), ?_, ?_, ?_⟩
    · rw [hrelease]
    · rw [hrelease]
      exact (List.append_nil _).symm
    · intro v
      rw [versions_release]
      exact (or_iff_left List.not_mem_nil).symm
  | cons mig left ih =>
    intro d htable hlock
    by_cases hold : mig.version ∈ applied
    · obtain ⟨d', hreaches, hrest⟩ := ih d htable hlock
      refine ⟨d', .of_exec ?_ hreaches, ?_⟩
      · simp only [service, exec, if_pos hold]
      · rw [pending_cons, if_pos hold]
        exact hrest
    · obtain ⟨d', hreaches, hfree, hhistory, hrows⟩ :=
        ih (d.apply mig) (isSome_apply htable) hlock
      have hexecute : (service sort).exec k d ⟨dir, .loop applied (mig :: left)⟩ (.answer .done)
          = (d, ⟨dir, .commit applied mig left⟩) := by
        simp only [service, exec, if_neg hold, Pc.orFail, if_true]
      have hcommit : (service sort).exec k d ⟨dir, .commit applied mig left⟩ (.answer .done)
          = (d.apply mig, ⟨dir, .loop applied left⟩) := rfl
      refine ⟨d', .of_exec hexecute (.of_exec hcommit hreaches), hfree, ?_, ?_⟩
      · rw [hhistory, history_apply, pending_cons, if_neg hold, List.append_assoc,
          List.singleton_append]
      · intro v
        rw [hrows, mem_versions_apply htable, pending_cons, if_neg hold, List.map_cons,
          List.mem_cons, or_assoc]

/-- **A runner that finds the lock free**, and whose statements succeed, applies
what has no row, and releases the lock. -/
theorem migrate_completes (d : Database) (k : Nat) {dir : Option (List DirEntry)}
    {migs : List Migration} (hread : readMigrations sort dir = .ok migs) (hfree : d.lock = none) :
    ∃ d', Service.Reaches (service sort) k (.answer .done) d ⟨dir, .lock⟩ d' ⟨dir, .ended true⟩
      ∧ d'.lock = none ∧ d'.history = d.history ++ pending d.versions migs
      ∧ Complete sort d' dir := by
  obtain ⟨d', hloop, hunlocked, hhistory, hrows⟩ :=
    @loop_reaches sort k dir d.versions migs (d.take k).createTable rfl rfl
  refine ⟨d', ?_, hunlocked, hhistory, migs, hread, ?_⟩
  · have hlock : (service sort).exec k d ⟨dir, .lock⟩ (.answer .done)
        = (d.take k, ⟨dir, .createTable⟩) := by
      simp only [service, exec, if_pos hfree]
    have htable : (service sort).exec k (d.take k) ⟨dir, .createTable⟩ (.answer .done)
        = ((d.take k).createTable, ⟨dir, .readFiles⟩) := rfl
    have hfiles : (service sort).exec k (d.take k).createTable ⟨dir, .readFiles⟩ (.answer .done)
        = ((d.take k).createTable, ⟨dir, .query migs⟩) := by
      simp only [service, exec, hread]
    have hquery : (service sort).exec k (d.take k).createTable ⟨dir, .query migs⟩ (.answer .done)
        = ((d.take k).createTable, ⟨dir, .loop d.versions migs⟩) := rfl
    exact .of_exec hlock (.of_exec htable (.of_exec hfiles (.of_exec hquery hloop)))
  · intro mig hmem
    rw [hrows]
    by_cases hold : mig.version ∈ d.versions
    · exact .inl hold
    · exact .inr (List.mem_map_of_mem (List.mem_filter.mpr ⟨hmem, decide_eq_true hold⟩))

theorem migrate_completes_sample :
    ∃ d', Service.Reaches (service stableSort) 2 (.answer .done) (.start (some [(1, "initial")]))
        ⟨some sampleDir, .lock⟩ d' ⟨some sampleDir, .ended true⟩
      ∧ d'.lock = none ∧ d'.history = [⟨2, "a", "SELECT 2"⟩]
      ∧ Complete stableSort d' (some sampleDir) :=
  migrate_completes (.start (some [(1, "initial")])) 2 readMigrations_sampleDir rfl

end UsbVault.Migrations
