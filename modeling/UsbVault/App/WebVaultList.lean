import UsbVault.Lib.Calls

/-!
# The vault list on the web

The vault list stands in `localStorage` as one array. The store writes the whole
array when a vault is created or deleted; `saveFile`, `deleteFile` and
`deleteVault` of the web storage load it, await, and write their copy back. A
copy that was loaded before a vault was created or deleted undoes that when it
is written.

While no vault is created or deleted between the load and the write of a call,
the stored list is the list of the vaults that were created and not deleted
(`exact_run`).
-/

namespace UsbVault.App.WebVaultList

open Calls

/-! ## Data -/

structure VaultInfo where
  id : String
  name : String
  fileCount : Nat
  lastModified : String
  mountPoint : Option String
  deriving DecidableEq, Repr

structure StoredFileInfo where
  id : String
  vaultId : String
  hasBlobStored : Bool
  deriving DecidableEq, Repr

/-- The store of the vault list in memory, `localStorage` and IndexedDB.
`localStorage` may refuse a write. Of `present`, the vaults created and not
deleted since, the code knows nothing. -/
structure Store where
  vaultIds : List String
  vaultsById : String → Option VaultInfo
  vaults : List VaultInfo
  writable : Bool
  metadata : List (String × StoredFileInfo)
  blobs : List String
  indexes : List String
  present : List String

def Store.initial : Store := ⟨[], fun _ => none, [], true, [], [], [], []⟩

/-- What `saveFile` and `deleteFile` are called for. -/
inductive Job where
  | saveFile (file : StoredFileInfo) (hasBlob : Bool)
  | deleteFile (vaultId fileId : String)
  deriving DecidableEq, Repr

def Job.vaultId : Job → String
  | .saveFile file _ => file.vaultId
  | .deleteFile vaultId _ => vaultId

def Job.key : Job → String
  | .saveFile file _ => s!"{file.vaultId}:{file.id}"
  | .deleteFile vaultId fileId => s!"{vaultId}:{fileId}"

/-- A call at an await, by what comes next. -/
inductive Pc where
  | getDB (job : Job)
  | metadata (job : Job)
  | blob (job : Job)
  | loadVaults (job : Job)
  | find (job : Job) (vaults : List VaultInfo)
  | loadFiles (job : Job) (vaults : List VaultInfo)
  | saveVaults (job : Job) (vaults : List VaultInfo) (fileCount : Nat)
  | filter (vaultId : String) (vaults : List VaultInfo)
  | getAll (vaultId : String)
  | deleteBlob (vaultId : String) (files : List StoredFileInfo)
  | deleteMetadata (vaultId : String) (file : StoredFileInfo) (files : List StoredFileInfo)
  | deleteIndex (vaultId : String)
  | finished
  deriving DecidableEq, Repr

/-! ## The store in memory -/

namespace Store

/-- `lsSet`, which only logs a failure. -/
def setVaults (st : Store) (vaults : List VaultInfo) : Store :=
  if st.writable then { st with vaults := vaults } else st

/-- `denormalize` -/
def denormalize (st : Store) : List VaultInfo := st.vaultIds.filterMap st.vaultsById

def local? (v : VaultInfo) : Bool := v.mountPoint = none ∨ v.mountPoint = some ""

def persistVaults (st : Store) : Store :=
  st.setVaults <| (st.denormalize.filter fun v => local? v).map
    fun v => { v with mountPoint := none }

/-- `{ ...state.vaultsById, [id]: v }`, or without the vault. -/
def setVault (st : Store) (id : String) (v : Option VaultInfo) : String → Option VaultInfo :=
  fun id' => if id' = id then v else st.vaultsById id'

def createVault (id name now : String) (st : Store) : Store :=
  { st with
    vaultsById := st.setVault id (some ⟨id, name, 0, now, none⟩)
    vaultIds := st.vaultIds ++ [id]
    present := st.present ++ [id] }.persistVaults

/-- `deleteVault` of the store starts `deleteVault` of the storage, which has
loaded the list at its first await. -/
def deleteVault (vaultId : String) (st : Store) : Store × Pc :=
  ({ st with
      vaultsById := st.setVault vaultId none
      vaultIds := st.vaultIds.filter fun id => id ≠ vaultId
      present := st.present.filter fun id => id ≠ vaultId }.persistVaults,
    .filter vaultId st.vaults)

/-- `addFile`, `deleteFile` and `renameVault` change a vault in memory and
persist the list. -/
def updateVault (vaultId name : String) (fileCount : Nat) (now : String) (st : Store) : Store :=
  match st.vaultsById vaultId with
  | some v =>
    { st with
      vaultsById := st.setVault vaultId
        (some { v with name := name, fileCount := fileCount, lastModified := now })
      }.persistVaults
  | none => st.persistVaults

/-! ## The storage -/

/-- `idbPut` of a file's metadata. -/
def putMetadata (st : Store) (key : String) (file : StoredFileInfo) : Store :=
  { st with metadata := st.metadata.filter (fun entry => entry.1 ≠ key) ++ [(key, file)] }

def deleteMetadata (st : Store) (key : String) : Store :=
  { st with metadata := st.metadata.filter fun entry => entry.1 ≠ key }

def putBlob (st : Store) (key : String) : Store :=
  { st with blobs := st.blobs.filter (fun k => k ≠ key) ++ [key] }

def deleteBlob (st : Store) (key : String) : Store :=
  { st with blobs := st.blobs.filter fun k => k ≠ key }

/-- The files of a vault by the index of the metadata. -/
def filesOf (st : Store) (vaultId : String) : List StoredFileInfo :=
  (st.metadata.map (·.2)).filter fun file => file.vaultId = vaultId

end Store

/-- How what a call awaits has ended, and the time. -/
structure Outcome where
  rejected : Bool
  now : String
  deriving DecidableEq, Repr

/-- The vault of a job gets its new count of files. -/
def Job.update (job : Job) (fileCount : Nat) (now : String) (v : VaultInfo) : VaultInfo :=
  match job with
  | .saveFile _ _ => { v with fileCount := fileCount, lastModified := now }
  | .deleteFile _ _ => { v with fileCount := fileCount }

/-- The list with the vault that `find` gives changed. -/
def Job.updateVault (job : Job) (fileCount : Nat) (now : String) : List VaultInfo → List VaultInfo
  | [] => []
  | v :: vaults =>
    if v.id = job.vaultId then job.update fileCount now v :: vaults
    else v :: job.updateVault fileCount now vaults

/-- A call goes on to its next await. A failure ends it, logged. -/
def exec (_ : Nat) (st : Store) (pc : Pc) (o : Outcome) : Store × Pc :=
  match pc with
  | .getDB job => if o.rejected then (st, .finished) else (st, .metadata job)
  | .metadata job =>
    if o.rejected then (st, .finished)
    else
      match job with
      | .saveFile file hasBlob =>
        (st.putMetadata job.key { file with hasBlobStored := hasBlob },
          if hasBlob then .blob job else .loadVaults job)
      | .deleteFile _ _ => (st.deleteMetadata job.key, .blob job)
  | .blob job =>
    if o.rejected then (st, .finished)
    else
      match job with
      | .saveFile _ _ => (st.putBlob job.key, .loadVaults job)
      | .deleteFile _ _ => (st.deleteBlob job.key, .loadVaults job)
  | .loadVaults job => (st, .find job st.vaults)
  | .find job vaults =>
    if ∃ v ∈ vaults, v.id = job.vaultId then (st, .loadFiles job vaults) else (st, .finished)
  | .loadFiles job vaults =>
    (st, .saveVaults job vaults (if o.rejected then 0 else (st.filesOf job.vaultId).length))
  | .saveVaults job vaults fileCount =>
    (st.setVaults (job.updateVault fileCount o.now vaults), .finished)
  | .filter vaultId vaults =>
    (st.setVaults (vaults.filter fun v => v.id ≠ vaultId), .getAll vaultId)
  | .getAll vaultId =>
    if o.rejected then (st, .finished) else (st, .deleteBlob vaultId (st.filesOf vaultId))
  | .deleteBlob vaultId [] => (st, .deleteIndex vaultId)
  | .deleteBlob vaultId (file :: files) =>
    if o.rejected then (st, .finished)
    else (st.deleteBlob s!"{vaultId}:{file.id}", .deleteMetadata vaultId file files)
  | .deleteMetadata vaultId file files =>
    if o.rejected then (st, .finished)
    else (st.deleteMetadata s!"{vaultId}:{file.id}", .deleteBlob vaultId files)
  | .deleteIndex vaultId =>
    if o.rejected then (st, .finished)
    else ({ st with indexes := st.indexes.filter fun id => id ≠ vaultId }, .finished)
  | .finished => (st, .finished)

inductive Event where
  | createVault (id name now : String)
  | deleteVault (vaultId : String)
  | updateVault (vaultId name : String) (fileCount : Nat) (now : String)
  | saveFile (file : StoredFileInfo) (hasBlob : Bool)
  | deleteFile (vaultId fileId : String)
  | storage (writable : Bool)
  deriving DecidableEq, Repr

def world (st : Store) : Event → Store × Option Pc
  | .createVault id name now => (st.createVault id name now, none)
  | .deleteVault vaultId => ((st.deleteVault vaultId).1, some (st.deleteVault vaultId).2)
  | .updateVault vaultId name fileCount now => (st.updateVault vaultId name fileCount now, none)
  | .saveFile file hasBlob => (st, some (.getDB (.saveFile file hasBlob)))
  | .deleteFile vaultId fileId => (st, some (.getDB (.deleteFile vaultId fileId)))
  | .storage writable => ({ st with writable := writable }, none)

def service : Service Store Pc Event Outcome := ⟨world, exec⟩

/-! ## The property -/

/-- Once every call has finished, the stored list is that of the vaults that
were created and not deleted. -/
def Exact (s : Calls.State Store Pc) : Prop :=
  (∀ pc ∈ s.calls, pc = .finished) → s.store.vaults.map (·.id) = s.store.present

/-- The list that a call has loaded and will write, but for the count of a
vault. -/
def Pc.copy : Pc → Option (List VaultInfo)
  | .find job vaults => if ∃ v ∈ vaults, v.id = job.vaultId then some vaults else none
  | .loadFiles _ vaults => some vaults
  | .saveVaults _ vaults _ => some vaults
  | .filter vaultId vaults => some (vaults.filter fun v => v.id ≠ vaultId)
  | _ => none

/-- A vault is created or deleted while no call holds a copy of the list that it
will write, and `localStorage` takes the new list. -/
def Alone (s : Calls.State Store Pc) : Action Event Outcome → Prop
  | .world (.createVault ..) => s.store.writable ∧ ∀ pc ∈ s.calls, pc.copy = none
  | .world (.deleteVault _) => s.store.writable ∧ ∀ pc ∈ s.calls, pc.copy = none
  | _ => True

instance Alone.decidable (s : Calls.State Store Pc) :
    (a : Action Event Outcome) → Decidable (Alone s a)
  | .world (.createVault ..) | .world (.deleteVault _) =>
    inferInstanceAs (Decidable (s.store.writable ∧ ∀ pc ∈ s.calls, pc.copy = none))
  | .world (.updateVault ..) | .world (.saveFile ..) | .world (.deleteFile ..)
  | .world (.storage _) | .exec .. => .isTrue trivial

/-! ## The list and what is in memory -/

variable {st : Store} {pc : Pc} {ids : List String} {vaults : List VaultInfo}

/-- The vaults in memory and the stored ones are those of the history, in its
order. -/
structure Global (st : Store) : Prop where
  ids : st.vaultIds = st.present
  byId : ∀ id ∈ st.vaultIds, ∃ v, st.vaultsById id = some v ∧ v.id = id ∧ Store.local? v
  stored : st.vaults.map (·.id) = st.present

/-- A list that a call will write is of the present vaults. -/
def Local (st : Store) (_ : Nat) (pc : Pc) : Prop :=
  ∀ copy, pc.copy = some copy → copy.map (·.id) = st.present

theorem map_id_updateVault (job : Job) (fileCount : Nat) (now : String)
    (vaults : List VaultInfo) :
    (job.updateVault fileCount now vaults).map (·.id) = vaults.map (·.id) := by
  induction vaults with
  | nil => rfl
  | cons v vaults ih =>
    rw [Job.updateVault]
    split
    · cases job <;> rfl
    · rw [List.map_cons, ih, List.map_cons]

theorem map_id_filter (vaultId : String) (vaults : List VaultInfo) :
    (vaults.filter fun v => v.id ≠ vaultId).map (·.id)
      = (vaults.map (·.id)).filter fun id => id ≠ vaultId := by
  rw [List.filter_map]
  rfl

theorem map_id_denormalize {vaultsById : String → Option VaultInfo}
    (h : ∀ id ∈ ids, ∃ v, vaultsById id = some v ∧ v.id = id ∧ Store.local? v) :
    (((ids.filterMap vaultsById).filter fun v => Store.local? v).map
      fun v => { v with mountPoint := none }).map (·.id) = ids := by
  induction ids with
  | nil => rfl
  | cons id ids ih =>
    obtain ⟨v, hv, hid, hlocal⟩ := h id List.mem_cons_self
    have hrest := ih fun id' hid' => h id' (List.mem_cons_of_mem _ hid')
    rw [List.filterMap_cons_some hv, List.filter_cons_of_pos hlocal, List.map_cons, List.map_cons,
      hrest, hid]

theorem Global.setVaults (h : Global st) (hids : vaults.map (·.id) = st.present) :
    Global (st.setVaults vaults) := by
  unfold Store.setVaults
  split
  · exact ⟨h.ids, h.byId, hids⟩
  · exact h

theorem present_setVaults (st : Store) (vaults : List VaultInfo) :
    (st.setVaults vaults).present = st.present := by
  unfold Store.setVaults
  split <;> rfl

theorem present_persistVaults (st : Store) : st.persistVaults.present = st.present :=
  present_setVaults st _

theorem Global.persistVaults (h : Global st) : Global st.persistVaults :=
  h.setVaults ((map_id_denormalize h.byId).trans h.ids)

theorem global_persistVaults (hids : st.vaultIds = st.present)
    (hbyId : ∀ id ∈ st.vaultIds, ∃ v, st.vaultsById id = some v ∧ v.id = id ∧ Store.local? v)
    (hwritable : st.writable) : Global st.persistVaults := by
  rw [Store.persistVaults, Store.setVaults, if_pos hwritable]
  exact ⟨hids, hbyId, (map_id_denormalize hbyId).trans hids⟩

theorem setVault_self (st : Store) (id : String) (v : Option VaultInfo) : st.setVault id v id = v :=
  if_pos rfl

theorem setVault_ne (st : Store) {id id' : String} (hne : id' ≠ id) (v : Option VaultInfo) :
    st.setVault id v id' = st.vaultsById id' :=
  if_neg hne

/-! ## The events -/

theorem Global.createVault (h : Global st) (id name now : String) (hwritable : st.writable) :
    Global (st.createVault id name now) := by
  refine global_persistVaults ?_ ?_ hwritable
  · exact congrArg (· ++ [id]) h.ids
  · intro id' hid'
    by_cases heq : id' = id
    · exact ⟨⟨id, name, 0, now, none⟩, heq ▸ setVault_self st id _, heq.symm, rfl⟩
    · have hold : id' ∈ st.vaultIds := (List.mem_append.mp hid').resolve_right fun hmem =>
        heq (List.mem_singleton.mp hmem)
      obtain ⟨v, hv, hvid, hlocal⟩ := h.byId id' hold
      exact ⟨v, (setVault_ne st heq _).trans hv, hvid, hlocal⟩

theorem Global.deleteVault (h : Global st) (vaultId : String) (hwritable : st.writable) :
    Global (st.deleteVault vaultId).1 := by
  refine global_persistVaults ?_ ?_ hwritable
  · exact congrArg (List.filter fun id => id ≠ vaultId) h.ids
  · intro id hid
    obtain ⟨hmem, hne⟩ := List.mem_filter.mp hid
    obtain ⟨v, hv, hvid, hlocal⟩ := h.byId id hmem
    exact ⟨v, (setVault_ne st (of_decide_eq_true hne) _).trans hv, hvid, hlocal⟩

theorem Global.updateVault (h : Global st) (vaultId name : String) (fileCount : Nat)
    (now : String) : Global (st.updateVault vaultId name fileCount now) := by
  unfold Store.updateVault
  split
  · rename_i v hv
    have hset : Global { st with
        vaultsById := st.setVault vaultId
          (some { v with name := name, fileCount := fileCount, lastModified := now }) } := by
      refine { h with byId := fun id hid => ?_ }
      obtain ⟨w, hw, hwid, hlocal⟩ := h.byId id hid
      by_cases heq : id = vaultId
      · subst heq
        obtain rfl := Option.some.inj (hw.symm.trans hv)
        exact ⟨_, setVault_self st _ _, hwid, hlocal⟩
      · exact ⟨w, (setVault_ne st heq _).trans hw, hwid, hlocal⟩
    exact hset.persistVaults
  · exact h.persistVaults

theorem present_updateVault (st : Store) (vaultId name : String) (fileCount : Nat) (now : String) :
    (st.updateVault vaultId name fileCount now).present = st.present := by
  unfold Store.updateVault
  split
  · rw [present_persistVaults]
  · exact present_persistVaults st

/-! ## The calls -/

/-- The lists of two stores are the same. -/
structure SameLists (st st' : Store) : Prop where
  vaultIds : st'.vaultIds = st.vaultIds
  vaultsById : st'.vaultsById = st.vaultsById
  vaults : st'.vaults = st.vaults
  present : st'.present = st.present

theorem SameLists.refl (st : Store) : SameLists st st := ⟨rfl, rfl, rfl, rfl⟩

theorem Global.same {st' : Store} (h : Global st) (hsame : SameLists st st') : Global st' where
  ids := by rw [hsame.vaultIds, hsame.present, h.ids]
  byId := by
    rw [hsame.vaultIds, hsame.vaultsById]
    exact h.byId
  stored := by rw [hsame.vaults, hsame.present, h.stored]

/-- **A step of a call** leaves the lists alone, and its copy is then the one it
had or the stored list; or it writes its copy. -/
theorem exec_cases (k : Nat) (st : Store) (pc : Pc) (o : Outcome) :
    (SameLists st (exec k st pc o).1
        ∧ ∀ copy, (exec k st pc o).2.copy = some copy → pc.copy = some copy ∨ copy = st.vaults)
      ∨ ∃ copy vaults, pc.copy = some copy ∧ vaults.map (·.id) = copy.map (·.id)
        ∧ (exec k st pc o).1 = st.setVaults vaults ∧ (exec k st pc o).2.copy = none := by
  have hnone : ∀ {st' : Store} {q : Pc}, SameLists st st' → q.copy = none →
      SameLists st st' ∧ ∀ copy, q.copy = some copy → pc.copy = some copy ∨ copy = st.vaults := by
    intro st' q hsame hq
    refine ⟨hsame, fun copy hcopy => ?_⟩
    rw [hq] at hcopy
    cases hcopy
  cases pc with
  | saveVaults job vaults fileCount =>
    exact .inr ⟨vaults, _, rfl, map_id_updateVault job fileCount o.now vaults, rfl, rfl⟩
  | filter vaultId vaults => exact .inr ⟨_, _, rfl, rfl, rfl, rfl⟩
  | loadVaults job =>
    refine .inl ⟨.refl st, fun copy hcopy => .inr ?_⟩
    simp only [exec, Pc.copy] at hcopy
    split at hcopy
    · exact (Option.some.inj hcopy).symm
    · cases hcopy
  | find job vaults =>
    left
    simp only [exec]
    split
    · rename_i hfound
      exact ⟨.refl st, fun copy hcopy => .inl ((if_pos hfound).trans hcopy)⟩
    · exact hnone (.refl st) rfl
  | loadFiles job vaults => exact .inl ⟨.refl st, fun copy hcopy => .inl hcopy⟩
  | getDB job | getAll vaultId =>
    left
    simp only [exec]
    split <;> exact hnone (.refl st) rfl
  | metadata job =>
    left
    cases job with
    | saveFile file hasBlob =>
      simp only [exec]
      split
      · exact hnone (.refl st) rfl
      · exact hnone ⟨rfl, rfl, rfl, rfl⟩ (by cases hasBlob <;> rfl)
    | deleteFile vaultId fileId =>
      simp only [exec]
      split
      · exact hnone (.refl st) rfl
      · exact hnone ⟨rfl, rfl, rfl, rfl⟩ rfl
  | blob job =>
    left
    cases job <;> simp only [exec] <;> split
    all_goals exact hnone ⟨rfl, rfl, rfl, rfl⟩ rfl
  | deleteBlob vaultId files =>
    left
    cases files with
    | nil => exact hnone (.refl st) rfl
    | cons file files =>
      simp only [exec]
      split <;> exact hnone ⟨rfl, rfl, rfl, rfl⟩ rfl
  | deleteMetadata vaultId file files | deleteIndex vaultId =>
    left
    simp only [exec]
    split <;> exact hnone ⟨rfl, rfl, rfl, rfl⟩ rfl
  | finished => exact .inl (hnone (.refl st) rfl)

theorem present_exec (k : Nat) (st : Store) (pc : Pc) (o : Outcome) :
    (exec k st pc o).1.present = st.present := by
  rcases exec_cases k st pc o with ⟨hsame, -⟩ | ⟨copy, vaults, -, -, heq, -⟩
  · exact hsame.present
  · rw [heq, present_setVaults]

theorem Global.exec {k : Nat} (h : Global st) (hlocal : Local st k pc) (o : Outcome) :
    Global (exec k st pc o).1 ∧ Local (exec k st pc o).1 k (exec k st pc o).2 := by
  rcases exec_cases k st pc o with ⟨hsame, hcopy⟩ | ⟨copy, vaults, hpc, hids, heq, hnone⟩
  · refine ⟨h.same hsame, fun copy hnext => ?_⟩
    rw [hsame.present]
    rcases hcopy copy hnext with hold | rfl
    · exact hlocal copy hold
    · exact h.stored
  · rw [heq]
    refine ⟨h.setVaults (hids.trans (hlocal copy hpc)), fun copy hnext => ?_⟩
    rw [hnone] at hnext
    cases hnext

/-! ## Runs -/

theorem Local.of_present {st' : Store} {k : Nat} (h : Local st k pc)
    (hpresent : st'.present = st.present) : Local st' k pc :=
  fun copy hcopy => (h copy hcopy).trans hpresent.symm

theorem local_of_none {k : Nat} (h : pc.copy = none) : Local st k pc := by
  intro copy hcopy
  rw [h] at hcopy
  cases hcopy

/-- **The lists of a run** whose creations and deletions find no call with a
copy. -/
theorem holds_run {actions : List (Action Event Outcome)}
    (h : Run.Each service.step Alone ⟨.initial, []⟩ actions) :
    Holds Global Local (service.run ⟨.initial, []⟩ actions) := by
  have hinitial : Global .initial := ⟨rfl, fun id hid => absurd hid List.not_mem_nil, rfl⟩
  refine Holds.run ?_ ?_ h (Holds.initial hinitial)
  · intro s e hs halone
    cases e with
    | createVault id name now =>
      obtain ⟨hwritable, hcopies⟩ := halone
      refine ⟨hs.store.createVault id name now hwritable, fun k p hp _ => ?_, fun p hp => ?_⟩
      · exact local_of_none (hcopies p (List.mem_of_getElem? hp))
      · cases hp
    | deleteVault vaultId =>
      obtain ⟨hwritable, hcopies⟩ := halone
      refine ⟨hs.store.deleteVault vaultId hwritable, fun k p hp _ => ?_, fun p hp => ?_⟩
      · exact local_of_none (hcopies p (List.mem_of_getElem? hp))
      · obtain rfl := Option.some.inj hp
        intro copy hcopy
        obtain rfl := Option.some.inj hcopy
        have hpresent : (s.store.deleteVault vaultId).1.present
            = s.store.present.filter fun id => id ≠ vaultId := present_persistVaults _
        exact (map_id_filter vaultId _).trans ((congrArg _ hs.store.stored).trans hpresent.symm)
    | updateVault vaultId name fileCount now =>
      refine ⟨hs.store.updateVault vaultId name fileCount now, fun k p _ hp => ?_, fun p hp => ?_⟩
      · exact hp.of_present (present_updateVault s.store vaultId name fileCount now)
      · cases hp
    | saveFile file hasBlob =>
      refine ⟨hs.store, fun k p _ hp => hp, fun p hp => ?_⟩
      obtain rfl := Option.some.inj hp
      exact local_of_none rfl
    | deleteFile vaultId fileId =>
      refine ⟨hs.store, fun k p _ hp => hp, fun p hp => ?_⟩
      obtain rfl := Option.some.inj hp
      exact local_of_none rfl
    | storage writable =>
      refine ⟨⟨hs.store.ids, hs.store.byId, hs.store.stored⟩, fun k p _ hp => hp, fun p hp => ?_⟩
      cases hp
  · intro s k p o hs _ hp
    obtain ⟨hglobal, hlocal⟩ := hs.store.exec (hs.call k p hp) o
    exact ⟨hglobal, hlocal, fun j q _ _ hq => hq.of_present (present_exec k s.store p o)⟩

/-- **The stored list loses and resurrects nothing** along a run in which a vault
is created or deleted only while no call holds a copy of the list that it will
write, and `localStorage` takes the new list. -/
theorem exact_run (actions : List (Action Event Outcome))
    (h : Run.Each service.step Alone ⟨.initial, []⟩ actions) :
    Exact (service.run ⟨.initial, []⟩ actions) :=
  fun _ => (holds_run h).store.stored

/-- A file is saved in a vault, one vault is made and another deleted. -/
def oneAfterTheOther : List (Action Event Outcome) :=
  List.flatten
    [[.world (.createVault "vault-1" "Photos" "09:00"),
      .world (.saveFile ⟨"file-1", "vault-1", false⟩ false)],
     List.replicate 6 (.exec 0 ⟨false, "09:01"⟩),
     [.world (.createVault "vault-2" "Papers" "09:02"), .world (.deleteVault "vault-1")],
     List.replicate 6 (.exec 1 ⟨false, "09:03"⟩)]

theorem exact_oneAfterTheOther : Exact (service.run ⟨.initial, []⟩ oneAfterTheOther) :=
  exact_run oneAfterTheOther (by decide)

/-- A vault is made while `saveFile` counts the files of another. -/
def createdWhileSaving : List (Action Event Outcome) :=
  List.flatten
    [[.world (.createVault "vault-1" "Photos" "09:00"),
      .world (.saveFile ⟨"file-1", "vault-1", false⟩ false)],
     List.replicate 4 (.exec 0 ⟨false, "09:01"⟩),
     [.world (.createVault "vault-2" "Papers" "09:01")],
     List.replicate 2 (.exec 0 ⟨false, "09:02"⟩)]

/-- The new vault is not in the stored list. -/
theorem not_exact_createdWhileSaving :
    ¬∀ actions : List (Action Event Outcome), Exact (service.run ⟨.initial, []⟩ actions) := by
  intro h
  have hfinished : ∀ pc ∈ (service.run ⟨.initial, []⟩ createdWhileSaving).calls,
      pc = .finished := by decide
  have hlist := h createdWhileSaving hfinished
  exact absurd hlist (by decide)

end UsbVault.App.WebVaultList
