import Mathlib.Data.List.Induction
import Mathlib.Data.List.Infix
import Mathlib.Data.List.Nodup
import Mathlib.Logic.Function.Basic
import UsbVault.Lib.Run

/-!
# The vault list store

The list of ids, the map from ids to vaults and the list of vaults, which the
store keeps side by side, and the actions that change them. `loadVaults` merges
what the companion discovers with the vaults kept in local storage; the id of a
discovered vault is the id of its drive.

The three agree (`Consistent`) and every discovered vault has an entry with its
own mount point (`Represented`) when no drive has two vault partitions and no
drive is taken for another one (`Distinct`).
-/

namespace UsbVault.App.VaultListStore

/-! ## Data -/

inductive SecurityLevel where
  | standard | high | maximum
  deriving DecidableEq, Repr

inductive Source where
  | usb | cloud | local
  deriving DecidableEq, Repr

structure VaultInfo where
  id : String
  name : String
  encryptedMetadata : String
  fileCount : Nat
  lastModified : String
  securityLevel : SecurityLevel
  wrappedMekB64 : Option String
  kekSaltHex : Option String
  hasRecoveryCodes : Option Bool
  mountPoint : Option String
  driveName : Option String
  fileSystem : Option String
  algorithm : Option String
  source : Option Source
  deriving DecidableEq, Repr

structure USBPartition where
  label : String
  fileSystem : String
  mountPoint : Option String
  mountpoint : Option String
  fstype : Option String
  hasVault : Bool
  deriving DecidableEq, Repr

structure USBDrive where
  id : String
  name : String
  hasVault : Bool
  partitions : List USBPartition
  deriving DecidableEq, Repr

/-- What `discoverVaults` lists. -/
structure DiscoveredDrive where
  driveId : String
  driveName : String
  partitions : List USBPartition
  deriving DecidableEq, Repr

/-- `a || b` of strings. -/
def orElse (a b : String) : String := if a = "" then b else a

/-! ## Discovery -/

/-- The entry of a vault that was discovered: it is built alike in all three
places. -/
def usbVault (now id name mountPoint driveName fileSystem : String) (algorithm : Option String) :
    VaultInfo where
  id := id
  name := name
  encryptedMetadata := ""
  fileCount := 0
  lastModified := now
  securityLevel := .maximum
  wrappedMekB64 := none
  kekSaltHex := none
  hasRecoveryCodes := none
  mountPoint := some mountPoint
  driveName := some driveName
  fileSystem := some fileSystem
  algorithm := algorithm
  source := none

/-- `p.mountPoint ?? p.mountpoint ?? ''` -/
def USBPartition.mount (p : USBPartition) : String := (p.mountPoint.or p.mountpoint).getD ""

def partitionVault (now : String) (d : DiscoveredDrive) (p : USBPartition) : VaultInfo :=
  usbVault now d.driveId (orElse p.label d.driveName) p.mount d.driveName
    (orElse p.fileSystem (p.fstype.getD "")) (some "")

def driveLevelVault (now : String) (d : DiscoveredDrive) : VaultInfo :=
  usbVault now d.driveId d.driveName "" d.driveName "" (some "")

def DiscoveredDrive.vaultPartitions (d : DiscoveredDrive) : List USBPartition :=
  d.partitions.filter USBPartition.hasVault

def DiscoveredDrive.vaults (now : String) (d : DiscoveredDrive) : List VaultInfo :=
  if d.vaultPartitions = [] then [driveLevelVault now d]
  else d.vaultPartitions.map (partitionVault now d)

/-- The mount points of a drive, those that are empty left out. -/
def USBDrive.driveMountPoints (drive : USBDrive) : List String :=
  (drive.partitions.filterMap USBPartition.mountpoint).filter fun mp => mp ≠ ""

/-- `mp.split('/').slice(0, -1).join('/')` -/
def parentPath (mp : String) : String := String.intercalate "/" (mp.splitOn "/").dropLast

/-- The two names, neither empty, are the same or one contains the other. -/
def similarNames (a b : String) : Bool :=
  a ≠ "" ∧ b ≠ "" ∧ (b.toList <:+: a.toList ∨ a.toList <:+: b.toList)

/-- A vault on the drive of this name, or beside one of its mount points. -/
def nextTo (drive : USBDrive) (rv : VaultInfo) : Bool :=
  rv.driveName = some drive.name
    ∨ drive.driveMountPoints.any fun mp =>
        rv.mountPoint.any fun mount => mount ≠ "" ∧ parentPath mp = parentPath mount

def alreadyFound (realVaults : List VaultInfo) (drive : USBDrive) : Bool :=
  realVaults.any fun rv =>
    (rv.mountPoint.any fun mount => mount ∈ drive.driveMountPoints)
      ∨ rv.driveName = some drive.name
      ∨ rv.name = drive.name
      ∨ (rv.driveName.any fun driveName => similarNames driveName drive.name)
      ∨ (drive.id ≠ "" ∧ realVaults.any (nextTo drive))

/-- `drive.partitions?.find(p => p.mountpoint)` -/
def USBDrive.mounted (drive : USBDrive) : Option USBPartition :=
  drive.partitions.find? fun p => p.mountpoint.any fun mp => mp ≠ ""

def USBDrive.mountPoint (drive : USBDrive) : String :=
  (drive.mounted.bind USBPartition.mountpoint).getD ""

def driveVault (now : String) (drive : USBDrive) : VaultInfo :=
  usbVault now ("usb-" ++ drive.id) ("Vault on " ++ drive.name) drive.mountPoint drive.name
    ((drive.mounted.bind USBPartition.fstype).getD "") none

def addDrive (now : String) (realVaults : List VaultInfo) (drive : USBDrive) : List VaultInfo :=
  if alreadyFound realVaults drive = false ∧ drive.mountPoint ≠ "" then
    realVaults ++ [driveVault now drive]
  else realVaults

/-- The discovered vaults; a list that cannot be fetched counts as empty. -/
def realVaults (now : String) (drives : Option (List USBDrive))
    (discovered : Option (List DiscoveredDrive)) : List VaultInfo :=
  ((drives.getD []).filter USBDrive.hasVault).foldl (addDrive now)
    ((discovered.getD []).flatMap (DiscoveredDrive.vaults now))

/-! ## The store -/

structure Store where
  vaultIds : List String
  vaultsById : String → Option VaultInfo
  vaults : List VaultInfo

def Store.initial : Store := ⟨[], fun _ => none, []⟩

/-- `vaultIds.map(id => vaultsById[id]).filter(Boolean)` -/
def denormalize (ids : List String) (byId : String → Option VaultInfo) : List VaultInfo :=
  ids.filterMap byId

def normalize (vaults : List VaultInfo) : List String × (String → Option VaultInfo) :=
  vaults.foldl (fun n v => (n.1 ++ [v.id], Function.update n.2 v.id (some v)))
    ([], fun _ => none)

/-- `set` of the ids and the map, and of the list made of them. -/
def Store.of (ids : List String) (byId : String → Option VaultInfo) : Store :=
  ⟨ids, byId, denormalize ids byId⟩

/-- `loadVaults` on the web. `stored` is what local storage gives, and
`storedAgain` what it gives when it has failed. -/
def loadVaults (now : String) (drives : Option (List USBDrive))
    (discovered : Option (List DiscoveredDrive)) (stored storedAgain : Option (List VaultInfo)) :
    Store :=
  match stored with
  | some localVaults =>
    let real := realVaults now drives discovered
    let localOnly := localVaults.filter fun lv =>
      (real.any fun rv => rv.id = lv.id) = false ∧ lv.source = some .local
    let n := normalize (real ++ localOnly)
    .of n.1 n.2
  | none =>
    match storedAgain with
    | some stored =>
      let n := normalize (stored.filter fun v => v.source = some .local)
      .of n.1 n.2
    | none => .initial

/-- The vault that `createVault` and `createVaultWithKeyHierarchy` add. -/
def createVault (newVault : VaultInfo) (s : Store) : Store :=
  .of (s.vaultIds ++ [newVault.id]) (Function.update s.vaultsById newVault.id (some newVault))

def deleteVault (vaultId : String) (s : Store) : Store :=
  .of (s.vaultIds.filter fun id => id ≠ vaultId) (Function.update s.vaultsById vaultId none)

/-- `_updateVault`, and `renameVault`, whose patch is a name and a time. -/
def updateVault (vaultId : String) (patch : VaultInfo → VaultInfo) (s : Store) : Store :=
  match s.vaultsById vaultId with
  | none => s
  | some vault => .of s.vaultIds (Function.update s.vaultsById vaultId (some (patch vault)))

def renameVault (vaultId newName now : String) (s : Store) : Store :=
  updateVault vaultId (fun vault => { vault with name := newName, lastModified := now }) s

def insertVault (vault : VaultInfo) (s : Store) : Store :=
  .of (if vault.id ∈ s.vaultIds then s.vaultIds else s.vaultIds ++ [vault.id])
    (Function.update s.vaultsById vault.id (some vault))

/-! ## Runs -/

inductive Action where
  | loadVaults (now : String) (drives : Option (List USBDrive))
      (discovered : Option (List DiscoveredDrive)) (stored storedAgain : Option (List VaultInfo))
  | createVault (newVault : VaultInfo)
  | deleteVault (vaultId : String)
  | renameVault (vaultId newName now : String)
  | updateVault (vaultId : String) (patch : VaultInfo → VaultInfo)
  | insertVault (vault : VaultInfo)

def step (s : Store) : Action → Store
  | .loadVaults now drives discovered stored storedAgain =>
    VaultListStore.loadVaults now drives discovered stored storedAgain
  | .createVault newVault => VaultListStore.createVault newVault s
  | .deleteVault vaultId => VaultListStore.deleteVault vaultId s
  | .renameVault vaultId newName now => VaultListStore.renameVault vaultId newName now s
  | .updateVault vaultId patch => VaultListStore.updateVault vaultId patch s
  | .insertVault vault => VaultListStore.insertVault vault s

def run (actions : List Action) : Store := actions.foldl step Store.initial

/-- The ids are distinct and are the keys of the map, and the list has the
vault of each id, in their order. -/
structure Consistent (s : Store) : Prop where
  nodup : s.vaultIds.Nodup
  keys : ∀ id, id ∈ s.vaultIds ↔ (s.vaultsById id).isSome
  vaults : s.vaults.map VaultInfo.id = s.vaultIds
  byId : ∀ v ∈ s.vaults, s.vaultsById v.id = some v

/-- After `loadVaults`, each vault partition that was discovered, each drive
discovered without one, and each mounted drive that is listed with a vault has
an entry with its own mount point. -/
def Represented (s : Store) : Action → Prop
  | .loadVaults _ drives discovered _ _ =>
    (∀ d ∈ discovered.getD [], d.vaultPartitions = [] →
      ∃ v ∈ s.vaults, v.id = d.driveId ∧ v.mountPoint = some "")
    ∧ (∀ d ∈ discovered.getD [], ∀ p ∈ d.vaultPartitions,
      ∃ v ∈ s.vaults, v.id = d.driveId ∧ v.mountPoint = some p.mount)
    ∧ ∀ drive ∈ drives.getD [], drive.hasVault → drive.mountPoint ≠ "" →
      ∃ v ∈ s.vaults, ∃ mount ∈ drive.driveMountPoints, v.mountPoint = some mount
  | _ => True

/-- The drive is mounted where a discovered vault is. -/
def discoveredAt (discovered : List DiscoveredDrive) (drive : USBDrive) : Bool :=
  discovered.any fun d => d.vaultPartitions.any fun p => p.mount ∈ drive.driveMountPoints

def isNew (discovered : List DiscoveredDrive) (drive : USBDrive) : Bool :=
  drive.mountPoint ≠ "" ∧ discoveredAt discovered drive = false

/-- The mounted drives with a vault that has not been discovered. -/
def newDrives (drives : List USBDrive) (discovered : List DiscoveredDrive) : List USBDrive :=
  (drives.filter USBDrive.hasVault).filter (isNew discovered)

def foundIds (drives : List USBDrive) (discovered : List DiscoveredDrive) : List String :=
  discovered.map DiscoveredDrive.driveId
    ++ (newDrives drives discovered).map fun drive => "usb-" ++ drive.id

/-- No drive has two vault partitions, what is found has distinct ids and so
has what is stored beside it, and no drive, when its turn comes, is taken for
one that was found before. -/
structure Distinct (now : String) (drives : List USBDrive) (discovered : List DiscoveredDrive)
    (stored : List VaultInfo) : Prop where
  partitions : ∀ d ∈ discovered, d.vaultPartitions.length ≤ 1
  ids : (foundIds drives discovered).Nodup
  stored : ((stored.filter fun v =>
    v.source = some .local ∧ v.id ∉ foundIds drives discovered).map VaultInfo.id).Nodup
  apart : Run.Each (fun found drive => found ++ [driveVault now drive])
    (fun found drive => alreadyFound found drive = false)
    (discovered.flatMap (DiscoveredDrive.vaults now)) (newDrives drives discovered)

/-- What is loaded is distinct, and local storage can be read when something
is found; a new vault has an id that is not taken; and an update leaves the id
alone. -/
def Sane (s : Store) : Action → Prop
  | .loadVaults now drives discovered stored storedAgain =>
    Distinct now (drives.getD []) (discovered.getD []) ((stored.or storedAgain).getD [])
      ∧ (stored = none → foundIds (drives.getD []) (discovered.getD []) = [])
  | .createVault newVault => newVault.id ∉ s.vaultIds
  | .updateVault vaultId patch => ∀ v, s.vaultsById vaultId = some v → (patch v).id = v.id
  | _ => True

/-! ## The three representations -/

theorem denormalize_ids {ids : List String} {byId : String → Option VaultInfo}
    (h : ∀ id ∈ ids, ∃ v, byId id = some v ∧ v.id = id) :
    (denormalize ids byId).map VaultInfo.id = ids := by
  induction ids with
  | nil => rfl
  | cons id ids ih =>
    obtain ⟨v, hv, hid⟩ := h id List.mem_cons_self
    have htail := ih fun id' h' => h id' (List.mem_cons_of_mem id h')
    rw [denormalize] at htail ⊢
    rw [List.filterMap_cons_some hv, List.map_cons, hid, htail]

/-- A store made of distinct ids and a map that has just these keys. -/
theorem consistent_of {ids : List String} {byId : String → Option VaultInfo} (hnodup : ids.Nodup)
    (hkeys : ∀ id, id ∈ ids ↔ (byId id).isSome)
    (hid : ∀ id v, byId id = some v → v.id = id) : Consistent (.of ids byId) where
  nodup := hnodup
  keys := hkeys
  vaults := by
    refine denormalize_ids fun id h => ?_
    obtain ⟨v, hv⟩ := Option.isSome_iff_exists.mp ((hkeys id).mp h)
    exact ⟨v, hv, hid id v hv⟩
  byId := by
    intro v hv
    obtain ⟨id, -, hbyId⟩ := List.mem_filterMap.mp hv
    rw [hid id v hbyId]
    exact hbyId

theorem Consistent.id {s : Store} (hs : Consistent s) {id : String} {v : VaultInfo}
    (h : s.vaultsById id = some v) : v.id = id := by
  have hmem : id ∈ s.vaultIds := (hs.keys id).mpr (by rw [h]; rfl)
  rw [← hs.vaults] at hmem
  obtain ⟨w, hw, rfl⟩ := List.mem_map.mp hmem
  have hsame : some w = some v := (hs.byId w hw).symm.trans h
  rw [Option.some.inj hsame]

theorem consistent_initial : Consistent Store.initial where
  nodup := List.nodup_nil
  keys := by simp [Store.initial]
  vaults := rfl
  byId := by simp [Store.initial]

theorem normalize_append (l : List VaultInfo) (v : VaultInfo) :
    normalize (l ++ [v])
      = ((normalize l).1 ++ [v.id], Function.update (normalize l).2 v.id (some v)) := by
  rw [normalize, List.foldl_append]
  rfl

theorem normalize_ids (l : List VaultInfo) : (normalize l).1 = l.map VaultInfo.id := by
  induction l using List.reverseRecOn with
  | nil => rfl
  | append_singleton l v ih => rw [normalize_append, ih, List.map_append, List.map_singleton]

theorem normalize_byId {l : List VaultInfo} (h : (l.map VaultInfo.id).Nodup) {id : String}
    {v : VaultInfo} : (normalize l).2 id = some v ↔ v ∈ l ∧ v.id = id := by
  induction l using List.reverseRecOn with
  | nil => simp [normalize]
  | append_singleton l w ih =>
    rw [List.map_append, List.map_singleton, List.nodup_append] at h
    rw [normalize_append]
    dsimp only
    by_cases hid : id = w.id
    · subst hid
      rw [Function.update_self, Option.some.injEq, List.mem_append, List.mem_singleton]
      constructor
      · rintro rfl
        exact ⟨.inr rfl, rfl⟩
      · rintro ⟨hv | rfl, heq⟩
        · exact absurd heq (h.2.2 _ (List.mem_map_of_mem hv) _ (List.mem_singleton_self _))
        · rfl
    · rw [Function.update_of_ne hid, ih h.1, List.mem_append, List.mem_singleton]
      constructor
      · rintro ⟨hv, heq⟩
        exact ⟨.inl hv, heq⟩
      · rintro ⟨hv | rfl, heq⟩
        · exact ⟨hv, heq⟩
        · exact absurd heq.symm hid

/-- **Vaults with distinct ids** make a consistent store that has them all. -/
theorem consistent_normalize {l : List VaultInfo} (h : (l.map VaultInfo.id).Nodup) :
    Consistent (.of (normalize l).1 (normalize l).2)
      ∧ ∀ v ∈ l, v ∈ (Store.of (normalize l).1 (normalize l).2).vaults := by
  constructor
  · refine consistent_of (by rw [normalize_ids]; exact h) ?_ fun id v hv =>
      ((normalize_byId h).mp hv).2
    intro id
    rw [normalize_ids, List.mem_map, Option.isSome_iff_exists]
    exact exists_congr fun v => (normalize_byId h).symm
  · intro v hv
    refine List.mem_filterMap.mpr ⟨v.id, ?_, (normalize_byId h).mpr ⟨hv, rfl⟩⟩
    rw [normalize_ids]
    exact List.mem_map_of_mem hv

/-! ## What is found -/

theorem vaults_of_none {now : String} {d : DiscoveredDrive} (h : d.vaultPartitions = []) :
    d.vaults now = [driveLevelVault now d] := by
  rw [DiscoveredDrive.vaults, if_pos h]

theorem mem_vaults {now : String} {d : DiscoveredDrive} {p : USBPartition}
    (h : p ∈ d.vaultPartitions) : partitionVault now d p ∈ d.vaults now := by
  rw [DiscoveredDrive.vaults, if_neg (List.ne_nil_of_mem h)]
  exact List.mem_map_of_mem h

/-- A drive without a second vault partition has one entry, with its id. -/
theorem vaults_ids {now : String} {d : DiscoveredDrive} (h : d.vaultPartitions.length ≤ 1) :
    (d.vaults now).map VaultInfo.id = [d.driveId] := by
  rw [DiscoveredDrive.vaults]
  split
  · rfl
  · rename_i hne
    obtain ⟨p, hp⟩ := List.length_eq_one_iff.mp
      (Nat.le_antisymm h (List.length_pos_iff.mpr hne))
    rw [hp]
    rfl

theorem flatMap_vaults_ids {now : String} {discovered : List DiscoveredDrive}
    (h : ∀ d ∈ discovered, d.vaultPartitions.length ≤ 1) :
    (discovered.flatMap (DiscoveredDrive.vaults now)).map VaultInfo.id
      = discovered.map DiscoveredDrive.driveId := by
  induction discovered with
  | nil => rfl
  | cons d ds ih =>
    rw [List.flatMap_cons, List.map_append, vaults_ids (h d List.mem_cons_self),
      ih fun d' h' => h d' (List.mem_cons_of_mem d h')]
    rfl

theorem alreadyFound_of_mount {real : List VaultInfo} {drive : USBDrive} {v : VaultInfo}
    {mount : String} (hv : v ∈ real) (hmount : v.mountPoint = some mount)
    (h : mount ∈ drive.driveMountPoints) : alreadyFound real drive = true := by
  refine List.any_eq_true.mpr ⟨v, hv, ?_⟩
  rw [decide_eq_true_eq, hmount]
  exact .inl (decide_eq_true h)

theorem mountPoint_mem {drive : USBDrive} (h : drive.mountPoint ≠ "") :
    drive.mountPoint ∈ drive.driveMountPoints := by
  rw [USBDrive.mountPoint] at h ⊢
  cases hfind : drive.mounted with
  | none =>
    rw [hfind] at h
    exact absurd rfl h
  | some p =>
    rw [hfind] at h
    rw [Option.bind_some] at h ⊢
    cases hmount : p.mountpoint with
    | none =>
      rw [hmount] at h
      exact absurd rfl h
    | some mp =>
      rw [hmount] at h
      refine List.mem_filter.mpr ⟨?_, decide_eq_true h⟩
      exact List.mem_filterMap.mpr ⟨p, List.mem_of_find?_eq_some hfind, hmount⟩

theorem discoveredAt_iff {discovered : List DiscoveredDrive} {drive : USBDrive} :
    discoveredAt discovered drive = true
      ↔ ∃ d ∈ discovered, ∃ p ∈ d.vaultPartitions, p.mount ∈ drive.driveMountPoints := by
  simp [discoveredAt]

theorem addDrive_of_not_new {now : String} {discovered : List DiscoveredDrive}
    {real : List VaultInfo} {drive : USBDrive}
    (hsub : ∀ v ∈ discovered.flatMap (DiscoveredDrive.vaults now), v ∈ real)
    (h : isNew discovered drive = false) : addDrive now real drive = real := by
  rw [addDrive, if_neg]
  rintro ⟨hnot, hmounted⟩
  refine of_decide_eq_false h ⟨hmounted, ?_⟩
  rw [← Bool.not_eq_true]
  intro hat
  obtain ⟨d, hd, p, hp, hmount⟩ := discoveredAt_iff.mp hat
  have hin := hsub _ (List.mem_flatMap.mpr ⟨d, hd, mem_vaults hp⟩)
  have hfound : alreadyFound real drive = true := alreadyFound_of_mount hin rfl hmount
  rw [hnot] at hfound
  exact absurd hfound Bool.false_ne_true

/-- **The drives that are added** are the new ones. -/
theorem foldl_addDrive {now : String} {discovered : List DiscoveredDrive} {ds : List USBDrive} :
    ∀ {real : List VaultInfo},
      (∀ v ∈ discovered.flatMap (DiscoveredDrive.vaults now), v ∈ real) →
      Run.Each (fun found drive => found ++ [driveVault now drive])
        (fun found drive => alreadyFound found drive = false) real (ds.filter (isNew discovered)) →
      ds.foldl (addDrive now) real
        = real ++ (ds.filter (isNew discovered)).map (driveVault now) := by
  induction ds with
  | nil => intro real _ _; exact (List.append_nil real).symm
  | cons drive ds ih =>
    intro real hsub hapart
    cases hnew : isNew discovered drive with
    | true =>
      rw [List.filter_cons_of_pos hnew] at hapart ⊢
      have hadd : addDrive now real drive = real ++ [driveVault now drive] :=
        if_pos ⟨hapart.1, (of_decide_eq_true hnew).1⟩
      have hsub' : ∀ v ∈ discovered.flatMap (DiscoveredDrive.vaults now),
          v ∈ real ++ [driveVault now drive] :=
        fun v hv => List.mem_append_left _ (hsub v hv)
      rw [List.foldl_cons, hadd, ih hsub' hapart.2, List.map_cons, List.append_assoc]
      rfl
    | false =>
      rw [List.filter_cons_of_neg (by rw [hnew]; exact Bool.false_ne_true)] at hapart ⊢
      rw [List.foldl_cons, addDrive_of_not_new hsub hnew]
      exact ih hsub hapart

theorem realVaults_eq {now : String} {drives : Option (List USBDrive)}
    {discovered : Option (List DiscoveredDrive)} {stored : List VaultInfo}
    (h : Distinct now (drives.getD []) (discovered.getD []) stored) :
    realVaults now drives discovered
      = (discovered.getD []).flatMap (DiscoveredDrive.vaults now)
        ++ (newDrives (drives.getD []) (discovered.getD [])).map (driveVault now) :=
  foldl_addDrive (fun _ hv => hv) h.apart

theorem realVaults_ids {now : String} {drives : Option (List USBDrive)}
    {discovered : Option (List DiscoveredDrive)} {stored : List VaultInfo}
    (h : Distinct now (drives.getD []) (discovered.getD []) stored) :
    (realVaults now drives discovered).map VaultInfo.id
      = foundIds (drives.getD []) (discovered.getD []) := by
  rw [realVaults_eq h, List.map_append, flatMap_vaults_ids h.partitions, List.map_map]
  rfl

/-! ## The actions -/

/-- What `loadVaults` shows of a store that holds all that was found. -/
theorem represented_of_mem {now : String} {drives : Option (List USBDrive)}
    {discovered : Option (List DiscoveredDrive)} {stored storedAgain : Option (List VaultInfo)}
    {distinctFrom : List VaultInfo} {s : Store}
    (h : Distinct now (drives.getD []) (discovered.getD []) distinctFrom)
    (hs : ∀ v ∈ realVaults now drives discovered, v ∈ s.vaults) :
    Represented s (.loadVaults now drives discovered stored storedAgain) := by
  rw [realVaults_eq h] at hs
  refine ⟨?_, ?_, ?_⟩
  · intro d hd hnone
    refine ⟨driveLevelVault now d, hs _ (List.mem_append_left _ ?_), rfl, rfl⟩
    rw [List.mem_flatMap]
    exact ⟨d, hd, by rw [vaults_of_none hnone]; exact List.mem_singleton_self _⟩
  · intro d hd p hp
    exact ⟨partitionVault now d p,
      hs _ (List.mem_append_left _ (List.mem_flatMap.mpr ⟨d, hd, mem_vaults hp⟩)), rfl, rfl⟩
  · intro drive hdrive hvault hmounted
    cases hat : discoveredAt (discovered.getD []) drive with
    | true =>
      obtain ⟨d, hd, p, hp, hmount⟩ := discoveredAt_iff.mp hat
      exact ⟨partitionVault now d p,
        hs _ (List.mem_append_left _ (List.mem_flatMap.mpr ⟨d, hd, mem_vaults hp⟩)),
        p.mount, hmount, rfl⟩
    | false =>
      have hnew : drive ∈ newDrives (drives.getD []) (discovered.getD []) :=
        List.mem_filter.mpr
          ⟨List.mem_filter.mpr ⟨hdrive, hvault⟩, decide_eq_true ⟨hmounted, hat⟩⟩
      exact ⟨driveVault now drive, hs _ (List.mem_append_right _ (List.mem_map_of_mem hnew)),
        drive.mountPoint, mountPoint_mem hmounted, rfl⟩

/-- **Loading** what is distinct, local storage read at the first try. -/
theorem load_stored {now : String} {drives : Option (List USBDrive)}
    {discovered : Option (List DiscoveredDrive)} {localVaults : List VaultInfo}
    {storedAgain : Option (List VaultInfo)}
    (h : Distinct now (drives.getD []) (discovered.getD []) localVaults) :
    Consistent (loadVaults now drives discovered (some localVaults) storedAgain)
      ∧ Represented (loadVaults now drives discovered (some localVaults) storedAgain)
          (.loadVaults now drives discovered (some localVaults) storedAgain) := by
  have hids := realVaults_ids h
  have hlocal : localVaults.filter (fun lv =>
      ((realVaults now drives discovered).any fun rv => rv.id = lv.id) = false
        ∧ lv.source = some .local)
      = localVaults.filter fun v =>
          v.source = some .local ∧ v.id ∉ foundIds (drives.getD []) (discovered.getD []) := by
    refine List.filter_congr fun v _ => ?_
    have hany : ((realVaults now drives discovered).any fun rv => rv.id = v.id) = false
        ↔ v.id ∉ foundIds (drives.getD []) (discovered.getD []) := by
      rw [← hids, ← Bool.not_eq_true, List.any_eq_true, List.mem_map]
      simp only [decide_eq_true_eq]
    rw [decide_eq_decide, hany]
    exact and_comm
  have hnodup : ((realVaults now drives discovered ++ localVaults.filter fun lv =>
      ((realVaults now drives discovered).any fun rv => rv.id = lv.id) = false
        ∧ lv.source = some .local).map VaultInfo.id).Nodup := by
    rw [hlocal, List.map_append, hids]
    refine List.nodup_append.mpr ⟨h.ids, h.stored, ?_⟩
    rintro id hfound _ hmem rfl
    obtain ⟨v, hv, rfl⟩ := List.mem_map.mp hmem
    exact (of_decide_eq_true (List.mem_filter.mp hv).2).2 hfound
  obtain ⟨hconsistent, hall⟩ := consistent_normalize hnodup
  exact ⟨hconsistent, represented_of_mem h fun v hv => hall v (List.mem_append_left _ hv)⟩

/-- Loading when local storage cannot be read, and nothing was found. -/
theorem load_failed {now : String} {drives : Option (List USBDrive)}
    {discovered : Option (List DiscoveredDrive)} {storedAgain : Option (List VaultInfo)}
    (h : Distinct now (drives.getD []) (discovered.getD []) (storedAgain.getD []))
    (hnone : foundIds (drives.getD []) (discovered.getD []) = []) :
    Consistent (loadVaults now drives discovered none storedAgain)
      ∧ Represented (loadVaults now drives discovered none storedAgain)
          (.loadVaults now drives discovered none storedAgain) := by
  have hempty : realVaults now drives discovered = [] :=
    List.map_eq_nil_iff.mp ((realVaults_ids h).trans hnone)
  refine ⟨?_, represented_of_mem h (by rw [hempty]; exact List.forall_mem_nil _)⟩
  cases storedAgain with
  | none => exact consistent_initial
  | some stored =>
    have hstored := h.stored
    rw [hnone, Option.getD_some] at hstored
    simp only [List.not_mem_nil, not_false_eq_true, and_true] at hstored
    exact (consistent_normalize hstored).1

theorem consistent_createVault {s : Store} (hs : Consistent s) {newVault : VaultInfo}
    (hnew : newVault.id ∉ s.vaultIds) : Consistent (createVault newVault s) := by
  refine consistent_of ?_ ?_ ?_
  · refine List.nodup_append.mpr ⟨hs.nodup, List.nodup_singleton _, ?_⟩
    rintro id hid _ hmem rfl
    exact hnew (List.mem_singleton.mp hmem ▸ hid)
  · intro id
    by_cases hid : id = newVault.id
    · subst hid
      simp
    · rw [Function.update_of_ne hid, ← hs.keys id, List.mem_append, List.mem_singleton]
      exact or_iff_left hid
  · intro id v hv
    by_cases hid : id = newVault.id
    · subst hid
      rw [Function.update_self] at hv
      rw [Option.some.inj hv]
    · rw [Function.update_of_ne hid] at hv
      exact hs.id hv

theorem consistent_deleteVault {s : Store} (hs : Consistent s) (vaultId : String) :
    Consistent (deleteVault vaultId s) := by
  refine consistent_of (hs.nodup.filter _) ?_ ?_
  · intro id
    rw [List.mem_filter, decide_eq_true_eq]
    by_cases hid : id = vaultId
    · subst hid
      simp
    · rw [Function.update_of_ne hid, ← hs.keys id]
      exact and_iff_left hid
  · intro id v hv
    by_cases hid : id = vaultId
    · subst hid
      rw [Function.update_self] at hv
      cases hv
    · rw [Function.update_of_ne hid] at hv
      exact hs.id hv

theorem consistent_updateVault {s : Store} (hs : Consistent s) {vaultId : String}
    {patch : VaultInfo → VaultInfo}
    (hpatch : ∀ v, s.vaultsById vaultId = some v → (patch v).id = v.id) :
    Consistent (updateVault vaultId patch s) := by
  rw [updateVault]
  split
  · exact hs
  · rename_i vault hvault
    refine consistent_of hs.nodup ?_ ?_
    · intro id
      rw [hs.keys id]
      by_cases hid : id = vaultId
      · subst hid
        rw [Function.update_self, hvault]
        rfl
      · rw [Function.update_of_ne hid]
    · intro id v hv
      by_cases hid : id = vaultId
      · subst hid
        rw [Function.update_self] at hv
        rw [← Option.some.inj hv, hpatch vault hvault, hs.id hvault]
      · rw [Function.update_of_ne hid] at hv
        exact hs.id hv

theorem consistent_insertVault {s : Store} (hs : Consistent s) (vault : VaultInfo) :
    Consistent (insertVault vault s) := by
  rw [insertVault]
  split
  · rename_i hmem
    obtain ⟨old, hold⟩ := Option.isSome_iff_exists.mp ((hs.keys vault.id).mp hmem)
    have hupdate : insertVault vault s = updateVault vault.id (fun _ => vault) s := by
      rw [insertVault, if_pos hmem, updateVault, hold]
    rw [insertVault, if_pos hmem] at hupdate
    rw [hupdate]
    exact consistent_updateVault hs fun v hv => (hs.id hv).symm
  · rename_i hnew
    exact consistent_createVault hs hnew

/-- **One action** keeps the store consistent, and shows what was loaded. -/
theorem step_consistent {s : Store} {a : Action} (hs : Consistent s) (h : Sane s a) :
    Consistent (step s a) ∧ Represented (step s a) a := by
  cases a with
  | loadVaults now drives discovered stored storedAgain =>
    obtain ⟨hdistinct, hnone⟩ := h
    cases stored with
    | some localVaults => exact load_stored hdistinct
    | none => exact load_failed hdistinct (hnone rfl)
  | createVault newVault => exact ⟨consistent_createVault hs h, trivial⟩
  | deleteVault vaultId => exact ⟨consistent_deleteVault hs vaultId, trivial⟩
  | renameVault vaultId newName now =>
    exact ⟨consistent_updateVault hs fun _ _ => rfl, trivial⟩
  | updateVault vaultId patch => exact ⟨consistent_updateVault hs h, trivial⟩
  | insertVault vault => exact ⟨consistent_insertVault hs vault, trivial⟩

/-- **The list is a set of vaults** after every run of sane actions, and after
each load every vault that was discovered is in it. -/
theorem run_consistent {actions : List Action}
    (h : Run.Each step Sane Store.initial actions) :
    Consistent (run actions)
      ∧ Run.Each step (fun s a => Represented (step s a) a) Store.initial actions := by
  have hinv : ∀ s a, Sane s a → Consistent s → Consistent (step s a) :=
    fun s a ha hs => (step_consistent hs ha).1
  constructor
  · exact h.preserves hinv consistent_initial
  · exact h.imp (fun s a hs ha => (step_consistent hs ha).2)
      (fun s a hs ha => hinv s a ha hs) consistent_initial

def vaultPartition (label mount : String) : USBPartition where
  label := label
  fileSystem := "exfat"
  mountPoint := some mount
  mountpoint := some mount
  fstype := none
  hasVault := true

def blueDrive : USBDrive where
  id := "sdb"
  name := "Blue"
  hasVault := true
  partitions := [vaultPartition "" "/media/blue"]

def discoveredBlue : DiscoveredDrive := ⟨"sdb", "Blue", [vaultPartition "Work" "/media/blue"]⟩

def paper : VaultInfo :=
  { usbVault "noon" "paper" "Paper" "" "" "" none with mountPoint := none, source := some .local }

/-- The drive is listed, then discovered; a vault is made, renamed, inserted
again, and deleted. -/
def blueRun : List Action :=
  [.loadVaults "noon" (some [blueDrive]) none (some []) none,
   .loadVaults "one" (some [blueDrive]) (some [discoveredBlue]) (some []) none,
   .createVault paper, .renameVault "paper" "Letters" "two", .insertVault paper,
   .updateVault "sdb" (fun vault => { vault with fileCount := 1 }), .deleteVault "paper"]

theorem run_consistent_blue :
    Consistent (run blueRun)
      ∧ Run.Each step (fun s a => Represented (step s a) a) Store.initial blueRun := by
  refine run_consistent ⟨⟨⟨?_, ?_, ?_, ?_⟩, ?_⟩, ⟨⟨?_, ?_, ?_, ?_⟩, ?_⟩, ?_, trivial, trivial, ?_,
    trivial, trivial⟩
  · exact List.forall_mem_nil _
  · decide
  · decide
  · exact ⟨rfl, trivial⟩
  · rintro ⟨⟩
  · decide
  · decide
  · decide
  · trivial
  · rintro ⟨⟩
  · show "paper" ∉ ["sdb"]
    decide
  · intro v _
    rfl

def twoVaults : DiscoveredDrive :=
  ⟨"sdc", "Red", [vaultPartition "A" "/media/a", vaultPartition "B" "/media/b"]⟩

/-- Of a drive with two vault partitions the second is listed twice, and the
first not at all. -/
theorem two_partitions_one_id :
    (run [.loadVaults "noon" none (some [twoVaults]) (some []) none]).vaultIds = ["sdc", "sdc"]
      ∧ ∀ v ∈ (run [.loadVaults "noon" none (some [twoVaults]) (some []) none]).vaults,
          v.mountPoint ≠ some "/media/a" := by
  decide

end UsbVault.App.VaultListStore
