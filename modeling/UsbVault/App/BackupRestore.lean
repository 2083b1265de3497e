import UsbVault.App.Backup
import Mathlib.Tactic.Choose

/-!
# Restoring a backup

`restoreFromBackup` over the vault list in memory. Each vault is created anew,
under an id of its own and without key material, and each file is added under
the id its vault had before. So a restore is complete for vaults that have no
key material and no files, and for no others.
-/

namespace UsbVault.App.Backup

open Wire Json

/-! ## The vault list -/

/-- The vault list in memory, and the settings. -/
structure Store where
  vaultIds : List String
  vaultsById : String → Option VaultInfo
  files : List FileInfo
  settings : List (String × Data)

namespace Store

/-- Stores without vaults and files. -/
def emptied (settings : List (String × Data)) : Store := ⟨[], fun _ => none, [], settings⟩

/-- `vaults`, which every action computes anew. -/
def vaults (st : Store) : List VaultInfo := st.vaultIds.filterMap st.vaultsById

/-- `{ ...state.vaultsById, [id]: v }`, or without the vault. -/
def setVault (st : Store) (id : String) (v : Option VaultInfo) : String → Option VaultInfo :=
  fun id' => if id' = id then v else st.vaultsById id'

/-- `newVault` -/
def newVault (newVaultId name now : String) : VaultInfo where
  id := newVaultId
  name := name
  encryptedMetadata := ""
  fileCount := 0
  lastModified := now
  securityLevel := .standard
  wrappedMekB64 := none
  kekSaltHex := none
  hasRecoveryCodes := none
  mountPoint := none
  driveName := none
  fileSystem := none
  algorithm := none
  source := none

def createVault (st : Store) (newVaultId name now : String) : Store :=
  { st with
    vaultsById := st.setVault newVaultId (some (newVault newVaultId name now))
    vaultIds := st.vaultIds ++ [newVaultId] }

def deleteVault (st : Store) (vaultId : String) : Store :=
  { st with
    vaultsById := st.setVault vaultId none
    vaultIds := st.vaultIds.filter fun id => id ≠ vaultId }

def addFile (st : Store) (file : FileInfo) (now : String) : Store :=
  { st with
    files := st.files ++ [file]
    vaultsById :=
      match st.vaultsById file.vaultId with
      | some vault =>
        st.setVault file.vaultId
          (some { vault with fileCount := vault.fileCount + 1, lastModified := now })
      | none => st.vaultsById }

/-- The files of a vault. -/
def filesOf (st : Store) (vaultId : String) : List FileInfo :=
  st.files.filter fun file => file.vaultId = vaultId

end Store

/-! ## Restoring -/

/-- What `generateVaultId` and the clock give, call by call. -/
structure Generated where
  id : Nat → String
  now : Nat → String

structure RestoreResult where
  vaultsRestored : Nat
  filesRestored : Nat
  settingsRestored : Bool
  deriving DecidableEq, Repr

/-- The loop over `backup.vaults`, from a call on. -/
def createVaults (g : Generated) : Nat → List VaultInfo → Store → Store
  | _, [], st => st
  | i, vault :: vaults, st =>
    createVaults g (i + 1) vaults (st.createVault (g.id i) vault.name (g.now i))

/-- The loop over `backup.files`. -/
def addFiles (g : Generated) : Nat → List FileInfo → Store → Store
  | _, [], st => st
  | i, file :: files, st => addFiles g (i + 1) files (st.addFile file (g.now i))

/-- `restoreFromBackup`; none of the actions it calls throws. -/
def restoreFromBackup (g : Generated) (backup : BackupData) (store : Store) (mergeExisting : Bool) :
    Store × RestoreResult :=
  let store :=
    if mergeExisting then store
    else store.vaults.foldl (fun st vault => st.deleteVault vault.id) store
  let store := createVaults g 0 backup.vaults store
  let store := addFiles g backup.vaults.length backup.files store
  -- `settingsService.save`, which merges
  ({ store with settings := store.settings ++ backup.settings },
    ⟨backup.vaults.length, backup.files.length, true⟩)

/-- What `importBackup` returns, restored into stores that have been emptied. -/
def restoreImported (g : Generated) (o : Options) (settings : List (String × Data)) :
    Except ImportError Data → Option Store
  | .ok imported =>
    (BackupData.ofData imported).map fun backup =>
      (restoreFromBackup g backup (.emptied settings) o.mergeExisting).1
  | .error _ => none

/-- The stores are backed up, and the backup is exported, imported and
restored. -/
def backupAndRestore (C : WebCrypto) (g : Generated) (o : Options) (st : Store) : Option Store :=
  let backup := createBackup o st.settings st.vaults st.files
  restoreImported g o st.settings (importBackup C (exportBackup C o backup) o.encryptionKey)

/-- Each vault is there again, with its name, its key material and its files,
and no file is lost. -/
def Complete (before after : Store) : Prop :=
  ∃ restored : VaultInfo → VaultInfo,
    (∀ v ∈ before.vaults,
      restored v ∈ after.vaults
        ∧ (restored v).name = v.name
        ∧ (restored v).wrappedMekB64 = v.wrappedMekB64
        ∧ (restored v).kekSaltHex = v.kekSaltHex
        ∧ ((after.filesOf (restored v).id).map fun f => (f.id, f.name, f.encryptedBlob)).Perm
            ((before.filesOf v.id).map fun f => (f.id, f.name, f.encryptedBlob)))
      ∧ (∀ v ∈ before.vaults, ∀ w ∈ before.vaults, (restored v).id = (restored w).id → v = w)
      ∧ ∀ f ∈ before.files, ∃ f' ∈ after.files, f'.id = f.id

/-- No vault has key material, and none has files. -/
def Bare (st : Store) : Prop :=
  ∀ v ∈ st.vaults, v.wrappedMekB64 = none ∧ v.kekSaltHex = none ∧ st.filesOf v.id = []

/-- A generated id is a new one. -/
structure Generated.Fresh (g : Generated) (st : Store) : Prop where
  injective : Function.Injective g.id
  unused : ∀ f ∈ st.files, ∀ i, f.vaultId ≠ g.id i

/-! ## What a restore leaves -/

section
variable {g : Generated} {st : Store}

theorem Store.vaults_createVault {newVaultId : String} (h : newVaultId ∉ st.vaultIds)
    (name now : String) :
    (st.createVault newVaultId name now).vaults = st.vaults ++ [newVault newVaultId name now] := by
  have hold : st.vaultIds.filterMap (st.setVault newVaultId (some (newVault newVaultId name now)))
      = st.vaults := by
    refine List.filterMap_congr fun id hid => if_neg ?_
    rintro rfl
    exact h hid
  have hnew : st.setVault newVaultId (some (newVault newVaultId name now)) newVaultId
      = some (newVault newVaultId name now) := if_pos rfl
  rw [vaults, createVault, List.filterMap_append, hold]
  simp only [List.filterMap_cons, hnew, List.filterMap_nil]

theorem vaults_createVaults (hg : Function.Injective g.id) (vs : List VaultInfo) {i : Nat}
    (h : ∀ j, i ≤ j → g.id j ∉ st.vaultIds) :
    (createVaults g i vs st).vaults
      = st.vaults ++ (vs.zipIdx i).map fun p => Store.newVault (g.id p.2) p.1.name (g.now p.2) := by
  induction vs generalizing i st with
  | nil => rw [createVaults, List.zipIdx_nil, List.map_nil, List.append_nil]
  | cons v vs ih =>
    have hnext : ∀ j, i + 1 ≤ j →
        g.id j ∉ (st.createVault (g.id i) v.name (g.now i)).vaultIds := by
      intro j hj hmem
      rcases List.mem_append.mp hmem with hmem | hmem
      · exact h j (by omega) hmem
      · have heq := hg (List.mem_singleton.mp hmem)
        omega
    rw [createVaults, ih hnext, Store.vaults_createVault (h i (Nat.le_refl i)),
      List.zipIdx_cons, List.map_cons, List.append_assoc, List.singleton_append]

theorem createVaults_other (vs : List VaultInfo) (i : Nat) {id : String} (h : ∀ j, id ≠ g.id j) :
    (createVaults g i vs st).vaultsById id = st.vaultsById id := by
  induction vs generalizing i st with
  | nil => rfl
  | cons v vs ih =>
    rw [createVaults, ih (i + 1)]
    exact if_neg (h i)

theorem files_createVaults (vs : List VaultInfo) (i : Nat) :
    (createVaults g i vs st).files = st.files := by
  induction vs generalizing i st with
  | nil => rfl
  | cons v vs ih => rw [createVaults, ih (i + 1)]; rfl

/-- Files whose vault is not there are added and change nothing else. -/
theorem addFiles_eq (files : List FileInfo) (i : Nat)
    (h : ∀ f ∈ files, st.vaultsById f.vaultId = none) :
    addFiles g i files st = { st with files := st.files ++ files } := by
  induction files generalizing i st with
  | nil => rw [addFiles, List.append_nil]
  | cons f files ih =>
    have hadd : st.addFile f (g.now i) = { st with files := st.files ++ [f] } := by
      rw [Store.addFile, h f List.mem_cons_self]
    have hrest : addFiles g (i + 1) files { st with files := st.files ++ [f] }
        = { st with files := st.files ++ [f] ++ files } :=
      ih (i + 1) fun f' hf' => h f' (List.mem_cons_of_mem _ hf')
    rw [addFiles, hadd, hrest, List.append_assoc, List.singleton_append]

/-- **What is restored into emptied stores**: a new vault for each vault, and
the files as they are. -/
theorem restoreFromBackup_emptied (hg : Function.Injective g.id) {backup : BackupData}
    (hfiles : ∀ f ∈ backup.files, ∀ i, f.vaultId ≠ g.id i) (settings : List (String × Data))
    (mergeExisting : Bool) :
    (restoreFromBackup g backup (.emptied settings) mergeExisting).1.vaults
        = backup.vaults.zipIdx.map (fun p => Store.newVault (g.id p.2) p.1.name (g.now p.2))
      ∧ (restoreFromBackup g backup (.emptied settings) mergeExisting).1.files = backup.files := by
  have hcleared : (if mergeExisting then Store.emptied settings
      else (Store.emptied settings).vaults.foldl (fun st vault => st.deleteVault vault.id)
        (Store.emptied settings)) = Store.emptied settings := by
    split <;> rfl
  have hcreated : (createVaults g 0 backup.vaults (.emptied settings)).vaults
      = backup.vaults.zipIdx.map fun p => Store.newVault (g.id p.2) p.1.name (g.now p.2) :=
    vaults_createVaults hg backup.vaults fun j _ => List.not_mem_nil
  -- no file has a vault among the new ones, so that adding it changes no vault
  have hnone : ∀ f ∈ backup.files,
      (createVaults g 0 backup.vaults (.emptied settings)).vaultsById f.vaultId = none :=
    fun f hf => createVaults_other backup.vaults 0 (hfiles f hf)
  simp only [restoreFromBackup, hcleared, addFiles_eq _ _ hnone]
  exact ⟨hcreated, congrArg (· ++ backup.files) (files_createVaults backup.vaults 0)⟩

end

theorem backupAndRestore_eq (C : WebCrypto) (g : Generated) (o : Options) (st : Store) :
    backupAndRestore C g o st
      = some (restoreFromBackup g (createBackup o st.settings st.vaults st.files).copied
          (.emptied st.settings) o.mergeExisting).1 := by
  rw [backupAndRestore, importBackup_exportBackup, restoreImported, BackupData.ofData_members,
    Option.map_some]

/-! ## When a restore is complete -/

section
variable {g : Generated} {st after : Store}

/-- The vaults and files a backup of `st` leaves in emptied stores. -/
structure Restored (g : Generated) (st after : Store) : Prop where
  vaults_eq : after.vaults
    = st.vaults.zipIdx.map fun p => Store.newVault (g.id p.2) p.1.name (g.now p.2)
  files_eq : after.files = st.files.map FileInfo.copied

theorem backupAndRestore_restored (C : WebCrypto) (o : Options) (hg : g.Fresh st) :
    ∃ after, backupAndRestore C g o st = some after ∧ Restored g st after := by
  have hunused : ∀ f ∈ (createBackup o st.settings st.vaults st.files).copied.files, ∀ i,
      f.vaultId ≠ g.id i := by
    intro f hf
    obtain ⟨f', hf', rfl⟩ := List.mem_map.mp hf
    exact hg.unused f' hf'
  obtain ⟨hvaults, hfiles⟩ := restoreFromBackup_emptied hg.injective hunused st.settings
    o.mergeExisting
  exact ⟨_, backupAndRestore_eq C g o st, hvaults, hfiles⟩

theorem Restored.bare (h : Restored g st after) (hg : g.Fresh st) : Bare after := by
  intro v hv
  rw [h.vaults_eq] at hv
  obtain ⟨p, _, rfl⟩ := List.mem_map.mp hv
  refine ⟨rfl, rfl, List.filter_eq_nil_iff.mpr fun f hf => ?_⟩
  rw [h.files_eq] at hf
  obtain ⟨f', hf', rfl⟩ := List.mem_map.mp hf
  have hunused := hg.unused f' hf' p.2
  exact fun hvault => hunused (of_decide_eq_true hvault)

theorem Restored.bare_of_complete (h : Restored g st after) (hg : g.Fresh st)
    (hcomplete : Complete st after) : Bare st := by
  obtain ⟨restored, hvaults, _, _⟩ := hcomplete
  intro v hv
  obtain ⟨hmem, _, hmek, hsalt, hfiles⟩ := hvaults v hv
  obtain ⟨hnoMek, hnoSalt, hnoFiles⟩ := h.bare hg (restored v) hmem
  rw [hnoFiles, List.map_nil] at hfiles
  exact ⟨hmek.symm.trans hnoMek, hsalt.symm.trans hnoSalt,
    List.map_eq_nil_iff.mp hfiles.nil_eq.symm⟩

theorem Restored.complete_of_bare (h : Restored g st after) (hg : g.Fresh st) (hbare : Bare st) :
    Complete st after := by
  -- a vault is restored under the id that its place in the list numbers
  have hplace : ∀ v ∈ st.vaults, ∃ j, st.vaults[j]? = some v :=
    fun v hv => List.mem_iff_getElem?.mp hv
  choose! place hplace using hplace
  have hmem : ∀ v ∈ st.vaults,
      Store.newVault (g.id (place v)) v.name (g.now (place v)) ∈ after.vaults := by
    intro v hv
    rw [h.vaults_eq]
    exact List.mem_map.mpr ⟨(v, place v), List.mem_zipIdx_iff_getElem?.mpr (hplace v hv), rfl⟩
  refine ⟨fun v => Store.newVault (g.id (place v)) v.name (g.now (place v)), ?_, ?_, ?_⟩
  · intro v hv
    obtain ⟨hmek, hsalt, hfiles⟩ := hbare v hv
    have hnone := (h.bare hg _ (hmem v hv)).2.2
    refine ⟨hmem v hv, rfl, hmek.symm, hsalt.symm, ?_⟩
    rw [hfiles, hnone]
  · intro v hv w hw hid
    have hplaces : place v = place w := hg.injective hid
    have hv' := hplace v hv
    rw [hplaces, hplace w hw] at hv'
    exact (Option.some.inj hv').symm
  · intro f hf
    refine ⟨f.copied, ?_, rfl⟩
    rw [h.files_eq]
    exact List.mem_map_of_mem hf

end

/-- **A restore is complete for vaults without key material and files**, and
for no others. -/
theorem complete_iff_bare (C : WebCrypto) (o : Options) {g : Generated} {st : Store}
    (hg : g.Fresh st) :
    (∃ after, backupAndRestore C g o st = some after ∧ Complete st after) ↔ Bare st := by
  obtain ⟨after, hafter, hrestored⟩ := backupAndRestore_restored C o hg
  constructor
  · rintro ⟨after', hafter', hcomplete⟩
    rw [hafter] at hafter'
    cases hafter'
    exact hrestored.bare_of_complete hg hcomplete
  · intro hbare
    exact ⟨after, hafter, hrestored.complete_of_bare hg hbare⟩

/-- Ids that differ in length. -/
def lengths : Generated where
  id i := String.ofList ('v' :: '-' :: List.replicate (i + 1) '1')
  now _ := "2026-02-01T00:00:00.000Z"

theorem length_lengths (i : Nat) : (lengths.id i).length = i + 3 := by
  rw [lengths, String.length_ofList, List.length_cons, List.length_cons, List.length_replicate]

theorem lengths_injective : Function.Injective lengths.id := by
  intro i j h
  have hlength := congrArg String.length h
  rw [length_lengths, length_lengths] at hlength
  omega

/-- No encryption at all. -/
def plainCrypto : WebCrypto where
  deriveBits _ _ _ := zeroVec 32
  encrypt _ _ data := data
  decrypt _ _ data := some data
  decrypt_encrypt _ _ _ := rfl

/-- An export without a key. -/
def withoutKey : Options where
  encryptionKey := none
  includePasswords := false
  mergeExisting := false
  salt := zeroVec 16
  iv := zeroVec 12
  id := "backup-1"
  createdAt := "2026-01-31T00:00:00.000Z"

/-- A store with one vault, and these files. -/
def oneVault (v : VaultInfo) (files : List FileInfo) : Store where
  vaultIds := [v.id]
  vaultsById id := if id = v.id then some v else none
  files := files
  settings := []

theorem vaults_oneVault (v : VaultInfo) (files : List FileInfo) :
    (oneVault v files).vaults = [v] := by
  simp [oneVault, Store.vaults]

def workVault : VaultInfo :=
  { Store.newVault "v1" "Work" "2026-01-01T00:00:00.000Z" with
    fileCount := 1
    wrappedMekB64 := some "d3JhcHBlZA=="
    kekSaltHex := some "1f1f" }

def notes : FileInfo where
  id := "f1"
  vaultId := "v1"
  name := "notes.txt"
  size := 3
  type := "text/plain"
  modifiedAt := "2026-01-01T00:00:00.000Z"
  encryptedMetadata := "AAAA"
  isPQCProtected := false
  uri := none
  encryptedBlob := some (.uint8Array [1, 2, 3])
  saltHex := none
  cipherId := none
  isStreamed := none
  originalSize := none
  version := none

theorem complete_iff_bare_emptyVault :
    ∃ after, backupAndRestore plainCrypto lengths withoutKey
        (oneVault (Store.newVault "v1" "Work" "2026-01-01T00:00:00.000Z") []) = some after
      ∧ Complete (oneVault (Store.newVault "v1" "Work" "2026-01-01T00:00:00.000Z") []) after := by
  refine (complete_iff_bare plainCrypto withoutKey ⟨lengths_injective, fun f hf => ?_⟩).mpr ?_
  · cases hf
  · intro v hv
    rw [vaults_oneVault] at hv
    rw [List.mem_singleton.mp hv]
    exact ⟨rfl, rfl, rfl⟩

/-- One vault with one file. -/
theorem not_complete_workVault :
    ¬∃ after,
      backupAndRestore plainCrypto lengths withoutKey (oneVault workVault [notes]) = some after
      ∧ Complete (oneVault workVault [notes]) after := by
  rintro ⟨after, hafter, hcomplete⟩
  have hfresh : lengths.Fresh (oneVault workVault [notes]) := by
    refine ⟨lengths_injective, fun f hf i heq => ?_⟩
    rw [List.mem_singleton.mp hf] at heq
    have hlength := congrArg String.length heq
    have hshort : notes.vaultId.length = 2 := by decide
    rw [length_lengths, hshort] at hlength
    omega
  obtain ⟨after', hafter', hrestored⟩ := backupAndRestore_restored plainCrypto withoutKey hfresh
  rw [hafter] at hafter'
  cases hafter'
  have hmem : workVault ∈ (oneVault workVault [notes]).vaults := by
    rw [vaults_oneVault]
    exact List.mem_singleton_self _
  have hbare := hrestored.bare_of_complete hfresh hcomplete workVault hmem
  cases hbare.1

end UsbVault.App.Backup
