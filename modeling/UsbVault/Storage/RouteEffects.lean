import UsbVault.Storage.RotationStates
import UsbVault.Storage.Routes

/-!
# Route effects

When a request to a vault is refused and leaves the vault's rows and objects
as they were (`Inert`), handler by handler. Those that look at `deleted_at`
always do where the vault is deleted; the others do when something else stops
them, and for each of them this is exact.
-/

namespace UsbVault.Rotation

open Tables

variable {s : Store} {userID : UserID} {vaultID v : VaultID}

/-- The statements of a rotation go through. -/
def Store.CanRotate (s : Store) (userID : UserID) (vaultID : VaultID) (o : InitiateOutcome) :
    Prop :=
  o.failing = none ∧ s.existing vaultID = none ∧ o.totalFiles ≤ 2147483647
    ∧ o.jobID ∉ s.jobs.map (·.id)
    ∧ ∃ row ∈ s.vaults vaultID, row.deleted = false ∧ row.ownerID = userID

instance (o : InitiateOutcome) : Decidable (s.CanRotate userID vaultID o) :=
  inferInstanceAs (Decidable (_ ∧ _ ∧ _ ∧ _ ∧ ∃ row ∈ s.vaults vaultID, _))

theorem isOk_ok {ε α : Type} {a : α} : (Except.ok a : Except ε α).isOk = true := rfl

theorem not_isOk_error {ε α : Type} {e : ε} : ¬(Except.error e : Except ε α).isOk = true := by
  rintro ⟨⟩

/-- **A rotation is started** just when its statements go through. -/
theorem initiate_ok {o : InitiateOutcome} :
    (initiateKeyRotation s userID vaultID o).2.isOk = true ↔ s.CanRotate userID vaultID o := by
  unfold initiateKeyRotation
  split
  · next hfail => exact iff_of_false not_isOk_error fun h => by simp [h.1] at hfail
  next hbegin =>
  split
  · next hfail => exact iff_of_false not_isOk_error fun h => by simp [h.1] at hfail
  next howner =>
  split
  · next hrow =>
      refine iff_of_false not_isOk_error ?_
      rintro ⟨-, -, -, -, row, hmem, -⟩
      rw [hrow] at hmem
      cases hmem
  next row hrow =>
    split
    · next hdeleted =>
        refine iff_of_false not_isOk_error ?_
        rintro ⟨-, -, -, -, row', hmem, hlive, -⟩
        rw [hrow, Option.mem_some_iff] at hmem
        simp [hmem, hlive] at hdeleted
    next hlive =>
      split
      · next hother =>
          refine iff_of_false not_isOk_error ?_
          rintro ⟨-, -, -, -, row', hmem, -, howner⟩
          rw [hrow, Option.mem_some_iff] at hmem
          simp [hmem, howner] at hother
      next hother =>
        split
        · next hexisting =>
            refine iff_of_false not_isOk_error ?_
            rintro ⟨-, hnone, -⟩
            simp [hnone] at hexisting
        next hexisting =>
          split
          · next hfail => exact iff_of_false not_isOk_error fun h => by simp [h.1] at hfail
          next hselected =>
          split
          · next hcount =>
              refine iff_of_false not_isOk_error ?_
              rintro ⟨hnone, -, hfits, -⟩
              simp [hnone] at hcount
              omega
          next hcount =>
            split
            · next hid => exact iff_of_false not_isOk_error fun h => h.2.2.2.1 hid
            next hid =>
              split
              · next hfail => exact iff_of_false not_isOk_error fun h => by simp [h.1] at hfail
              next hmark =>
              dsimp only
              split
              · next hfail => exact iff_of_false not_isOk_error fun h => by simp [h.1] at hfail
              next hfail =>
                have hnone : o.failing = none := by
                  cases hf : o.failing with
                  | none => rfl
                  | some statement => cases statement <;> simp_all
                refine iff_of_true isOk_ok ⟨hnone, ?_, by omega, hid, row, hrow, ?_, ?_⟩
                · simpa [hnone] using hexisting
                · simpa using hlive
                · simpa using hother

theorem initiate_deleted {o : InitiateOutcome} {row : VaultRow} (h : s.vaults vaultID = some row)
    (hdeleted : row.deleted = true) : (initiateKeyRotation s userID vaultID o).1 = s := by
  unfold initiateKeyRotation
  split
  · rfl
  split
  · rfl
  split
  · rfl
  next row' hrow =>
    rw [h] at hrow
    cases hrow
    rw [if_pos hdeleted]

theorem initiate_frame {s' : Store} {o : InitiateOutcome} {r : Except String JobID}
    (h : initiateKeyRotation s userID vaultID o = (s', r)) (hv : v ≠ vaultID) :
    s'.vaults v = s.vaults v ∧
      s'.jobs.filter (·.vaultID = v) = s.jobs.filter (·.vaultID = v) := by
  rcases initiate_cases h with rfl | ⟨job, hid, hvault, hjob, -, -, rfl⟩
  · exact ⟨rfl, rfl⟩
  · constructor
    · simp [Store.setRotationStatus, Store.insertJob, hv]
    · simp [Store.setRotationStatus, Store.insertJob, hjob, Ne.symm hv]

end UsbVault.Rotation

namespace UsbVault.Storage.Routes

open Members Tables
open Rotation (JobID JobRow not_isOk_error isOk_ok)

variable {s : Server} {userID : UserID} {vaultID v : VaultID} {role : Bool}

/-! ## A vault's rows and objects -/

/-- The row of a tracked upload, if it is one of the vault's. The parts are
not of it: the cache has a part before its table does. -/
def uploadRow (v : VaultID) (upload : Option MultipartUpload) : Option MultipartUpload :=
  (upload.filter (·.vaultID = v)).map ({ · with completeParts := [] })

def objectsIn (b : Bucket StoredObject) (v : VaultID) : Bucket StoredObject :=
  fun key => if key.vaultID = v then b key else none

/-- The rows of a vault, and what is stored of it. -/
@[ext]
structure VaultData where
  row : Option Rotation.VaultRow
  columns : VaultColumns
  members : UserID → Option Role
  grantedAt : UserID → Nat
  blobs : List BlobRow
  jobs : List JobRow
  uploads : UploadID → Option MultipartUpload
  objects : Bucket StoredObject

def Server.vaultData (s : Server) (v : VaultID) : VaultData where
  row := s.rotation.vaults v
  columns := s.columns v
  members := s.members v
  grantedAt := s.grantedAt v
  blobs := s.blobs.filter (·.vaultID = v)
  jobs := s.rotation.jobs.filter (·.vaultID = v)
  uploads := fun uploadID => uploadRow v (s.uploads uploadID)
  objects := objectsIn s.objects v

/-- A result that refuses, with the vault's data as they were. -/
def Inert {α : Type} (v : VaultID) (s : Server) (result : Server × Except Refusal α) : Prop :=
  ¬result.2.isOk = true ∧ result.1.vaultData v = s.vaultData v

def Server.Deleted (s : Server) (v : VaultID) : Prop :=
  ∃ row ∈ s.rotation.vaults v, row.deleted = true

section

variable {α : Type}

theorem inert_error {refusal : Refusal} : Inert v s (s, (.error refusal : Except Refusal α)) :=
  ⟨not_isOk_error, rfl⟩

theorem not_inert_ok {next : Server} {a : α} : ¬Inert v s (next, .ok a) :=
  fun h => h.1 isOk_ok

theorem isOk_map {β : Type} {f : α → β} {result : Except Refusal α} :
    (result.map f).isOk = result.isOk := by
  cases result <;> rfl

/-- The permission that the router asks for is there. -/
def May (s : Server) (userID : UserID) (vaultID : VaultID) (role : Bool) (perm : Permission) :
    Prop :=
  role = true ∧ checkPermission (s.members vaultID userID) perm = true

instance {perm : Permission} : Decidable (May s userID vaultID role perm) :=
  inferInstanceAs (Decidable (_ ∧ _))

/-- **The middleware** stops a request, or its handler counts. -/
theorem inert_permitted {perm : Permission} {handler : Server × Except Refusal α} :
    Inert v s (s.permitted userID vaultID role perm handler) ↔
      (May s userID vaultID role perm → Inert v s handler) := by
  unfold Server.permitted
  split
  · next refusal hperm =>
      refine iff_of_true inert_error ?_
      intro hmay
      rw [requireVaultPermission_ok.mpr hmay] at hperm
      cases hperm
  · next hperm =>
      have hmay : May s userID vaultID role perm := requireVaultPermission_ok.mp hperm
      rw [imp_iff_right hmay, Inert, Inert, isOk_map]

end

/-! ## What a deleted vault refuses -/

theorem Server.Deleted.vaultAccess (h : s.Deleted v) : s.service.vaultAccess v userID = false := by
  obtain ⟨row, hrow, hdeleted⟩ := h
  rw [Option.mem_def] at hrow
  simp [Service.vaultAccess, Server.service, hrow, hdeleted]

theorem Server.Deleted.ownsLive (h : s.Deleted v) : s.ownsLive userID v = false := by
  obtain ⟨row, hrow, hdeleted⟩ := h
  rw [Option.mem_def] at hrow
  simp [Server.ownsLive, hrow, hdeleted]

theorem Server.Deleted.liveOwner (h : s.Deleted v) : s.liveOwner v = none := by
  obtain ⟨row, hrow, hdeleted⟩ := h
  rw [Option.mem_def] at hrow
  simp [Server.liveOwner, hrow, hdeleted]

theorem Server.Deleted.getVault (h : s.Deleted v) {row : Bool} :
    Inert v s (s, s.getVault userID v row) := by
  rw [Server.getVault, h.vaultAccess, Bool.and_false]
  exact inert_error

theorem Server.Deleted.deleteVault (h : s.Deleted v) {update : Execution} :
    Inert v s (s.deleteVault userID v update) := by
  simp only [Server.deleteVault, h.ownsLive, Bool.false_eq_true, and_false, if_false]
  exact inert_error

theorem Server.Deleted.storeKeyHierarchy (h : s.Deleted v) {req : Server.StoreKeyHierarchyRequest}
    {o : Server.StoreOutcome} : Inert v s (s.storeKeyHierarchy userID v req o) := by
  unfold Server.storeKeyHierarchy
  rw [h.liveOwner, ite_self]
  split <;> exact inert_error

theorem Server.Deleted.getKeyHierarchy (h : s.Deleted v) {row : Bool} :
    Inert v s (s, s.getKeyHierarchy userID v row) := by
  unfold Server.getKeyHierarchy
  rw [h.liveOwner, ite_self]
  exact inert_error

theorem Server.Deleted.generateDownloadURL (h : s.Deleted v) {blobID : BlobID}
    {o : Server.DownloadOutcome} : Inert v s (s, s.generateDownloadURL userID v blobID o) := by
  simp only [Server.generateDownloadURL, h.vaultAccess, Bool.and_false, Bool.not_false, if_true]
  exact inert_error

theorem Server.Deleted.generateUploadURL (h : s.Deleted v) {blobID : BlobID} {fileSize : Int}
    {contentType : String} {o : Service.UrlOutcome} :
    Inert v s (s.stored (s.service.generateUploadURL userID v blobID fileSize contentType o)) := by
  have hcheck : ∃ refusal, s.service.checkUpload userID v fileSize contentType o = .error refusal := by
    unfold Service.checkUpload
    rw [h.vaultAccess, Bool.and_false, Bool.not_false, if_pos rfl]
    split <;> exact ⟨_, rfl⟩
  obtain ⟨refusal, hrefusal⟩ := hcheck
  unfold Service.generateUploadURL
  rw [hrefusal]
  split <;> exact ⟨not_isOk_error, rfl⟩

/-! ## What is not refused for the deletion -/

theorem objectsIn_update {b : Bucket StoredObject} {key : ObjectKey} {content : Option StoredObject} :
    objectsIn (Function.update b key content) v = objectsIn b v ↔
      (key.vaultID = v → b key = content) := by
  constructor
  · intro h hv
    have hkey := congrFun h key
    simp only [objectsIn, if_pos hv, Function.update_self] at hkey
    exact hkey.symm
  · intro h
    funext key'
    by_cases hkey : key' = key
    · subst hkey
      by_cases hv : key'.vaultID = v
      · simp only [objectsIn, if_pos hv, Function.update_self, h hv]
      · simp only [objectsIn, if_neg hv]
    · simp only [objectsIn, Function.update_of_ne hkey]

/-- The data are the same when the objects and the tracked uploads are. -/
theorem withService_data {next : Service} :
    (s.withService next).vaultData v = s.vaultData v ↔
      objectsIn next.objects v = objectsIn s.objects v ∧
        ∀ uploadID, uploadRow v (next.uploads uploadID) = uploadRow v (s.uploads uploadID) := by
  constructor
  · intro h
    exact ⟨congrArg VaultData.objects h, congrFun (congrArg VaultData.uploads h)⟩
  · rintro ⟨hobjects, huploads⟩
    ext1
    case uploads => exact funext huploads
    case objects => exact hobjects
    all_goals rfl

section

variable {α : Type}

/-- A storage request that refuses, with the vault's objects and tracked
uploads as they were. -/
def InertStored (v : VaultID) (s : Server) (result : Service × Except Refusal α) : Prop :=
  ¬result.2.isOk = true ∧ objectsIn result.1.objects v = objectsIn s.objects v ∧
    ∀ uploadID, uploadRow v (result.1.uploads uploadID) = uploadRow v (s.uploads uploadID)

theorem inertStored_error {refusal : Refusal} :
    InertStored v s (s.service, (.error refusal : Except Refusal α)) :=
  ⟨not_isOk_error, rfl, fun _ => rfl⟩

theorem not_inertStored_ok {next : Service} {a : α} : ¬InertStored v s (next, .ok a) :=
  fun h => h.1 isOk_ok

theorem inert_stored {perm : Permission} {body : Service × Except Refusal α}
    (result : Service × Except Refusal α)
    (h : result = match requireVaultPermission role (s.service.members vaultID userID) perm with
      | .error refusal => (s.service, .error refusal)
      | .ok () => body) :
    Inert v s (s.stored result) ↔ (May s userID vaultID role perm → InertStored v s body) := by
  subst h
  rw [Inert, Server.stored, isOk_map, withService_data]
  split
  · next refusal hperm =>
      refine iff_of_true inertStored_error ?_
      intro hmay
      have hok := requireVaultPermission_ok.mpr hmay
      rw [Server.service_members, hok] at hperm
      cases hperm
  · next hperm =>
      have hmay : May s userID vaultID role perm := requireVaultPermission_ok.mp hperm
      rw [imp_iff_right hmay, InertStored]

end

theorem updateColumns_data {f : VaultColumns → VaultColumns} :
    (s.updateColumns v f).vaultData v ≠ s.vaultData v := by
  intro h
  have hupdated := congrArg (·.columns.updatedAt) h
  simp [Server.vaultData, Server.updateColumns] at hupdated

theorem updateVault_inert {metadata : Option (List UInt8)} {update : Execution} :
    Inert v s (s.updateVault userID v metadata update) ↔
      (update.Took → s.owns userID v = true →
        ∀ bytes ∈ metadata, bytes.length > Server.maxMetadataSize) := by
  unfold Server.updateVault
  cases metadata with
  | none => exact iff_of_true inert_error (by simp)
  | some bytes =>
    dsimp only
    split
    · next hsize => exact iff_of_true inert_error (by simpa using fun _ _ => hsize)
    next hsize =>
    split
    · next hupdated =>
        refine iff_of_false (fun h => updateColumns_data h.2) ?_
        intro h
        exact hsize (h hupdated.1 hupdated.2 bytes rfl)
    · next hnot => exact iff_of_true inert_error fun htook howns => absurd ⟨htook, howns⟩ hnot

theorem confirm_inert {blobID : BlobID} {o : Service.ConfirmOutcome} :
    Inert v s (s.stored (s.service.confirmUpload userID v blobID o)) ↔
      (May s userID v o.role .update → o.head = true → ∀ object ∈ s.objects (.blob v blobID),
        object.size > o.billing.maxFileSize ∧ ¬o.delete.Took) := by
  rw [inert_stored (s.service.confirmUpload userID v blobID o) rfl]
  refine imp_congr_right fun _ => ?_
  by_cases hhead : o.head = true
  case neg =>
    rw [if_neg hhead]
    exact iff_of_true inertStored_error fun h => absurd h hhead
  rw [if_pos hhead, imp_iff_right hhead, Server.service_objects]
  cases hobject : s.objects (.blob v blobID) with
  | none => exact iff_of_true inertStored_error (by simp)
  | some object =>
    simp only [Option.mem_some_iff, forall_eq']
    by_cases hsize : object.size > o.billing.maxFileSize
    case neg =>
      rw [if_neg hsize]
      exact iff_of_false not_inertStored_ok fun h => hsize h.1
    rw [if_pos hsize, and_iff_right hsize]
    by_cases htook : o.delete.Took
    · rw [if_pos htook]
      -- the object is there, and is deleted
      refine iff_of_false (fun h => ?_) (not_not_intro htook)
      have hsame := (objectsIn_update.mp h.2.1) rfl
      rw [hobject] at hsame
      cases hsame
    · rw [if_neg htook]
      exact iff_of_true inertStored_error htook

theorem inert_listed {α : Type} {listed : Bool} {answer : α} {refusal : Refusal} :
    Inert v s (s, if listed then .ok answer else .error refusal) ↔ listed = false := by
  cases listed
  · exact iff_of_true inert_error rfl
  · exact iff_of_false not_inert_ok (by simp)

/-- A row of the blob in the vault. -/
def Server.HasBlob (s : Server) (vaultID : VaultID) (blobID : BlobID) : Prop :=
  ∃ row ∈ s.blobs, row.id = blobID ∧ row.vaultID = vaultID

instance (s : Server) (vaultID : VaultID) (blobID : BlobID) : Decidable (s.HasBlob vaultID blobID) :=
  inferInstanceAs (Decidable (∃ row ∈ s.blobs, _))

theorem softDeleteBlob_filter {blobID : BlobID} :
    (s.softDeleteBlob v blobID).filter (·.vaultID = v) = s.blobs.filter (·.vaultID = v) ↔
      ¬s.HasBlob v blobID := by
  let mark : BlobRow → BlobRow := fun row =>
    if row.id = blobID ∧ row.vaultID = v then { row with deletedAt := row.deletedAt + 1 } else row
  have hvault : ∀ row, (mark row).vaultID = row.vaultID := by
    intro row
    dsimp only [mark]
    split <;> rfl
  have hfilter : (s.softDeleteBlob v blobID).filter (·.vaultID = v)
      = (s.blobs.filter (·.vaultID = v)).map mark := by
    rw [Server.softDeleteBlob, List.filter_map]
    simp [Function.comp_def, hvault, mark]
  have hsame : ∀ row, mark row = row ↔ ¬(row.id = blobID ∧ row.vaultID = v) := by
    intro row
    dsimp only [mark]
    split
    · next hrow =>
        refine iff_of_false (fun h => ?_) (not_not_intro hrow)
        have hdeleted := congrArg BlobRow.deletedAt h
        simp at hdeleted
    · next hrow => exact iff_of_true rfl hrow
  rw [hfilter]
  constructor
  · rintro h ⟨row, hmem, hid, hv⟩
    rw [← List.map_id (s.blobs.filter (·.vaultID = v)), List.map_map, List.map_inj_left] at h
    have hrow := h row (by simp [hmem, hv])
    exact (hsame row).mp hrow ⟨hid, hv⟩
  · intro h
    rw [← List.map_id (s.blobs.filter (·.vaultID = v)), List.map_map, List.map_inj_left]
    intro row hmem
    have hin := (List.mem_filter.mp hmem).1
    exact (hsame row).mpr fun hrow => h ⟨row, hin, hrow⟩

theorem deleteBlob_inert {blobID : BlobID} {o : Service.DeleteOutcome}
    (hmay : May s userID v o.role .delete) :
    Inert v s (s.deleteBlob userID v blobID o) ↔
      o.row = .failed ∨ o.row = .unacknowledged ∧ ¬s.HasBlob v blobID := by
  have hperm : requireVaultPermission o.role (s.service.members v userID) .delete = .ok () :=
    requireVaultPermission_ok.mpr hmay
  unfold Server.deleteBlob Service.deleteBlob
  rw [hperm]
  cases hrow : o.row with
  | done => exact iff_of_false (fun h => h.1 isOk_ok) (by simp)
  | failed => exact iff_of_true ⟨not_isOk_error, rfl⟩ (.inl rfl)
  | unacknowledged =>
    have hdata : (({ s with blobs := s.softDeleteBlob v blobID } : Server).vaultData v
        = s.vaultData v) ↔ ¬s.HasBlob v blobID := by
      rw [← softDeleteBlob_filter]
      constructor
      · exact congrArg VaultData.blobs
      · intro h
        ext1
        case blobs => exact h
        all_goals rfl
    simp only [reduceCtorEq, true_and, false_or]
    rw [← hdata]
    exact and_iff_right not_isOk_error

theorem loadUpload_some {uploadID : UploadID} {found : Bool} {upload : MultipartUpload}
    (h : s.service.loadUpload userID vaultID uploadID found = some upload) :
    s.uploads uploadID = some upload ∧ upload.vaultID = vaultID := by
  unfold Service.loadUpload at h
  split at h
  · obtain ⟨hupload, hown⟩ := Option.filter_eq_some_iff.mp h
    simp only [decide_eq_true_eq] at hown
    exact ⟨hupload, hown.2⟩
  · cases h

theorem initiate_inert {fileID : BlobID} {totalSize : Int} {o : Service.InitiateOutcome} :
    Inert v s (s.stored (s.service.initiateUpload userID v fileID totalSize o)) ↔
      (May s userID v o.role .update → 0 < totalSize → totalSize ≤ o.billing.maxFileSize →
        ∀ uploadID ∈ o.uploadID, o.insert = true → (s.uploads uploadID).isSome) := by
  rw [inert_stored (s.service.initiateUpload userID v fileID totalSize o) rfl]
  refine imp_congr_right fun _ => ?_
  split
  · next hsize => exact iff_of_true inertStored_error fun h => by omega
  next hsize =>
  split
  · next hlimit => exact iff_of_true inertStored_error fun _ h => by omega
  next hlimit =>
  rw [imp_iff_right (by omega), imp_iff_right (by omega)]
  cases o.uploadID with
  | none => exact iff_of_true inertStored_error (by simp)
  | some uploadID =>
    simp only [Option.mem_some_iff, forall_eq']
    split
    · next htracked =>
        refine iff_of_false not_inertStored_ok fun h => ?_
        have hnone := htracked.2
        rw [Server.service_uploads, ← Option.not_isSome, h htracked.1] at hnone
        cases hnone
    · next hnot =>
        refine iff_of_true inertStored_error fun hinsert => ?_
        by_contra hnone
        refine hnot ⟨hinsert, ?_⟩
        rw [Server.service_uploads, ← Option.not_isSome]
        simpa using hnone

theorem partURL_inert {uploadID : UploadID} {partNumber : Int} {found presign : Bool} :
    Inert v s (s, s.generatePresignedPartURL userID v uploadID partNumber found presign) ↔
      (1 ≤ partNumber → partNumber ≤ Service.maxParts →
        (s.service.loadUpload userID v uploadID found).isSome → presign = false) := by
  unfold Server.generatePresignedPartURL
  split
  · next hnumber => exact iff_of_true inert_error fun h h' => by omega
  next hnumber =>
  rw [imp_iff_right (by omega), imp_iff_right (by omega)]
  cases s.service.loadUpload userID v uploadID found with
  | none => exact iff_of_true inert_error (by simp)
  | some upload =>
    cases presign
    · exact iff_of_true inert_error (by simp)
    · exact iff_of_false not_inert_ok (by simp)

theorem progress_inert {uploadID : UploadID} {found : Bool} :
    Inert v s (s, s.getUploadProgress userID v uploadID found) ↔
      s.service.loadUpload userID v uploadID found = none := by
  unfold Server.getUploadProgress
  cases s.service.loadUpload userID v uploadID found with
  | none => exact iff_of_true inert_error rfl
  | some upload => exact iff_of_false not_inert_ok (by simp)

theorem uploadRow_update {uploads : UploadID → Option MultipartUpload} {uploadID : UploadID}
    {upload : Option MultipartUpload} :
    (∀ id, uploadRow v (Function.update uploads uploadID upload id) = uploadRow v (uploads id)) ↔
      uploadRow v upload = uploadRow v (uploads uploadID) := by
  constructor
  · intro h
    have hid := h uploadID
    rwa [Function.update_self] at hid
  · intro h id
    by_cases hid : id = uploadID
    · rw [hid, Function.update_self, h]
    · rw [Function.update_of_ne hid]

/-- The checks of `HandleCompletePart`. -/
def ValidPart (part : CompletedPart) : Prop :=
  1 ≤ part.partNumber ∧ part.partNumber ≤ Service.maxParts ∧ part.etag ≠ "" ∧ 0 < part.size

instance (part : CompletedPart) : Decidable (ValidPart part) :=
  inferInstanceAs (Decidable (_ ∧ _ ∧ _ ∧ _))

theorem completePart_inert {uploadID : UploadID} {part : CompletedPart} {o : Service.PartOutcome} :
    Inert v s (s.stored (s.service.completePart userID v uploadID part o)) ↔
      (May s userID v o.role .update → ValidPart part →
        (s.service.loadUpload userID v uploadID o.found).isSome → o.upsert = false) := by
  rw [inert_stored (s.service.completePart userID v uploadID part o) rfl]
  refine imp_congr_right fun _ => ?_
  split
  · next hnumber =>
      refine iff_of_true inertStored_error ?_
      rintro ⟨hlow, hhigh, -⟩
      omega
  next hnumber =>
  split
  · next hetag => exact iff_of_true inertStored_error fun h => absurd hetag h.2.2.1
  next hetag =>
  split
  · next hsize =>
      refine iff_of_true inertStored_error ?_
      rintro ⟨-, -, -, hpositive⟩
      omega
  next hsize =>
  have hvalid : ValidPart part := ⟨by omega, by omega, hetag, by omega⟩
  rw [imp_iff_right hvalid]
  cases hload : s.service.loadUpload userID v uploadID o.found with
  | none => exact iff_of_true inertStored_error (by simp)
  | some upload =>
    rw [imp_iff_right Option.isSome_some]
    by_cases hupsert : o.upsert = true
    · simp only [hupsert, if_true]
      exact iff_of_false not_inertStored_ok (by simp)
    · simp only [hupsert]
      refine iff_of_true ⟨not_isOk_error, rfl, ?_⟩ (by simp)
      -- the part is in the cache only
      refine uploadRow_update.mpr ?_
      obtain ⟨hupload, hv⟩ := loadUpload_some hload
      rw [Server.service_uploads, hupload]
      simp [uploadRow, hv, Option.filter]

theorem abort_inert {uploadID : UploadID} {o : Service.AbortOutcome} :
    Inert v s (s.stored (s.service.abortUpload userID v uploadID o)) ↔
      (May s userID v o.role .update →
        (s.service.loadUpload userID v uploadID o.found).isSome → o.abort = false) := by
  rw [inert_stored (s.service.abortUpload userID v uploadID o) rfl]
  refine imp_congr_right fun _ => ?_
  cases s.service.loadUpload userID v uploadID o.found with
  | none => exact iff_of_true inertStored_error (by simp)
  | some upload =>
    rw [imp_iff_right Option.isSome_some]
    by_cases habort : o.abort = true
    · simp only [habort, if_true]
      exact iff_of_false not_inertStored_ok (by simp)
    · simp only [habort]
      exact iff_of_true inertStored_error (by simp)

/-- The object that S3 assembles is removed again. -/
def Rejected (o : Service.FinalizeOutcome) : Prop :=
  o.head = false ∨ o.assembled > o.billing.maxFileSize ∨ Service.overQuota o = true

instance (o : Service.FinalizeOutcome) : Decidable (Rejected o) :=
  inferInstanceAs (Decidable (_ ∨ _ ∨ _))

/-- The completion leaves the key with what it had, and the upload tracked:
S3 does not carry it out, or what it does comes to nothing. -/
def Server.LeavesKey (s : Server) (userID : UserID) (upload : MultipartUpload)
    (o : Service.FinalizeOutcome) : Prop :=
  o.complete = .failed
    ∨ o.complete = .unacknowledged ∧ s.objects upload.key = some ⟨o.assembled, userID⟩
    ∨ o.complete = .done ∧ Rejected o ∧ o.untrack = false ∧
      s.objects upload.key = if o.delete.Took then none else some ⟨o.assembled, userID⟩

instance (s : Server) (userID : UserID) (upload : MultipartUpload) (o : Service.FinalizeOutcome) :
    Decidable (s.LeavesKey userID upload o) :=
  inferInstanceAs (Decidable (_ ∨ _ ∨ _))

theorem deleteFinalObject_inert {next : Service} {upload : MultipartUpload} {uploadID : UploadID}
    {o : Service.FinalizeOutcome} {content : Option StoredObject} {refusal : Refusal}
    (htracked : s.uploads uploadID = some upload) (hv : upload.vaultID = v)
    (huploads : next.uploads = s.uploads)
    (hobjects : next.objects = Function.update s.objects upload.key content) :
    InertStored v s (next.deleteFinalObject upload.key uploadID o,
        (.error refusal : Except Refusal Unit)) ↔
      o.untrack = false ∧ s.objects upload.key = if o.delete.Took then none else content := by
  have hkey : upload.key.vaultID = v := hv
  have hafter : (next.deleteFinalObject upload.key uploadID o).objects
      = Function.update s.objects upload.key (if o.delete.Took then none else content) := by
    unfold Service.deleteFinalObject Service.untracked
    by_cases htook : o.delete.Took <;> cases o.untrack <;>
      simp [htook, hobjects, Bucket.deleteObject]
  have htrack : (∀ id, uploadRow v ((next.deleteFinalObject upload.key uploadID o).uploads id)
      = uploadRow v (s.uploads id)) ↔ o.untrack = false := by
    unfold Service.deleteFinalObject Service.untracked
    cases huntrack : o.untrack
    · by_cases htook : o.delete.Took <;> simp [htook, huploads]
    · have hrow : uploadRow v none ≠ uploadRow v (s.uploads uploadID) := by
        simp [uploadRow, htracked, hv, Option.filter]
      by_cases htook : o.delete.Took <;>
        simp only [htook, if_true, if_false, huploads, uploadRow_update, hrow, reduceCtorEq]
  rw [InertStored, hafter, htrack, objectsIn_update, imp_iff_right hkey]
  exact ⟨fun h => ⟨h.2.2, h.2.1⟩, fun h => ⟨not_isOk_error, h.2, h.1⟩⟩

theorem finalize_inert {uploadID : UploadID} {o : Service.FinalizeOutcome} :
    Inert v s (s.stored (s.service.finalizeUpload userID v uploadID o)) ↔
      (May s userID v o.role .update →
        ∀ upload ∈ s.service.loadUpload userID v uploadID o.found, s.LeavesKey userID upload o) := by
  rw [inert_stored (s.service.finalizeUpload userID v uploadID o) rfl]
  refine imp_congr_right fun _ => ?_
  cases hload : s.service.loadUpload userID v uploadID o.found with
  | none => exact iff_of_true inertStored_error (by simp)
  | some upload =>
    simp only [Option.mem_some_iff, forall_eq']
    obtain ⟨htracked, hv⟩ := loadUpload_some hload
    unfold Server.LeavesKey
    have hkey : upload.key.vaultID = v := hv
    cases hcomplete : o.complete with
    | failed => exact iff_of_true inertStored_error (.inl rfl)
    | unacknowledged =>
      simp only [reduceCtorEq, true_and, false_and, or_false, false_or]
      rw [← imp_iff_right (b := s.objects upload.key = _) hkey, ← objectsIn_update]
      exact ⟨fun h => h.2.1, fun h => ⟨not_isOk_error, h, fun _ => rfl⟩⟩
    | done =>
      simp only [reduceCtorEq, true_and, false_and, false_or]
      let assembled : Service := { s.service with
        objects := s.objects.putObject upload.key ⟨o.assembled, userID⟩ }
      have hremoved : ∀ refusal : Refusal, InertStored v s
          (assembled.deleteFinalObject upload.key uploadID o,
            (.error refusal : Except Refusal Unit)) ↔
          o.untrack = false ∧ s.objects upload.key
            = if o.delete.Took then none else some ⟨o.assembled, userID⟩ :=
        fun refusal => deleteFinalObject_inert htracked hv rfl rfl
      by_cases hhead : o.head = true
      case neg =>
        have hrejected : Rejected o := .inl (by simpa using hhead)
        rw [and_iff_right hrejected]
        simp only [hhead]
        exact hremoved (500, "failed to finalize upload")
      by_cases hsize : o.assembled > o.billing.maxFileSize ∨ Service.overQuota o = true
      · have hrejected : Rejected o := .inr hsize
        rw [and_iff_right hrejected]
        simp only [hhead, hsize, if_true]
        exact hremoved
          (402, "uploaded size exceeds your subscription tier limit; upgrade required")
      · have haccepted : ¬Rejected o := by
          rintro (hfailed | hlimit)
          · simp [hhead] at hfailed
          · exact hsize hlimit
        simp only [hhead, hsize, haccepted, false_and, iff_false]
        exact not_inertStored_ok

theorem addMember_inert {member : UserID} {newRole : String} {o : Server.AssignOutcome} :
    Inert v s (s.addMember userID v member newRole o) ↔
      (o.upsert.Took → ∀ r ∈ Role.ofString? newRole, s.ownerTaken userID v member r o = true) := by
  unfold Server.addMember
  cases Role.ofString? newRole with
  | none => exact iff_of_true inert_error (by simp)
  | some r =>
    simp only [Option.mem_some_iff, forall_eq']
    split
    · next hstopped =>
        refine iff_of_true inert_error fun htook => ?_
        exact hstopped.resolve_right (not_not_intro htook)
    · next hgranted =>
        rw [not_or, not_not] at hgranted
        refine iff_of_false (fun h => ?_) fun h => hgranted.1 (h hgranted.2)
        have hcount := congrFun (congrArg VaultData.grantedAt h.2) member
        simp [Server.vaultData, Server.putMember] at hcount

theorem removeMember_inert {member : UserID} {o : Server.RemoveOutcome} :
    Inert v s (s.handleRemoveMember userID v member o) ↔
      (member ≠ "" → member ≠ userID → o.role = true → o.delete.Took →
        s.removable v member = false) := by
  unfold Server.handleRemoveMember
  split
  · next hempty => exact iff_of_true inert_error fun h => absurd hempty h
  next hempty =>
  split
  · next hself => exact iff_of_true inert_error fun _ h => absurd hself h
  next hself =>
  rw [imp_iff_right hempty, imp_iff_right hself]
  split
  · next hstopped =>
      refine iff_of_true inert_error fun hrole htook => ?_
      simpa [hrole, htook] using hstopped
  · next hremoved =>
      simp only [not_or, not_not] at hremoved
      obtain ⟨hrole, hremovable, htook⟩ := hremoved
      refine iff_of_false (fun h => ?_) fun h => ?_
      · have hmember := congrFun (congrArg VaultData.members h.2) member
        simp only [Server.vaultData, Server.removeMember, Function.update_self] at hmember
        rw [Server.removable, ← hmember] at hremovable
        cases hremovable
      · rw [h hrole htook] at hremovable
        cases hremovable

theorem transfer_inert {newOwnerID : UserID} {o : Server.TransferOutcome}
    (hmay : May s userID v role .manageMembers) :
    Inert v s (s.transferOwnership userID v newOwnerID o) ↔
      (newOwnerID ≠ "" → newOwnerID ≠ userID → o.role = true → o.transaction = .failed) := by
  have howner : s.members v userID = some .owner := checkPermission_manageMembers.mp hmay.2
  unfold Server.transferOwnership
  split
  · next hempty => exact iff_of_true inert_error fun h => absurd hempty h
  next hempty =>
  split
  · next hself => exact iff_of_true inert_error fun _ h => absurd hself h
  next hself =>
  rw [imp_iff_right hempty, imp_iff_right hself]
  split
  · next hstopped =>
      refine iff_of_true inert_error fun hrole => ?_
      simpa [hrole, howner, Execution.Took] using hstopped
  · next hmoved =>
      simp only [not_or, not_not] at hmoved
      obtain ⟨hrole, -, htook⟩ := hmoved
      refine iff_of_false (fun h => ?_) fun h => htook (h hrole)
      have hmember := congrFun (congrArg VaultData.members h.2) userID
      simp [Server.vaultData, Server.putMember, Server.removeMember, howner, Ne.symm hself]
        at hmember

theorem Server.Deleted.rotated_data (h : s.Deleted v) {b : VaultID} {o : Rotation.InitiateOutcome} :
    (s.handleInitiateKeyRotation userID (some b) o).1.vaultData v = s.vaultData v := by
  have hrows : (Rotation.initiateKeyRotation s.rotation userID b o).1.vaults v
        = s.rotation.vaults v ∧
      (Rotation.initiateKeyRotation s.rotation userID b o).1.jobs.filter (·.vaultID = v)
        = s.rotation.jobs.filter (·.vaultID = v) := by
    by_cases hv : v = b
    · subst hv
      obtain ⟨row, hrow, hdeleted⟩ := h
      rw [Rotation.initiate_deleted hrow hdeleted]
      exact ⟨rfl, rfl⟩
    · exact Rotation.initiate_frame rfl hv
  ext1
  case row => exact hrows.1
  case jobs => exact hrows.2
  all_goals rfl

/-- A rotation is started unless it is of the deleted vault, or stopped. -/
theorem Server.Deleted.rotate_inert (h : s.Deleted v) {body : Option VaultID}
    {o : Rotation.InitiateOutcome} :
    Inert v s (s.handleInitiateKeyRotation userID body o) ↔
      ∀ b ∈ body, ¬s.rotation.CanRotate userID b o := by
  cases body with
  | none => exact iff_of_true inert_error (by simp)
  | some b =>
    simp only [Option.mem_some_iff, forall_eq']
    rw [← Rotation.initiate_ok, Inert, and_iff_left h.rotated_data]
    unfold Server.handleInitiateKeyRotation
    dsimp only
    cases (Rotation.initiateKeyRotation s.rotation userID b o).2 <;> rfl

theorem rotationStatus_inert {jobID : Option JobID} {row : Bool} :
    Inert v s (s, s.getRotationStatus userID jobID row) ↔
      (row = true → ∀ id ∈ jobID, ∀ job ∈ s.rotation.job id, job.userID ≠ userID) := by
  unfold Server.getRotationStatus
  cases jobID with
  | none => exact iff_of_true inert_error (by simp)
  | some id =>
    simp only [Option.mem_some_iff, forall_eq']
    cases row with
    | false => exact iff_of_true inert_error (by simp)
    | true =>
      cases hjob : s.rotation.job id with
      | none => exact iff_of_true inert_error (by simp)
      | some job =>
        by_cases huser : job.userID = userID
        · simp only [huser, Option.filter]
          exact iff_of_false not_inert_ok (by simp [huser])
        · simp only [huser, Option.filter]
          exact iff_of_true inert_error (by simp [huser])

end UsbVault.Storage.Routes
