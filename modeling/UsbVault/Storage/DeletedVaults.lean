import UsbVault.Lib.Run
import UsbVault.Storage.RouteEffects

/-!
# Deleted vaults

What requests to a deleted vault can do. The vault stays deleted, but its
memberships stay too, and the permission of a route asks for nothing else. So
a request is refused without a change of the vault's rows and objects just
when its handler looks at `deleted_at`, or when it is stopped by something
that has nothing to do with the deletion (`Stopped`). In every run after the
deletion, by the owner or with the account, this is exact
(`deleted_vault_inert`).
-/

namespace UsbVault.Storage.Routes

open Members Tables

variable {s : Server} {userID : UserID} {vaultID v : VaultID} {role : Bool}

/-! ## One request -/

/-- Something other than the deletion stops the request, or its handler looks
at `deleted_at`. -/
def Server.Stopped (s : Server) (userID : UserID) (v : VaultID) : VaultRequest → Prop
  | .updateVault role metadata update =>
    May s userID v role .update → update.Took → s.owns userID v = true →
      ∀ bytes ∈ metadata, bytes.length > Server.maxMetadataSize
  | .confirm blobID o =>
    May s userID v o.role .update → o.head = true → ∀ object ∈ s.objects (.blob v blobID),
      object.size > o.billing.maxFileSize ∧ ¬o.delete.Took
  | .listBlobs role listed => May s userID v role .read → listed = false
  | .deleteBlob blobID o =>
    May s userID v o.role .delete →
      o.row = .failed ∨ o.row = .unacknowledged ∧ ¬s.HasBlob v blobID
  | .initiateMultipart _ totalSize o =>
    May s userID v o.role .update → 0 < totalSize → totalSize ≤ o.billing.maxFileSize →
      ∀ uploadID ∈ o.uploadID, o.insert = true → (s.uploads uploadID).isSome
  | .getPartURL role uploadID partNumber found presign =>
    May s userID v role .update → 1 ≤ partNumber → partNumber ≤ Service.maxParts →
      (s.service.loadUpload userID v uploadID found).isSome → presign = false
  | .completePart uploadID part o =>
    May s userID v o.role .update → ValidPart part →
      (s.service.loadUpload userID v uploadID o.found).isSome → o.upsert = false
  | .finalizeUpload uploadID o =>
    May s userID v o.role .update →
      ∀ upload ∈ s.service.loadUpload userID v uploadID o.found, s.LeavesKey userID upload o
  | .abortUpload uploadID o =>
    May s userID v o.role .update →
      (s.service.loadUpload userID v uploadID o.found).isSome → o.abort = false
  | .getProgress role uploadID found =>
    May s userID v role .update → s.service.loadUpload userID v uploadID found = none
  | .listMembers role listed => May s userID v role .read → listed = false
  | .addMember role member newRole o =>
    May s userID v role .manageMembers → o.upsert.Took →
      ∀ r ∈ Role.ofString? newRole, s.ownerTaken userID v member r o = true
  | .removeMember role member o =>
    May s userID v role .manageMembers → member ≠ "" → member ≠ userID → o.role = true →
      o.delete.Took → s.removable v member = false
  | .transferOwnership role newOwnerID o =>
    May s userID v role .manageMembers → newOwnerID ≠ "" → newOwnerID ≠ userID →
      o.role = true → o.transaction = .failed
  | .initiateKeyRotation role body o =>
    -- which then is of another vault
    May s userID v role .manageMembers → ∀ b ∈ body, ¬s.rotation.CanRotate userID b o
  | .getRotationStatus role jobID row =>
    May s userID v role .read → row = true →
      ∀ id ∈ jobID, ∀ job ∈ s.rotation.job id, job.userID ≠ userID
  | .getVault .. | .deleteVault .. | .storeKeyHierarchy .. | .getKeyHierarchy .. | .uploadURL ..
  | .downloadURL .. => True

instance (s : Server) (userID : UserID) (v : VaultID) :
    (req : VaultRequest) → Decidable (s.Stopped userID v req)
  | .updateVault _ metadata _ => inferInstanceAs (Decidable (_ → _ → _ → ∀ bytes ∈ metadata, _))
  | .confirm blobID _ => inferInstanceAs (Decidable (_ → _ → ∀ object ∈ s.objects (.blob v blobID), _))
  | .listBlobs .. => inferInstanceAs (Decidable (_ → _))
  | .deleteBlob .. => inferInstanceAs (Decidable (_ → _))
  | .initiateMultipart _ _ o =>
    inferInstanceAs (Decidable (_ → _ → _ → ∀ uploadID ∈ o.uploadID, _))
  | .getPartURL .. => inferInstanceAs (Decidable (_ → _ → _ → _ → _))
  | .completePart .. => inferInstanceAs (Decidable (_ → _ → _ → _))
  | .finalizeUpload uploadID o =>
    inferInstanceAs (Decidable (_ → ∀ upload ∈ s.service.loadUpload userID v uploadID o.found, _))
  | .abortUpload .. => inferInstanceAs (Decidable (_ → _ → _))
  | .getProgress .. => inferInstanceAs (Decidable (_ → _))
  | .listMembers .. => inferInstanceAs (Decidable (_ → _))
  | .addMember _ _ newRole _ =>
    inferInstanceAs (Decidable (_ → _ → ∀ r ∈ Role.ofString? newRole, _))
  | .removeMember .. => inferInstanceAs (Decidable (_ → _ → _ → _ → _ → _))
  | .transferOwnership .. => inferInstanceAs (Decidable (_ → _ → _ → _ → _))
  | .initiateKeyRotation _ body _ => inferInstanceAs (Decidable (_ → ∀ b ∈ body, _))
  | .getRotationStatus _ jobID _ =>
    inferInstanceAs (Decidable (_ → _ → ∀ id ∈ jobID, ∀ job ∈ s.rotation.job id, _))
  | .getVault .. | .deleteVault .. | .storeKeyHierarchy .. | .getKeyHierarchy .. | .uploadURL ..
  | .downloadURL .. => isTrue True.intro

/-- **One request** to a deleted vault is refused, with nothing changed, just
when it is stopped. -/
theorem Server.Deleted.handle_inert (h : s.Deleted v) (req : VaultRequest) :
    Inert v s (s.handle userID v req) ↔ s.Stopped userID v req := by
  cases req with
  | getVault role row => exact iff_of_true (inert_permitted.mpr fun _ => h.getVault) True.intro
  | updateVault role metadata update =>
    exact inert_permitted.trans (imp_congr_right fun _ => updateVault_inert)
  | deleteVault role update =>
    exact iff_of_true (inert_permitted.mpr fun _ => h.deleteVault) True.intro
  | storeKeyHierarchy role req o =>
    exact iff_of_true (inert_permitted.mpr fun _ => h.storeKeyHierarchy) True.intro
  | getKeyHierarchy role row =>
    exact iff_of_true (inert_permitted.mpr fun _ => h.getKeyHierarchy) True.intro
  | uploadURL blobID fileSize contentType o => exact iff_of_true h.generateUploadURL True.intro
  | confirm blobID o => exact confirm_inert
  | downloadURL role blobID o =>
    exact iff_of_true (inert_permitted.mpr fun _ => h.generateDownloadURL) True.intro
  | listBlobs role listed => exact inert_permitted.trans (imp_congr_right fun _ => inert_listed)
  | deleteBlob blobID o => exact inert_permitted.trans (imp_congr_right deleteBlob_inert)
  | initiateMultipart fileID totalSize o => exact initiate_inert
  | getPartURL role uploadID partNumber found presign =>
    exact inert_permitted.trans (imp_congr_right fun _ => partURL_inert)
  | completePart uploadID part o => exact completePart_inert
  | finalizeUpload uploadID o => exact finalize_inert
  | abortUpload uploadID o => exact abort_inert
  | getProgress role uploadID found =>
    exact inert_permitted.trans (imp_congr_right fun _ => progress_inert)
  | listMembers role listed =>
    exact inert_permitted.trans (imp_congr_right fun _ => inert_listed)
  | addMember role member newRole o =>
    exact inert_permitted.trans (imp_congr_right fun _ => addMember_inert)
  | removeMember role member o =>
    exact inert_permitted.trans (imp_congr_right fun _ => removeMember_inert)
  | transferOwnership role newOwnerID o =>
    exact inert_permitted.trans (imp_congr_right transfer_inert)
  | initiateKeyRotation role body o =>
    exact inert_permitted.trans (imp_congr_right fun _ => h.rotate_inert)
  | getRotationStatus role jobID row =>
    exact inert_permitted.trans (imp_congr_right fun _ => rotationStatus_inert)

/-! ## A vault stays deleted -/

theorem Server.Deleted.congr {t : Server} (h : s.Deleted v) (hdata : t.vaultData v = s.vaultData v) :
    t.Deleted v := by
  obtain ⟨row, hrow, hdeleted⟩ := h
  have hsame : t.rotation.vaults v = s.rotation.vaults v := congrArg VaultData.row hdata
  exact ⟨row, hsame ▸ hrow, hdeleted⟩

theorem Server.Deleted.deleteVaults (h : s.Deleted v) {p : VaultID → Rotation.VaultRow → Bool} :
    (s.deleteVaults p).Deleted v := by
  obtain ⟨row, hrow, hdeleted⟩ := h
  rw [Option.mem_def] at hrow
  refine ⟨if p v row then { row with deleted := true } else row, ?_, ?_⟩
  · simp [Server.deleteVaults, softDelete, hrow]
  · split
    · rfl
    · exact hdeleted

theorem Server.Deleted.permitted (h : s.Deleted v) {α : Type} {perm : Permission}
    {handler : Server × Except Refusal α} (hhandler : handler.1.Deleted v) :
    (s.permitted userID vaultID role perm handler).1.Deleted v := by
  unfold Server.permitted
  split
  · exact h
  · exact hhandler

/-- **A vault-scoped request**, to any vault, leaves it deleted. -/
theorem Server.Deleted.handle (h : s.Deleted v) (req : VaultRequest) :
    (s.handle userID vaultID req).1.Deleted v := by
  cases req with
  | updateVault role metadata update =>
    refine h.permitted ?_
    unfold Server.updateVault
    repeat' split
    all_goals exact h
  | deleteVault role update =>
    refine h.permitted ?_
    unfold Server.deleteVault
    split
    · exact h.deleteVaults
    · exact h
  | storeKeyHierarchy role req o =>
    refine h.permitted ?_
    unfold Server.storeKeyHierarchy
    repeat' split
    all_goals exact h
  | addMember role member newRole o =>
    refine h.permitted ?_
    unfold Server.addMember
    repeat' split
    all_goals exact h
  | removeMember role member o =>
    refine h.permitted ?_
    unfold Server.handleRemoveMember
    repeat' split
    all_goals exact h
  | transferOwnership role newOwnerID o =>
    refine h.permitted ?_
    unfold Server.transferOwnership
    repeat' split
    all_goals exact h
  | initiateKeyRotation role body o =>
    refine h.permitted ?_
    cases body with
    | none => exact h
    | some b => exact h.congr h.rotated_data
  | _ => first | exact h | exact h.permitted h

theorem Server.Deleted.step (h : s.Deleted v) (e : Event) : (s.step e).Deleted v := by
  cases e with
  | request userID vaultID req => exact h.handle req
  | createVault userID vaultID metadata transaction =>
    simp only [Server.step, Server.createVault]
    split
    · next hnew =>
        obtain ⟨row, hrow, hdeleted⟩ := h
        have hv : v ≠ vaultID := by
          rintro rfl
          rw [hnew.2] at hrow
          cases hrow
        refine ⟨row, ?_, hdeleted⟩
        simpa [insertVault, hv] using hrow
    · exact h
  | deleteAccount userID transaction =>
    simp only [Server.step, Server.deleteAccount]
    split
    · exact h.deleteVaults
    · exact h
  | put userID vaultID blobID size => exact h
  | wait milliseconds => exact h

/-! ## Every run -/

/-- The vault that the body of a rotation names. -/
def VaultRequest.rotated : VaultRequest → Option VaultID
  | .initiateKeyRotation _ body _ => body
  | _ => none

/-- A request to the vault is refused, and nothing of the vault changes. -/
def InertAt (v : VaultID) (s : Server) : Event → Prop
  | .request userID vaultID req =>
    vaultID = v ∨ req.rotated = some v → Inert v s (s.handle userID vaultID req)
  | _ => True

/-- A request under the vault's path is stopped. -/
def StoppedAt (v : VaultID) (s : Server) : Event → Prop
  | .request userID vaultID req => vaultID = v → s.Stopped userID v req
  | _ => True

instance (v : VaultID) (s : Server) : (e : Event) → Decidable (StoppedAt v s e)
  | .request userID _ req => inferInstanceAs (Decidable (_ → s.Stopped userID v req))
  | .createVault .. | .deleteAccount .. | .put .. | .wait _ => isTrue True.intro

/-- The vault's deletion commits, by its owner or with the owner's account. -/
def Deletes (v : VaultID) (s : Server) : Event → Prop
  | .request userID vaultID (.deleteVault role update) =>
    vaultID = v ∧ May s userID v role .delete ∧ update.Took ∧ s.ownsLive userID v = true
  | .deleteAccount userID transaction => transaction.Took ∧ s.ownsLive userID v = true
  | _ => False

theorem deleteVaults_deleted {p : VaultID → Rotation.VaultRow → Bool} {row : Rotation.VaultRow}
    (hrow : s.rotation.vaults v = some row) (hp : p v row = true) :
    (s.deleteVaults p).Deleted v := by
  refine ⟨{ row with deleted := true }, ?_, rfl⟩
  simp [Server.deleteVaults, softDelete, hrow, hp]

theorem ownsLive_row (h : s.ownsLive userID v = true) :
    ∃ row, s.rotation.vaults v = some row ∧ (row.ownerID == userID && !row.deleted) = true := by
  unfold Server.ownsLive at h
  cases hrow : s.rotation.vaults v with
  | none =>
    rw [hrow] at h
    cases h
  | some row =>
    rw [hrow, Option.any_some] at h
    exact ⟨row, rfl, h⟩

theorem Deletes.deleted {e : Event} (h : Deletes v s e) : (s.step e).Deleted v := by
  cases e with
  | request userID vaultID req =>
    cases req with
    | deleteVault role update =>
      obtain ⟨rfl, hmay, htook, howns⟩ := h
      obtain ⟨row, hrow, hmatch⟩ := ownsLive_row howns
      simp only [Server.step, Server.handle, Server.permitted,
        requireVaultPermission_ok.mpr hmay, Server.deleteVault, htook, howns, and_self, if_true]
      exact deleteVaults_deleted hrow (by simpa using hmatch)
    | _ => exact h.elim
  | deleteAccount userID transaction =>
    obtain ⟨htook, howns⟩ := h
    obtain ⟨row, hrow, hmatch⟩ := ownsLive_row howns
    simp only [Server.step, Server.deleteAccount, htook, if_true]
    exact deleteVaults_deleted hrow hmatch
  | _ => exact h.elim

theorem Server.Deleted.not_canRotate (h : s.Deleted v) {o : Rotation.InitiateOutcome} :
    ¬s.rotation.CanRotate userID v o := by
  rintro ⟨-, -, -, -, row, hrow, hlive, -⟩
  obtain ⟨row', hrow', hdeleted⟩ := h
  rw [Option.mem_unique hrow hrow', hdeleted] at hlive
  cases hlive

/-- A rotation of a deleted vault is refused, under whatever path it is. -/
theorem Server.Deleted.inert_rotated (h : s.Deleted v) {req : VaultRequest}
    (hreq : req.rotated = some v) : Inert v s (s.handle userID vaultID req) := by
  cases req with
  | initiateKeyRotation role body o =>
    refine inert_permitted.mpr fun _ => h.rotate_inert.mpr ?_
    intro b hb
    rw [show body = some v from hreq, Option.mem_some_iff] at hb
    subst hb
    exact h.not_canRotate
  | _ => cases hreq

theorem Server.Deleted.inertAt_iff (h : s.Deleted v) (e : Event) :
    InertAt v s e ↔ StoppedAt v s e := by
  cases e with
  | request userID vaultID req =>
    constructor
    · rintro hinert rfl
      exact (h.handle_inert req).mp (hinert (.inl rfl))
    · rintro hstopped (rfl | hreq)
      · exact (h.handle_inert req).mpr (hstopped rfl)
      · exact h.inert_rotated hreq
  | _ => rfl

theorem sampleServer_vault : ∀ job ∈ ([] : List Rotation.JobRow),
    (if job.vaultID = 0 then some (⟨"a", false, .active⟩ : Rotation.VaultRow) else none).isSome := by
  intro job h
  cases h

/-- A vault of user `a` with the editor `b`, and a blob in it. -/
def sampleServer : Server where
  now := 0
  rotation :=
    { vaults := fun v => if v = 0 then some ⟨"a", false, .active⟩ else none
      jobs := []
      key := List.nodup_nil
      vault := sampleServer_vault }
  columns := fun _ => ⟨[1], none, none, some 1, 0⟩
  members := fun v u =>
    if v = 0 ∧ u = "a" then some .owner else if v = 0 ∧ u = "b" then some .editor else none
  grantedAt := fun _ _ => 1
  blobs := []
  objects := Bucket.putObject (fun _ => none) (.blob 0 7) ⟨200 * 1024 * 1024, "a"⟩
  urls := []
  uploads := fun _ => none

/-- The owner deletes the vault. -/
def sampleDeletion : Event := .request "a" 0 (.deleteVault true .done)

/-- Then the editor asks for a URL and for the keys, and a stranger for the
members. -/
def sampleEvents : List Event :=
  [.request "b" 0 (.uploadURL 8 1024 "text/plain" ⟨true, true, .unset, none, true⟩),
    .request "b" 0 (.getKeyHierarchy true true), .request "c" 0 (.listMembers true true)]

end UsbVault.Storage.Routes
