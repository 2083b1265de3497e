import UsbVault.Lib.Run
import UsbVault.Storage.Uploads

/-!
# Sanctions

What a member without the permission to delete can do to the files of the
others. The deletion of a blob is refused, but the confirmation of an upload
removes any blob of the vault that is larger than the caller's own limit, and
the completion of a multipart upload puts its object over whatever the key
holds. The others' objects stay just when no request does one of these
(`others_kept`).
-/

namespace UsbVault.Storage

open Members Tables

variable {s s' : Service} {userID : UserID} {vaultID v : VaultID} {blobID : BlobID}
  {uploadID : UploadID} {key : ObjectKey}

/-- Every object in the vault that another user has stored is stored still. -/
def KeepsOthers (userID : UserID) (vaultID : VaultID) (s s' : Service) : Prop :=
  ∀ key object, key.vaultID = vaultID → s.objects key = some object → object.storedBy ≠ userID →
    s'.objects key = some object

/-- What another user has stored was stored before. -/
def AddsNone (userID : UserID) (s s' : Service) : Prop :=
  ∀ key object, s'.objects key = some object → object.storedBy ≠ userID →
    s.objects key = some object

theorem KeepsOthers.refl : KeepsOthers userID vaultID s s := fun _ _ _ h _ => h

theorem AddsNone.refl : AddsNone userID s s := fun _ _ h _ => h

theorem AddsNone.trans {s'' : Service} (h : AddsNone userID s s') (h' : AddsNone userID s' s'') :
    AddsNone userID s s'' :=
  fun key object hobject hother => h key object (h' key object hobject hother) hother

theorem keepsOthers_of_objects (h : s'.objects = s.objects) : KeepsOthers userID vaultID s s' := by
  intro key object _ hobject _
  rw [h, hobject]

/-- The object under the key is the user's own, or there is none, or it is in
another vault. -/
def Own (userID : UserID) (vaultID : VaultID) (s : Service) (key : ObjectKey) : Prop :=
  key.vaultID = vaultID → ∀ object ∈ s.objects key, object.storedBy = userID

instance (userID : UserID) (vaultID : VaultID) (s : Service) (key : ObjectKey) :
    Decidable (Own userID vaultID s key) :=
  inferInstanceAs (Decidable (_ → ∀ object ∈ s.objects key, _))

/-- The object under the key is replaced by one of the user's, or removed. -/
structure Replaces (userID : UserID) (key : ObjectKey) (s s' : Service) : Prop where
  others : ∀ k, k ≠ key → s'.objects k = s.objects k
  own : ∀ object, s'.objects key = some object → object.storedBy = userID

/-- The others' objects are kept just when the one replaced is not of them. -/
theorem Replaces.keepsOthers_iff (h : Replaces userID key s s') :
    KeepsOthers userID vaultID s s' ↔ Own userID vaultID s key := by
  constructor
  · intro hkeeps hv object hobject
    by_contra hne
    exact hne (h.own object (hkeeps key object hv hobject hne))
  · intro hown k object hv hobject hne
    by_cases hk : k = key
    · subst hk
      exact absurd (hown hv object hobject) hne
    · rw [h.others k hk, hobject]

theorem Replaces.addsNone (h : Replaces userID key s s') : AddsNone userID s s' := by
  intro k object hobject hne
  by_cases hk : k = key
  · subst hk
    exact absurd (h.own object hobject) hne
  · rwa [h.others k hk] at hobject

theorem Replaces.put {size : Nat} (h : s'.objects = s.objects.putObject key ⟨size, userID⟩) :
    Replaces userID key s s' := by
  constructor
  · intro k hk
    rw [h, Bucket.putObject_ne _ hk]
  · intro object hobject
    rw [h, Bucket.putObject_self] at hobject
    cases hobject
    rfl

theorem Replaces.delete (h : s'.objects = s.objects.deleteObject key) : Replaces userID key s s' := by
  constructor
  · intro k hk
    rw [h, Bucket.deleteObject_ne _ hk]
  · intro object hobject
    rw [h, Bucket.deleteObject_self] at hobject
    cases hobject

theorem Replaces.untracked (h : Replaces userID key s s') (o : Service.FinalizeOutcome) :
    Replaces userID key s (s'.untracked uploadID o) := by
  unfold Service.untracked
  split
  · exact ⟨h.others, h.own⟩
  · exact h

theorem Replaces.deleteFinalObject (h : Replaces userID key s s') (o : Service.FinalizeOutcome) :
    Replaces userID key s (s'.deleteFinalObject key uploadID o) := by
  unfold Service.deleteFinalObject
  dsimp only
  split
  · refine Replaces.untracked ⟨?_, ?_⟩ o
    · intro k hk
      simp [hk, h.others k hk]
    · intro object hobject
      simp at hobject
  · exact h.untracked o

/-! ## The requests that change an object -/

/-- A confirmation that removes the object. -/
def ConfirmRemoves (userID : UserID) (s : Service) (vaultID : VaultID) (blobID : BlobID)
    (o : Service.ConfirmOutcome) : Prop :=
  o.role ∧ checkPermission (s.members vaultID userID) .update ∧ o.head ∧ o.delete.Took
    ∧ ∃ object ∈ s.objects (.blob vaultID blobID), object.size > o.billing.maxFileSize

instance (userID : UserID) (s : Service) (vaultID : VaultID) (blobID : BlobID)
    (o : Service.ConfirmOutcome) : Decidable (ConfirmRemoves userID s vaultID blobID o) :=
  inferInstanceAs (Decidable (_ ∧ _ ∧ _ ∧ _ ∧ ∃ object ∈ s.objects (.blob vaultID blobID), _))

theorem confirm_cases (o : Service.ConfirmOutcome) :
    ConfirmRemoves userID s vaultID blobID o
        ∧ (s.confirmUpload userID vaultID blobID o).1.objects
          = s.objects.deleteObject (.blob vaultID blobID)
      ∨ ¬ConfirmRemoves userID s vaultID blobID o
        ∧ (s.confirmUpload userID vaultID blobID o).1 = s := by
  unfold Service.confirmUpload ConfirmRemoves
  split
  · next refusal hperm =>
      right
      refine ⟨?_, rfl⟩
      rintro ⟨hrole, hcheck, -⟩
      rw [requireVaultPermission_ok.mpr ⟨hrole, hcheck⟩] at hperm
      cases hperm
  next hperm =>
    obtain ⟨hrole, hcheck⟩ := requireVaultPermission_ok.mp hperm
    by_cases hhead : o.head = true
    · rw [if_pos hhead]
      cases hobject : s.objects (.blob vaultID blobID) with
      | none => exact .inr ⟨by simp, rfl⟩
      | some object =>
        dsimp only
        by_cases hsize : object.size > o.billing.maxFileSize
        · by_cases htook : o.delete.Took
          · left
            simp [hrole, hcheck, hhead, htook, hsize]
          · right
            simp [hsize, htook]
        · right
          simp [hsize]
    · rw [if_neg hhead]
      exact .inr ⟨by simp [hhead], rfl⟩

/-- A completion that S3 carries out. -/
def Assembles (userID : UserID) (s : Service) (vaultID : VaultID) (uploadID : UploadID)
    (o : Service.FinalizeOutcome) (upload : MultipartUpload) : Prop :=
  o.role ∧ checkPermission (s.members vaultID userID) .update ∧ o.complete.Took
    ∧ s.loadUpload userID vaultID uploadID o.found = some upload

theorem finalize_cases (o : Service.FinalizeOutcome) :
    (∃ upload, Assembles userID s vaultID uploadID o upload
        ∧ Replaces userID upload.key s (s.finalizeUpload userID vaultID uploadID o).1)
      ∨ (∀ upload, ¬Assembles userID s vaultID uploadID o upload)
        ∧ (s.finalizeUpload userID vaultID uploadID o).1 = s := by
  unfold Service.finalizeUpload Assembles
  split
  · next refusal hperm =>
      right
      refine ⟨?_, rfl⟩
      rintro upload ⟨hrole, hcheck, -⟩
      rw [requireVaultPermission_ok.mpr ⟨hrole, hcheck⟩] at hperm
      cases hperm
  next hperm =>
    obtain ⟨hrole, hcheck⟩ := requireVaultPermission_ok.mp hperm
    cases hload : s.loadUpload userID vaultID uploadID o.found with
    | none => exact .inr ⟨by simp, rfl⟩
    | some upload =>
      dsimp only
      by_cases htook : o.complete.Took
      · left
        refine ⟨upload, ⟨hrole, hcheck, htook, rfl⟩, ?_⟩
        rw [if_pos htook]
        have hput : Replaces userID upload.key s
            { s with objects := s.objects.putObject upload.key ⟨o.assembled, userID⟩ } :=
          Replaces.put rfl
        split
        · exact hput
        split
        · exact hput.deleteFinalObject o
        split
        · exact hput.deleteFinalObject o
        · exact hput.untracked o
      · right
        have hnot : o.complete ≠ .done := by
          rintro hdone
          simp [hdone] at htook
        simp [htook, hnot]

/-! ## One request -/

/-- A blob is put under a key that no object has. -/
def Fresh (s : Service) : Request → Prop
  | .put v b _ => s.objects (.blob v b) = none
  | _ => True

instance (s : Service) (req : Request) : Decidable (Fresh s req) :=
  match req with
  | .put _ _ _ => inferInstanceAs (Decidable (_ = _))
  | .wait _ | .uploadURL _ _ _ _ _ | .confirm _ _ _ | .delete _ _ _ | .initiate _ _ _ _
  | .part _ _ _ _ | .finalize _ _ _ | .abort _ _ _ => inferInstanceAs (Decidable True)

/-- The request neither removes nor replaces another user's object in the
vault: it confirms none that is larger than the caller's limit, and completes
no upload to its key. -/
def Harmless (userID : UserID) (vaultID : VaultID) (s : Service) : Request → Prop
  | .confirm v b o => ConfirmRemoves userID s v b o → Own userID vaultID s (.blob v b)
  | .finalize v uploadID o =>
    o.role → checkPermission (s.members v userID) .update → o.complete.Took →
      ∀ upload ∈ s.loadUpload userID v uploadID o.found, Own userID vaultID s upload.key
  | _ => True

instance (userID : UserID) (vaultID : VaultID) (s : Service) (req : Request) :
    Decidable (Harmless userID vaultID s req) :=
  match req with
  | .confirm _ _ _ => inferInstanceAs (Decidable (_ → _))
  | .finalize v uploadID o =>
    inferInstanceAs (Decidable (_ → _ → _ → ∀ upload ∈ s.loadUpload userID v uploadID o.found, _))
  | .wait _ | .uploadURL _ _ _ _ _ | .put _ _ _ | .delete _ _ _ | .initiate _ _ _ _
  | .part _ _ _ _ | .abort _ _ _ => inferInstanceAs (Decidable True)

theorem uploadURL_objects {fileSize : Int} {contentType : String} (o : Service.UrlOutcome) :
    (s.generateUploadURL userID v blobID fileSize contentType o).1.objects = s.objects := by
  unfold Service.generateUploadURL
  split
  · rfl
  · split <;> rfl

theorem initiate_objects {fileID : BlobID} {totalSize : Int} (o : Service.InitiateOutcome) :
    (s.initiateUpload userID v fileID totalSize o).1.objects = s.objects := by
  unfold Service.initiateUpload
  split
  · rfl
  · split
    · rfl
    split
    · rfl
    split
    · rfl
    split <;> rfl

theorem part_objects {part : CompletedPart} (o : Service.PartOutcome) :
    (s.completePart userID v uploadID part o).1.objects = s.objects := by
  unfold Service.completePart
  split
  · rfl
  · split
    · rfl
    split
    · rfl
    split
    · rfl
    split
    · rfl
    · dsimp only
      split <;> rfl

theorem abort_objects (o : Service.AbortOutcome) :
    (s.abortUpload userID v uploadID o).1.objects = s.objects := by
  unfold Service.abortUpload
  split
  · rfl
  · split
    · rfl
    split
    · dsimp only
      split <;> rfl
    · rfl

theorem put_cases {size : Nat} :
    (s.putBlob userID v blobID size).objects = s.objects
      ∨ Replaces userID (.blob v blobID) s (s.putBlob userID v blobID size) := by
  unfold Service.putBlob
  split
  · exact .inr (Replaces.put rfl)
  · exact .inl rfl

theorem delete_cases (o : Service.DeleteOutcome) :
    (s.deleteBlob userID v blobID o).1.objects = s.objects
      ∨ checkPermission (s.members v userID) .delete
        ∧ Replaces userID (.blob v blobID) s (s.deleteBlob userID v blobID o).1 := by
  unfold Service.deleteBlob
  split
  · exact .inl rfl
  next hperm =>
    split
    · exact .inl rfl
    · dsimp only
      split
      · exact .inr ⟨(requireVaultPermission_ok.mp hperm).2, Replaces.delete rfl⟩
      · exact .inl rfl

/-- **What a request does to the objects**, of a user who may not delete in
the vault: nothing, or it replaces one. -/
theorem handle_effect {req : Request}
    (hrole : checkPermission (s.members vaultID userID) .delete = false) (hfresh : Fresh s req) :
    (s.handle userID req).objects = s.objects ∧ Harmless userID vaultID s req
      ∨ ∃ key, Replaces userID key s (s.handle userID req)
        ∧ (Harmless userID vaultID s req ↔ Own userID vaultID s key) := by
  cases req with
  | wait d => exact .inl ⟨rfl, True.intro⟩
  | uploadURL v b fileSize contentType o => exact .inl ⟨uploadURL_objects o, True.intro⟩
  | put v b size =>
    rcases put_cases with hsame | hput
    · exact .inl ⟨hsame, True.intro⟩
    · refine .inr ⟨.blob v b, hput, iff_of_true True.intro ?_⟩
      intro _ object hobject
      rw [show s.objects (.blob v b) = none from hfresh] at hobject
      cases hobject
  | confirm v b o =>
    rcases confirm_cases o with ⟨hremoves, hdelete⟩ | ⟨hnot, hsame⟩
    · refine .inr ⟨.blob v b, Replaces.delete hdelete, ?_⟩
      exact ⟨fun h => h hremoves, fun h _ => h⟩
    · exact .inl ⟨congrArg Service.objects hsame, fun h => absurd h hnot⟩
  | delete v b o =>
    rcases delete_cases o with hsame | ⟨hperm, hdelete⟩
    · exact .inl ⟨hsame, True.intro⟩
    · refine .inr ⟨.blob v b, hdelete, iff_of_true True.intro ?_⟩
      -- a vault in which the user may delete is another one
      rintro rfl
      rw [show s.members v userID = s.members (ObjectKey.blob v b).vaultID userID from rfl,
        hrole] at hperm
      cases hperm
  | initiate v f totalSize o => exact .inl ⟨initiate_objects o, True.intro⟩
  | part v uploadID part o => exact .inl ⟨part_objects o, True.intro⟩
  | finalize v uploadID o =>
    rcases finalize_cases o with ⟨upload, ⟨hperm, hcheck, htook, hload⟩, hput⟩ | ⟨hnot, hsame⟩
    · refine .inr ⟨upload.key, hput, ?_⟩
      simp only [Harmless, hperm, hcheck, htook, hload, true_imp_iff, Option.mem_some_iff,
        forall_eq']
    · refine .inl ⟨congrArg Service.objects hsame, ?_⟩
      intro hperm hcheck htook upload hload
      exact absurd ⟨hperm, hcheck, htook, hload⟩ (hnot upload)
  | abort v uploadID o => exact .inl ⟨abort_objects o, True.intro⟩

/-! ## Every run -/

/-- The tables of vaults and members are as they were. -/
structure SameTables (s s' : Service) : Prop where
  vaults : s'.vaults = s.vaults
  members : s'.members = s.members

theorem deleteFinalObject_tables (o : Service.FinalizeOutcome) :
    SameTables s (s.deleteFinalObject key uploadID o) := by
  unfold Service.deleteFinalObject Service.untracked
  dsimp only
  split <;> split <;> exact ⟨rfl, rfl⟩

theorem finalize_tables (o : Service.FinalizeOutcome) :
    SameTables s (s.finalizeUpload userID v uploadID o).1 := by
  unfold Service.finalizeUpload
  split
  · exact ⟨rfl, rfl⟩
  split
  · exact ⟨rfl, rfl⟩
  next upload _ =>
    have hassembled : SameTables s (if o.complete.Took then
        { s with objects := s.objects.putObject upload.key ⟨o.assembled, userID⟩ } else s) := by
      split <;> exact ⟨rfl, rfl⟩
    generalize (if o.complete.Took then
      { s with objects := s.objects.putObject upload.key ⟨o.assembled, userID⟩ } else s) = next at *
    have hdeleted : SameTables next (next.deleteFinalObject upload.key uploadID o) :=
      deleteFinalObject_tables o
    dsimp only
    split
    · exact hassembled
    split
    · exact ⟨hdeleted.vaults.trans hassembled.vaults, hdeleted.members.trans hassembled.members⟩
    split
    · exact ⟨hdeleted.vaults.trans hassembled.vaults, hdeleted.members.trans hassembled.members⟩
    · unfold Service.untracked
      split <;> exact ⟨hassembled.vaults, hassembled.members⟩

theorem handle_tables (req : Request) : SameTables s (s.handle userID req) := by
  cases req with
  | finalize v uploadID o => exact finalize_tables o
  | _ =>
    simp only [Service.handle, Service.generateUploadURL, Service.putBlob, Service.confirmUpload,
      Service.deleteBlob, Service.initiateUpload, Service.completePart, Service.abortUpload]
    repeat' split
    all_goals exact ⟨rfl, rfl⟩

/-- The user may not delete in the vault. -/
def CannotDelete (userID : UserID) (vaultID : VaultID) (s : Service) : Prop :=
  checkPermission (s.members vaultID userID) .delete = false

theorem CannotDelete.handle (h : CannotDelete userID vaultID s) (req : Request) :
    CannotDelete userID vaultID (s.handle userID req) := by
  unfold CannotDelete
  rw [(handle_tables req).members]
  exact h

theorem addsNone_handle {req : Request} (hrole : CannotDelete userID vaultID s)
    (hfresh : Fresh s req) : AddsNone userID s (s.handle userID req) := by
  rcases handle_effect hrole hfresh with ⟨hsame, -⟩ | ⟨key, hreplaces, -⟩
  · intro key object hobject _
    rwa [hsame] at hobject
  · exact hreplaces.addsNone

/-- **One request** keeps the others' objects just when it is harmless. -/
theorem keepsOthers_handle {req : Request} (hrole : CannotDelete userID vaultID s)
    (hfresh : Fresh s req) :
    KeepsOthers userID vaultID s (s.handle userID req) ↔ Harmless userID vaultID s req := by
  rcases handle_effect hrole hfresh with ⟨hsame, hharmless⟩ | ⟨key, hreplaces, hharmless⟩
  · exact iff_of_true (keepsOthers_of_objects hsame) hharmless
  · rw [hreplaces.keepsOthers_iff, hharmless]

theorem addsNone_run {reqs : List Request} : ∀ {s : Service}, CannotDelete userID vaultID s →
    Run.Each (Service.handle userID) Fresh s reqs →
      AddsNone userID s (reqs.foldl (Service.handle userID) s) := by
  induction reqs with
  | nil => intro s _ _; exact AddsNone.refl
  | cons req reqs ih =>
    intro s hrole hfresh
    exact (addsNone_handle hrole hfresh.1).trans (ih (hrole.handle req) hfresh.2)

/-- **The others' files stay** through every sequence of storage requests of a
user who may not delete in the vault, with PUTs to fresh blobs, just when
every request of it is harmless. -/
theorem others_kept {reqs : List Request} : ∀ {s : Service}, CannotDelete userID vaultID s →
    Run.Each (Service.handle userID) Fresh s reqs →
      (KeepsOthers userID vaultID s (reqs.foldl (Service.handle userID) s) ↔
        Run.Each (Service.handle userID) (Harmless userID vaultID) s reqs) := by
  induction reqs with
  | nil => intro s _ _; exact iff_of_true KeepsOthers.refl True.intro
  | cons req reqs ih =>
    intro s hrole hfresh
    obtain ⟨hfirst, hrest⟩ := hfresh
    have hnext := hrole.handle req
    rw [Run.Each, List.foldl_cons, ← keepsOthers_handle hrole hfirst, ← ih hnext hrest]
    have hadds := addsNone_handle hrole hfirst
    have hlater := addsNone_run hnext hrest
    constructor
    · intro h
      constructor
      · intro key object hv hobject hother
        exact hlater key object (h key object hv hobject hother) hother
      · intro key object hv hobject hother
        exact h key object hv (hadds key object hobject hother) hother
    · rintro ⟨hkept, hkept'⟩ key object hv hobject hother
      exact hkept' key object hv (hkept key object hv hobject hother) hother

/-- A vault of user `a` with the editor `b`, and a blob of 200 MB in it. -/
def sampleService : Service where
  now := 0
  vaults := fun v => if v = 0 then some ⟨"a", false⟩ else none
  members := fun v u =>
    if v = 0 ∧ u = "a" then some .owner else if v = 0 ∧ u = "b" then some .editor else none
  objects := Bucket.putObject (fun _ => none) (.blob 0 7) ⟨200 * 1024 * 1024, "a"⟩
  urls := []
  uploads := fun _ => none

/-- The editor uploads a blob of 1 MB and confirms it. -/
def sampleRequests : List Request :=
  [.uploadURL 0 8 (1024 * 1024) "text/plain" ⟨true, true, .tier "free", some 0, true⟩,
    .put 0 8 (1024 * 1024), .confirm 0 8 ⟨true, true, .tier "free", .done⟩]

theorem others_kept_sample :
    Run.Each (Service.handle "b") (Harmless "b" 0) sampleService sampleRequests ∧
      KeepsOthers "b" 0 sampleService (sampleRequests.foldl (Service.handle "b") sampleService) :=
  have hharmless : Run.Each (Service.handle "b") (Harmless "b" 0) sampleService sampleRequests := by
    decide
  have hrole : CannotDelete "b" 0 sampleService := rfl
  ⟨hharmless, (others_kept hrole (by decide)).mpr hharmless⟩

/-- The editor, on the free tier, confirms the owner's blob. -/
theorem others_lost :
    ¬∀ (userID : UserID) (vaultID : VaultID) (s : Service) (reqs : List Request),
      CannotDelete userID vaultID s → Run.Each (Service.handle userID) Fresh s reqs →
        KeepsOthers userID vaultID s (reqs.foldl (Service.handle userID) s) := by
  intro h
  have hkept := h "b" 0 sampleService [.confirm 0 7 ⟨true, true, .tier "free", .done⟩] rfl
    (by decide) (.blob 0 7) ⟨200 * 1024 * 1024, "a"⟩ rfl (by decide) (by decide)
  revert hkept
  decide

end UsbVault.Storage
