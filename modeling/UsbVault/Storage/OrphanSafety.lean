import UsbVault.Storage.OrphanGc
import UsbVault.Storage.Sanctions

/-!
# Safety of the orphan job

The job takes an object for an orphan when the table `blobs` has no row with
its identifier. Where every uploaded blob that it lists has one, the answer
is read to its end, and nothing is uploaded under a key that a run is about
to delete, no run deletes a user's file, and the files stay in the bucket
(`orphan_safe`).
-/

namespace UsbVault.Storage.Gc

open Members Tables

variable {s s' : Store} {v : VaultID} {b : BlobID} {blob : VaultID × BlobID} {userID : UserID}
  {maxDeletes : Nat} {job : Job} {o : Outcome}

/-- No protected blob was deleted, and the files are there that were uploaded
into a live vault and not removed by a request, unless a user has deleted
them and no row is left to restore. -/
structure Kept (s : Store) : Prop where
  lost : s.lost = []
  stored : ∀ v b, (s.files v b).uploaded → s.Live v → ¬(s.files v b).removed →
    ((s.files v b).userDeleted → (s.rows b).isSome) → (s.service.objects (.blob v b)).isSome

/-- The job may delete the blob. -/
def Spare (s : Store) (blob : VaultID × BlobID) : Prop :=
  (s.files blob.1 blob.2).uploaded → s.Live blob.1 →
    (s.files blob.1 blob.2).userDeleted ∧ s.rows blob.2 = none

/-- The blobs a run is about to delete. -/
def Job.orphans (job : Job) : List (VaultID × BlobID) :=
  match job.pc with
  | .deleting orphans _ => orphans
  | _ => []

/-- The blobs of the page a run is about to look up. -/
def Job.selected (job : Job) : List (VaultID × BlobID) :=
  match job.pc with
  | .selecting entries _ => entries
  | _ => []

def SparesAll (s : Store) (_ : Nat) (job : Job) : Prop := ∀ blob ∈ job.orphans, Spare s blob

/-! ## Requests -/

/-- What an event may change, but for an upload. -/
structure Evolves (s s' : Store) : Prop where
  lost : s'.lost = s.lost
  rows : ∀ b, (s'.rows b).isSome = (s.rows b).isSome
  live : ∀ v, s'.Live v → s.Live v
  uploaded : ∀ v b, (s'.files v b).uploaded → (s.files v b).uploaded
  restored : ∀ v b, (s.files v b).userDeleted → (s'.files v b).userDeleted ∨ (s.rows b).isSome
  stored : ∀ v b, (s.service.objects (.blob v b)).isSome →
    (s'.service.objects (.blob v b)).isSome ∨ (s'.files v b).removed
  removed : ∀ v b, (s.files v b).removed → (s'.files v b).removed

theorem Evolves.refl : Evolves s s where
  lost := rfl
  rows _ := rfl
  live _ h := h
  uploaded _ _ h := h
  restored _ _ h := .inl h
  stored _ _ h := .inl h
  removed _ _ h := h

theorem Evolves.trans {s'' : Store} (h : Evolves s s') (h' : Evolves s' s'') : Evolves s s'' where
  lost := h'.lost.trans h.lost
  rows b := (h'.rows b).trans (h.rows b)
  live v hlive := h.live v (h'.live v hlive)
  uploaded v b hup := h.uploaded v b (h'.uploaded v b hup)
  restored v b hdel := by
    rcases h.restored v b hdel with hdel' | hrow
    · exact (h'.restored v b hdel').imp_right fun hrow => by rwa [← h.rows b]
    · exact .inr hrow
  stored v b hobject := by
    rcases h.stored v b hobject with hobject' | hremoved
    · exact h'.stored v b hobject'
    · exact .inr (h'.removed v b hremoved)
  removed v b hremoved := h'.removed v b (h.removed v b hremoved)

theorem Evolves.kept (h : Evolves s s') (hs : Kept s) : Kept s' := by
  refine ⟨h.lost.trans hs.lost, ?_⟩
  intro v b hup hlive hremoved hrow
  have hbefore : ((s.files v b).userDeleted → (s.rows b).isSome) := by
    intro hdel
    rcases h.restored v b hdel with hdel' | hrow'
    · rw [← h.rows b]
      exact hrow hdel'
    · exact hrow'
  have hobject := hs.stored v b (h.uploaded v b hup) (h.live v hlive)
    (fun hr => hremoved (h.removed v b hr)) hbefore
  exact (h.stored v b hobject).resolve_right hremoved

theorem Evolves.spare (h : Evolves s s') (hs : Spare s blob) : Spare s' blob := by
  intro hup hlive
  obtain ⟨hdel, hrow⟩ := hs (h.uploaded _ _ hup) (h.live _ hlive)
  have hnone : (s'.rows blob.2).isSome = false := by rw [h.rows, hrow, Option.isSome_none]
  refine ⟨(h.restored _ _ hdel).resolve_right (by simp [hrow]), ?_⟩
  simpa using hnone

/-! ## Files -/

theorem files_setFile {file : File} {v' : VaultID} {b' : BlobID} :
    (s.setFile v b file).files v' b' = if v' = v ∧ b' = b then file else s.files v' b' := by
  unfold Store.setFile
  by_cases hv : v' = v
  · subst hv
    by_cases hb : b' = b <;> simp [hb]
  · simp [hv]

theorem Evolves.setFile {file : File} (hup : file.uploaded → (s.files v b).uploaded)
    (hdel : (s.files v b).userDeleted → file.userDeleted ∨ (s.rows b).isSome)
    (hremoved : (s.files v b).removed → file.removed) : Evolves s (s.setFile v b file) where
  lost := rfl
  rows _ := rfl
  live _ h := h
  uploaded v' b' h := by
    rw [files_setFile] at h
    split at h
    · next heq =>
        rw [heq.1, heq.2]
        exact hup h
    · exact h
  restored v' b' h := by
    rw [files_setFile]
    split
    · next heq =>
        rw [heq.1, heq.2] at h
        rw [heq.2]
        exact hdel h
    · exact .inl h
  stored _ _ h := .inl h
  removed v' b' h := by
    rw [files_setFile]
    split
    · next heq =>
        rw [heq.1, heq.2] at h
        exact hremoved h
    · exact h

theorem Evolves.markRow {deleted : Bool} : Evolves s (s.markRow v b deleted) where
  lost := rfl
  rows b' := by
    unfold Store.markRow
    by_cases hb : b' = b
    · subst hb
      simp
    · simp [hb]
  live _ h := h
  uploaded _ _ h := h
  restored _ _ h := .inl h
  stored _ _ h := .inl h
  removed _ _ h := h

theorem softDelete_evolves (e : Execution) : Evolves s (softDelete s v b e) := by
  unfold softDelete
  split
  · split
    · exact Evolves.markRow.trans (Evolves.setFile (fun h => h) (fun _ => .inl rfl) (fun h => h))
    · exact Evolves.refl
  · exact Evolves.refl

theorem restore_evolves (e : Execution) : Evolves s (restore s v b e) := by
  unfold restore
  split
  · next row hrow =>
      split
      · refine Evolves.markRow.trans (Evolves.setFile (fun h => h) (fun _ => .inr ?_) (fun h => h))
        have hsome : (s.rows b).isSome := by
          simp [(Option.filter_eq_some_iff.mp hrow).1]
        rw [Evolves.markRow.rows b]
        exact hsome
      · exact Evolves.refl
  · exact Evolves.refl

theorem deleteVault_evolves : Evolves s (deleteVault s v) where
  lost := rfl
  rows _ := rfl
  live v' h := by
    obtain ⟨row, hrow, hlive⟩ := h
    unfold deleteVault at hrow
    by_cases hv : v' = v
    · subst hv
      simp only [Function.update_self, Option.mem_def, Option.map_eq_some_iff] at hrow
      obtain ⟨old, -, rfl⟩ := hrow
      cases hlive
    · simp only [ne_eq, hv, not_false_eq_true, Function.update_of_ne] at hrow
      exact ⟨row, hrow, hlive⟩
  uploaded _ _ h := h
  restored _ _ h := .inl h
  stored _ _ h := .inl h
  removed _ _ h := h

theorem Evolves.service {next : Service} (htables : SameTables s.service next)
    (hobjects : ∀ v b, (s.service.objects (.blob v b)).isSome → (next.objects (.blob v b)).isSome) :
    Evolves s { s with service := next } where
  lost := rfl
  rows _ := rfl
  live v h := by
    obtain ⟨row, hrow, hlive⟩ := h
    have hrow' : row ∈ next.vaults v := hrow
    rw [htables.vaults] at hrow'
    exact ⟨row, hrow', hlive⟩
  uploaded _ _ h := h
  restored _ _ h := .inl h
  stored v b h := .inl (hobjects v b h)
  removed _ _ h := h

theorem Evolves.removing {next : Service} (htables : SameTables s.service next)
    (hothers : ∀ k, k ≠ .blob v b → next.objects k = s.service.objects k) :
    Evolves s ({ s with service := next }.setFile v b (Store.after.gone s next v b)) where
  lost := rfl
  rows _ := rfl
  live v h := by
    obtain ⟨row, hrow, hlive⟩ := h
    have hrow' : row ∈ next.vaults v := hrow
    rw [htables.vaults] at hrow'
    exact ⟨row, hrow', hlive⟩
  uploaded v' b' h := by
    rw [files_setFile] at h
    split at h
    · next heq =>
        rw [heq.1, heq.2]
        exact h
    · exact h
  restored v' b' h := by
    left
    rw [files_setFile]
    split
    · next heq =>
        rw [heq.1, heq.2] at h
        exact h
    · exact h
  stored v' b' h := by
    rw [files_setFile]
    by_cases heq : v' = v ∧ b' = b
    · obtain ⟨rfl, rfl⟩ := heq
      cases hnext : next.objects (.blob v' b') with
      | some object => exact .inl (by simp [Store.setFile, hnext])
      | none => exact .inr (by simp [Store.after.gone, h, hnext])
    · left
      show (next.objects (.blob v' b')).isSome
      rw [hothers _ (by simpa using heq)]
      exact h
  removed v' b' h := by
    rw [files_setFile]
    split
    · next heq =>
        rw [heq.1, heq.2] at h
        simp [Store.after.gone, h]
    · exact h

/-- **A storage request** that is not an upload. -/
theorem request_evolves {req : Request}
    (hput : ∀ v b size, req = .put v b size → ¬s.service.signed v b) :
    Evolves s (request s userID req) := by
  have htables : SameTables s.service (s.service.handle userID req) := handle_tables req
  have hsame : ∀ {next : Service}, next.objects = s.service.objects → ∀ v b,
      (s.service.objects (.blob v b)).isSome → (next.objects (.blob v b)).isSome := by
    intro next heq v b h
    rwa [heq]
  unfold request
  cases req with
  | wait d => exact Evolves.service htables (hsame rfl)
  | uploadURL v b fileSize contentType oc =>
    exact Evolves.service htables (hsame (uploadURL_objects oc))
  | put v b size =>
    have hnot := hput v b size rfl
    dsimp only
    rw [Store.after, if_neg hnot]
    refine Evolves.service htables (hsame ?_)
    show (s.service.putBlob userID v b size).objects = _
    rw [Service.putBlob, if_neg hnot]
  | confirm v b oc =>
    refine Evolves.removing htables ?_
    intro k hk
    show (s.service.confirmUpload userID v b oc).1.objects k = _
    rcases confirm_cases oc with ⟨-, hdelete⟩ | ⟨-, heq⟩
    · rw [hdelete, Bucket.deleteObject_ne _ hk]
    · rw [heq]
  | delete v b oc =>
    have hafter : Evolves s (s.after (s.service.handle userID (.delete v b oc)) (.delete v b oc)) := by
      refine Evolves.removing htables ?_
      intro k hk
      show (s.service.deleteBlob userID v b oc).1.objects k = _
      rcases delete_cases oc with heq | ⟨-, hdelete⟩
      · rw [heq]
      · exact hdelete.others k hk
    dsimp only
    split
    · refine hafter.trans (Evolves.markRow.trans (Evolves.setFile ?_ ?_ ?_))
      · exact fun h => h
      · exact fun _ => .inl rfl
      · exact fun h => h
    · exact hafter
  | initiate v f totalSize oc => exact Evolves.service htables (hsame (initiate_objects oc))
  | part v uploadID part oc => exact Evolves.service htables (hsame (part_objects oc))
  | finalize v uploadID oc =>
    refine Evolves.service htables ?_
    intro v' b' h
    show ((s.service.finalizeUpload userID v uploadID oc).1.objects (.blob v' b')).isSome
    rcases finalize_cases oc with ⟨upload, -, hreplaces⟩ | ⟨-, heq⟩
    · rw [hreplaces.others (.blob v' b') (by simp [MultipartUpload.key])]
      exact h
    · rw [heq]
      exact h
  | abort v uploadID oc => exact Evolves.service htables (hsame (abort_objects oc))

/-! ## An upload -/

theorem put_store {size : Nat} (hsigned : s.service.signed v b) :
    request s userID (.put v b size) =
      { s with service := s.service.putBlob userID v b size }.setFile v b ⟨true, false, false⟩ := by
  unfold request
  dsimp only
  rw [Store.after, if_pos hsigned]
  rfl

theorem put_objects {size : Nat} {k : ObjectKey} (hsigned : s.service.signed v b) :
    (s.service.putBlob userID v b size).objects k
      = if k = .blob v b then some ⟨size, userID⟩ else s.service.objects k := by
  rw [Service.putBlob, if_pos hsigned]
  split
  · next hk =>
      subst hk
      exact Bucket.putObject_self _
  · next hk => exact Bucket.putObject_ne _ hk

theorem live_put {size : Nat} {v' : VaultID} (hsigned : s.service.signed v b) :
    (request s userID (.put v b size)).Live v' ↔ s.Live v' := by
  rw [put_store hsigned]
  show (∃ row ∈ (s.service.putBlob userID v b size).vaults v', _) ↔ _
  rw [Service.putBlob, if_pos hsigned]
  rfl

theorem Kept.put {size : Nat} (h : Kept s) (hsigned : s.service.signed v b) :
    Kept (request s userID (.put v b size)) := by
  constructor
  · rw [put_store hsigned]
    exact h.lost
  · intro v' b' hup hlive hremoved hrow
    rw [live_put hsigned] at hlive
    rw [put_store hsigned] at hup hremoved hrow ⊢
    show ((s.service.putBlob userID v b size).objects (.blob v' b')).isSome
    rw [put_objects hsigned]
    rw [files_setFile] at hup hremoved hrow
    by_cases heq : v' = v ∧ b' = b
    · simp [heq]
    · rw [if_neg heq] at hup hremoved hrow
      rw [if_neg (by simpa using heq)]
      exact h.stored v' b' hup hlive hremoved hrow

theorem Spare.put {size : Nat} (h : Spare s blob) (hsigned : s.service.signed v b)
    (hother : s.Live v → blob ≠ (v, b)) : Spare (request s userID (.put v b size)) blob := by
  obtain ⟨v', b'⟩ := blob
  intro hup hlive
  rw [live_put hsigned] at hlive
  rw [put_store hsigned] at hup ⊢
  rw [files_setFile] at hup ⊢
  by_cases heq : v' = v ∧ b' = b
  · obtain ⟨rfl, rfl⟩ := heq
    exact absurd rfl (hother hlive)
  · rw [if_neg heq] at hup ⊢
    exact h hup hlive

/-! ## A statement of a run -/

theorem exec_store (maxDeletes : Nat) (s : Store) (job : Job) (o : Outcome) :
    (job.exec maxDeletes s o).1 = s
    ∨ ∃ blob ∈ job.orphans, (job.exec maxDeletes s o).1 = s.deleteOrphan blob := by
  unfold Job.exec
  cases hpc : job.pc with
  | listing =>
    left
    dsimp only
    split_ifs
    · rfl
    · rfl
    · rfl
    · split <;> rfl
  | selecting entries truncated =>
    left
    dsimp only
    split_ifs <;> rfl
  | deleting orphans truncated =>
    cases orphans with
    | nil => exact .inl rfl
    | cons blob orphans =>
      dsimp only
      split_ifs
      · exact .inl rfl
      · exact .inr ⟨blob, by simp [Job.orphans, hpc], rfl⟩
      · exact .inr ⟨blob, by simp [Job.orphans, hpc], rfl⟩
      · exact .inl rfl
      · exact .inl rfl
  | done failed => exact .inl rfl

theorem orphans_nextPage {deleted : Nat} {truncated : Bool} :
    Job.orphans ⟨deleted, nextPage truncated⟩ = [] := by
  unfold Job.orphans nextPage
  cases truncated <;> rfl

/-- What a run is about to delete, it was before, or it has just looked up. -/
theorem exec_orphans (h : blob ∈ (job.exec maxDeletes s o).2.orphans) :
    blob ∈ job.orphans
      ∨ ¬o.failed ∧ blob ∈ job.selected ∧ existsInDB s o blob.2 = false := by
  unfold Job.exec at h
  cases hpc : job.pc with
  | listing =>
    simp only [hpc] at h
    split_ifs at h
    · simp [Job.orphans] at h
    · simp [Job.orphans] at h
    · simp [Job.orphans] at h
    · split at h
      · simp [orphans_nextPage] at h
      · simp [Job.orphans] at h
  | selecting entries truncated =>
    simp only [hpc] at h
    split_ifs at h with hfailed
    · simp [Job.orphans] at h
    · right
      simp only [Job.orphans, List.mem_filter, Bool.not_eq_true'] at h
      exact ⟨hfailed, by simpa [Job.selected, hpc] using h.1, h.2⟩
  | deleting orphans truncated =>
    left
    simp only [Job.orphans, hpc]
    cases orphans with
    | nil => simp [hpc, orphans_nextPage] at h
    | cons first orphans =>
      simp only [hpc] at h
      split_ifs at h
      · simp [orphans_nextPage] at h
      all_goals exact List.mem_cons_of_mem _ h
  | done failed =>
    simp only [hpc] at h
    exact .inl h

theorem Spare.deleteOrphan {other : VaultID × BlobID} (h : Spare s blob) :
    Spare (s.deleteOrphan other) blob := h

/-- **A deletion** of a blob that may be deleted. -/
theorem Kept.deleteOrphan (h : Kept s) (hspare : Spare s blob) : Kept (s.deleteOrphan blob) := by
  have hnot : ¬s.Protected blob := by
    intro hprotected
    exact hprotected.2.1 (hspare hprotected.1 hprotected.2.2).1
  constructor
  · simp [Store.deleteOrphan, hnot, h.lost]
  · intro v b hup hlive hremoved hrow
    by_cases heq : blob = (v, b)
    · subst heq
      obtain ⟨hdel, hnone⟩ := hspare hup hlive
      have hsome : (s.rows b).isSome := hrow hdel
      rw [hnone] at hsome
      cases hsome
    · have hkey : ObjectKey.blob v b ≠ .blob blob.1 blob.2 := by
        intro hkey
        injection hkey with hv hb
        exact heq (by rw [hv, hb])
      show (s.service.objects.deleteObject (.blob blob.1 blob.2) (.blob v b)).isSome
      rw [Bucket.deleteObject_ne _ hkey]
      exact h.stored v b hup hlive hremoved hrow

/-! ## Runs -/

/-- An uploaded blob of a live vault: its row, if there is one, is read, and
there is one unless a user has deleted the blob. -/
def Looked (s : Store) (o : Outcome) (blob : VaultID × BlobID) : Prop :=
  (s.files blob.1 blob.2).uploaded → s.Live blob.1 →
    ((s.rows blob.2).isSome → blob.2 ∈ o.read)
      ∧ (¬(s.files blob.1 blob.2).userDeleted → (s.rows blob.2).isSome)

instance (blob : VaultID × BlobID) : Decidable (Looked s o blob) :=
  inferInstanceAs (Decidable (_ → _ → _ ∧ _))

/-- Every uploaded blob that a run looks up has a row, and its row is read;
nothing is uploaded under a key that a run is about to delete. -/
def Covered (s : State) : Action → Prop
  | .world (.request _ (.put v b _)) =>
    s.store.service.signed v b → s.store.Live v → ∀ job ∈ s.calls, (v, b) ∉ job.orphans
  | .world _ => True
  | .exec k o => ∀ job ∈ s.calls[k]?, ¬o.failed → ∀ blob ∈ job.selected, Looked s.store o blob

instance (s : State) : (a : Action) → Decidable (Covered s a)
  | .world (.request _ (.put _ _ _)) => inferInstanceAs (Decidable (_ → _ → ∀ job ∈ s.calls, _))
  | .world (.request _ (.wait _)) => isTrue trivial
  | .world (.request _ (.uploadURL _ _ _ _ _)) => isTrue trivial
  | .world (.request _ (.confirm _ _ _)) => isTrue trivial
  | .world (.request _ (.delete _ _ _)) => isTrue trivial
  | .world (.request _ (.initiate _ _ _ _)) => isTrue trivial
  | .world (.request _ (.part _ _ _ _)) => isTrue trivial
  | .world (.request _ (.finalize _ _ _)) => isTrue trivial
  | .world (.request _ (.abort _ _ _)) => isTrue trivial
  | .world (.softDelete _ _ _) => isTrue trivial
  | .world (.restore _ _ _) => isTrue trivial
  | .world (.deleteVault _) => isTrue trivial
  | .world .startJob => isTrue trivial
  | .exec k _ => inferInstanceAs (Decidable (∀ job ∈ s.calls[k]?, _ → ∀ blob ∈ job.selected, _))

theorem Looked.spare (h : Looked s o blob) (hnot : existsInDB s o blob.2 = false) :
    Spare s blob := by
  intro hup hlive
  obtain ⟨hread, hrow⟩ := h hup hlive
  have hnone : (s.rows blob.2).isSome = false := by
    by_contra hsome
    rw [Bool.not_eq_false] at hsome
    simp [existsInDB, hsome, hread hsome] at hnot
  refine ⟨?_, by simpa using hnone⟩
  by_contra hdel
  rw [hrow hdel] at hnone
  cases hnone

/-- **An event** keeps the files, and what the runs may delete. -/
theorem world_kept {st : State} {e : Event} (hok : Covered st (.world e))
    (h : Calls.Holds Kept SparesAll st) :
    Kept (world st.store e).1
      ∧ ∀ k job, st.calls[k]? = some job → SparesAll (world st.store e).1 k job := by
  have hevolves : Evolves st.store (world st.store e).1 → Kept (world st.store e).1
      ∧ ∀ k job, st.calls[k]? = some job → SparesAll (world st.store e).1 k job := by
    intro hev
    exact ⟨hev.kept h.store, fun k job hk blob hblob => hev.spare (h.call k job hk blob hblob)⟩
  cases e with
  | request userID req =>
    by_cases hput : ∃ v b size, req = .put v b size ∧ st.store.service.signed v b
    · obtain ⟨v, b, size, rfl, hsigned⟩ := hput
      refine ⟨h.store.put hsigned, ?_⟩
      intro k job hk blob hblob
      refine (h.call k job hk blob hblob).put hsigned ?_
      rintro hlive rfl
      exact hok hsigned hlive job (List.mem_of_getElem? hk) hblob
    · refine hevolves (request_evolves ?_)
      intro v b size hreq hsigned
      exact hput ⟨v, b, size, hreq, hsigned⟩
  | softDelete v b e => exact hevolves (softDelete_evolves e)
  | restore v b e => exact hevolves (restore_evolves e)
  | deleteVault v => exact hevolves deleteVault_evolves
  | startJob => exact hevolves Evolves.refl

/-- **A statement of a run** keeps the files, and what the runs may delete. -/
theorem exec_kept (maxDeletes : Nat) {st : State} {k : Nat} (hok : Covered st (.exec k o))
    (hk : st.calls[k]? = some job) (h : Calls.Holds Kept SparesAll st) :
    Kept (job.exec maxDeletes st.store o).1
      ∧ SparesAll (job.exec maxDeletes st.store o).1 k (job.exec maxDeletes st.store o).2
      ∧ ∀ j other, SparesAll st.store j other →
          SparesAll (job.exec maxDeletes st.store o).1 j other := by
  have hself := h.call k job hk
  have hspare : ∀ blob, Spare st.store blob → Spare (job.exec maxDeletes st.store o).1 blob := by
    intro blob hblob
    rcases exec_store maxDeletes st.store job o with
      heq | ⟨deleted, -, heq⟩
    · rwa [heq]
    · rw [heq]
      exact hblob.deleteOrphan
  refine ⟨?_, ?_, fun j other hother blob hblob => hspare blob (hother blob hblob)⟩
  · rcases exec_store maxDeletes st.store job o with
      heq | ⟨deleted, hmem, heq⟩
    · rw [heq]
      exact h.store
    · rw [heq]
      exact h.store.deleteOrphan (hself deleted hmem)
  · intro blob hblob
    refine hspare blob ?_
    rcases exec_orphans hblob with hmem | ⟨hfailed, hmem, hnot⟩
    · exact hself blob hmem
    · exact (hok job (Option.mem_def.mpr hk) hfailed blob hmem).spare hnot

/-- No file of a user is deleted by the job, and those that no request has
removed are in the bucket. -/
def OrphanSafe (s : State) : Prop :=
  s.store.lost = [] ∧ ∀ v b, s.store.Protected (v, b) → ¬(s.store.files v b).removed →
    (s.store.service.objects (.blob v b)).isSome

/-- **The job and the users' files**: in every run in which the uploaded blobs
that the job looks up have rows. -/
theorem orphan_safe {initial : Service} {rows : BlobID → Option BlobRow} {actions : List Action}
    (hrun : Run.Each (service maxDeletes).step Covered (start initial rows) actions) :
    OrphanSafe ((service maxDeletes).run (start initial rows) actions) := by
  have hstart : Kept (start initial rows).store := by
    refine ⟨rfl, ?_⟩
    intro v b hup
    cases hup
  have h : Calls.Holds Kept SparesAll ((service maxDeletes).run (start initial rows) actions) := by
    refine Calls.Holds.run ?_ ?_ hrun (.initial hstart)
    · intro st e h hok
      obtain ⟨hkept, hcalls⟩ := world_kept hok h
      refine ⟨hkept, fun k job hk _ => hcalls k job hk, ?_⟩
      intro job hjob
      cases e with
      | startJob =>
        obtain rfl := Option.some.inj hjob
        intro blob hblob
        simp [Job.orphans] at hblob
      | _ => cases hjob
    · intro st k job o h hok hk
      obtain ⟨hkept, hself, hothers⟩ := exec_kept maxDeletes hok hk h
      exact ⟨hkept, hself, fun j other _ _ hother => hothers j other hother⟩
  refine ⟨h.store.lost, ?_⟩
  intro v b hprotected hremoved
  exact h.store.stored v b hprotected.1 hprotected.2.2 hremoved
    (fun hdel => absurd hdel hprotected.2.1)

/-- A vault of user `a` with a live URL for blob 7. -/
def sampleService : Service where
  now := 0
  vaults := fun v => if v = 0 then some ⟨"a", false⟩ else none
  members := fun v u => if v = 0 ∧ u = "a" then some .owner else none
  objects := fun _ => none
  urls := [⟨0, 7, 900000⟩]
  uploads := fun _ => none

/-- The PUT, and a run of the job that lists the object. -/
def sampleRun : List Action :=
  let ok : Outcome := ⟨false, false, [.blob 0 7], false, [7], .done⟩
  [.world (.request "a" (.put 0 7 100)), .world .startJob, .exec 0 ok, .exec 0 ok, .exec 0 ok]

/-- Where the blob has a row. -/
theorem orphan_safe_sample :
    OrphanSafe ((service 0).run
      (start sampleService fun b => if b = 7 then some ⟨0, 100, false, []⟩ else none) sampleRun) :=
  orphan_safe (by decide)

/-- No upload inserts a row, so the job deletes the file. -/
theorem upload_collected :
    ¬∀ (maxDeletes : Nat) (initial : Service) (rows : BlobID → Option BlobRow)
      (actions : List Action),
      OrphanSafe ((service maxDeletes).run (start initial rows) actions) := by
  intro h
  have hlost := (h 0 sampleService (fun _ => none) sampleRun).1
  revert hlost
  decide

end UsbVault.Storage.Gc
