import UsbVault.Storage.Parts

/-!
# Completeness of an upload

One service, an upload that `InitiateUpload` has started, and `CompletePart`
calls on it: by anyone, with any numbers in any order, each with any outcome.
What `FinalizeUpload` sends is what has been recorded; nothing compares it
with the number of parts of the plan (`finalizeUpload_complete_iff`).
-/

namespace UsbVault.Storage.Multipart

open Members

variable {ms ms' : MultipartService} {upload : Upload} {uploadID : UploadID}
variable {parts : List CompletedPart} {part : CompletedPart} {n : Int}

/-- A call of `CompletePart`, with its outcome. -/
structure PartCall where
  userID : UserID
  vaultID : VaultID
  part : CompletedPart
  o : Outcome

def MultipartService.completeParts (ms : MultipartService) (uploadID : UploadID)
    (calls : List PartCall) : MultipartService :=
  calls.foldl (fun ms c => (ms.completePart c.userID c.vaultID uploadID c.part c.o).service) ms

/-- The numbers that the calls of the upload's owner name. -/
def Upload.numbers (upload : Upload) (calls : List PartCall) : List Int :=
  (calls.filter fun c => upload.OwnedBy c.userID c.vaultID).map fun c => c.part.partNumber

/-- The recorded numbers, ascending. -/
def MultipartService.recordedNumbers (ms : MultipartService) (uploadID : UploadID) : List Int :=
  (sortPartsAscending (((ms.uploads uploadID).map (·.completeParts)).getD [])).map (·.partNumber)

/-- `1, 2, ..., totalParts` -/
def Upload.planned (upload : Upload) : List Int :=
  (List.range upload.totalParts.toNat).map fun (i : Nat) => (i : Int) + 1

/-- S3 assembles the parts, and neither the tier nor the quota refuses what
it has assembled. -/
def Outcome.Accepted (o : Outcome) : Prop :=
  o.complete = none ∧ (∃ size, o.head = .ok size ∧ size ≤ o.billing.maxFileSize)
    ∧ MultipartService.overQuota o = false

/-! ## Numbers in order -/

/-- The numbers of the parts. -/
def numbersOf (parts : List CompletedPart) : List Int := parts.map (·.partNumber)

theorem mem_numbersOf_iff : n ∈ numbersOf parts ↔ partAt n parts ≠ none := by
  rw [numbersOf, List.mem_map]
  induction parts with
  | nil => simp [partAt]
  | cons p parts ih =>
    rw [partAt]
    split
    · rename_i hp
      simp [hp]
    · rename_i hp
      simp [hp, ih]

theorem mem_numbersOf_upsertCached :
    n ∈ numbersOf (upsertCached part parts) ↔ n = part.partNumber ∨ n ∈ numbersOf parts := by
  rw [mem_numbersOf_iff, partAt_upsertCached, mem_numbersOf_iff]
  split
  · rename_i hn
    simp [hn]
  · rename_i hn
    simp [Ne.symm hn]

theorem planned_ascending : upload.planned.Pairwise (· < ·) := by
  rw [Upload.planned, List.pairwise_map]
  refine List.Pairwise.imp ?_ List.pairwise_lt_range
  intro i j hij
  omega

theorem mem_planned : n ∈ upload.planned ↔ 1 ≤ n ∧ n ≤ upload.totalParts := by
  rw [Upload.planned, List.mem_map]
  constructor
  · rintro ⟨i, hi, rfl⟩
    rw [List.mem_range] at hi
    omega
  · rintro ⟨hpos, hle⟩
    refine ⟨(n - 1).toNat, List.mem_range.mpr ?_, ?_⟩ <;> omega

/-- **Ascending numbers are those of the plan** when they are the same set. -/
theorem sorted_eq_planned_iff (h : Distinct parts) :
    (sortPartsAscending parts).map (·.partNumber) = upload.planned
      ↔ ∀ n, n ∈ numbersOf parts ↔ 1 ≤ n ∧ n ≤ upload.totalParts := by
  have hmem : ∀ n, n ∈ (sortPartsAscending parts).map (·.partNumber) ↔ n ∈ numbersOf parts :=
    fun n => ((sort_perm parts).map _).mem_iff
  constructor
  · intro heq n
    rw [← hmem, heq, mem_planned]
  · intro hall
    have hsorted : ((sortPartsAscending parts).map (·.partNumber)).Pairwise (· < ·) :=
      List.pairwise_map.mpr h.sort
    have hnodup : ∀ {l : List Int}, l.Pairwise (· < ·) → l.Nodup :=
      fun hl => hl.imp fun hlt => ne_of_lt hlt
    have hperm : ((sortPartsAscending parts).map (·.partNumber)).Perm upload.planned := by
      refine (List.perm_ext_iff_of_nodup (hnodup hsorted) (hnodup planned_ascending)).mpr ?_
      intro n
      rw [hmem, hall, mem_planned]
    exact hperm.eq_of_pairwise (fun _ _ _ _ hab hba => absurd hba (lt_asymm hab)) hsorted
      planned_ascending

/-! ## The calls -/

/-- The service tracks the upload: the cache has it with parts of distinct
numbers, and a row that the store has of it is its owner's. -/
structure Tracks (ms : MultipartService) (uploadID : UploadID) (upload : Upload)
    (numbers : List Int) : Prop where
  cached : ∃ u, ms.uploads uploadID = some u ∧ u.userID = upload.userID
    ∧ u.vaultID = upload.vaultID ∧ Distinct u.completeParts
    ∧ ∀ n, n ∈ numbersOf u.completeParts ↔ n ∈ numbers
  stored : ∀ store, ms.store = some store → ∀ u, store uploadID = some u →
    u.userID = upload.userID ∧ u.vaultID = upload.vaultID

theorem ownedBy_congr {u : Upload} {userID : UserID} {vaultID : VaultID}
    (huser : u.userID = upload.userID) (hvault : u.vaultID = upload.vaultID) :
    u.OwnedBy userID vaultID ↔ upload.OwnedBy userID vaultID := by
  rw [Upload.OwnedBy, Upload.OwnedBy, huser, hvault]

theorem loadUpload_owner {u : Upload} {userID : UserID} {vaultID : VaultID} {o : GetOutcome}
    (hcached : ms.uploads uploadID = some u) (howner : u.OwnedBy userID vaultID) :
    ms.loadUpload uploadID userID vaultID o = (ms, .ok u) := by
  have hsome : ms.authorizedUpload uploadID userID vaultID = some u := by
    rw [MultipartService.authorizedUpload, hcached]
    exact Option.filter_some_pos (by simpa using howner)
  rw [MultipartService.loadUpload, hsome]

theorem Tracks.loadUpload_other {numbers : List Int} (h : Tracks ms uploadID upload numbers)
    {userID : UserID} {vaultID : VaultID} (hother : ¬upload.OwnedBy userID vaultID)
    (o : GetOutcome) :
    ∃ text, ms.loadUpload uploadID userID vaultID o = (ms, .error text) := by
  obtain ⟨⟨u, hcached, huser, hvault, -, -⟩, hstored⟩ := h
  have hnone : ms.authorizedUpload uploadID userID vaultID = none := by
    simp [MultipartService.authorizedUpload, hcached, (ownedBy_congr huser hvault).not.mpr hother]
  rw [MultipartService.loadUpload, hnone]
  cases hstore : ms.store with
  | none => exact ⟨_, rfl⟩
  | some store =>
    simp only [Store.get]
    cases o.upload with
    | some text => exact ⟨_, rfl⟩
    | none =>
      cases hrow : store uploadID with
      | none => exact ⟨_, rfl⟩
      | some stored =>
        obtain ⟨huser', hvault'⟩ := hstored store hstore stored hrow
        have howner := (ownedBy_congr huser' hvault').not.mpr hother
        cases o.parts with
        | some fault => exact ⟨_, rfl⟩
        | none => exact ⟨errUploadNotFound, by simp [howner]⟩

theorem upsertPart_rows {store : Store} {now : Int} {o : UpsertOutcome} {u : Upload}
    (h : (store.upsertPart uploadID part now o).1 uploadID = some u) :
    ∃ u', store uploadID = some u' ∧ u.userID = u'.userID ∧ u.vaultID = u'.vaultID := by
  rw [Store.upsertPart] at h
  split at h
  · exact ⟨u, h, rfl, rfl⟩
  · split at h
    · exact ⟨u, h, rfl, rfl⟩
    · rename_i u' hrow
      split at h
      all_goals
        simp only [Function.update_self, Option.some.injEq] at h
        subst h
        exact ⟨u', hrow, rfl, rfl⟩

/-- **One call** records its number if it is the owner's. -/
theorem Tracks.completePart {numbers : List Int} (h : Tracks ms uploadID upload numbers)
    (c : PartCall) :
    Tracks (ms.completePart c.userID c.vaultID uploadID c.part c.o).service uploadID upload
      (numbers ++ upload.numbers [c]) := by
  by_cases howner : upload.OwnedBy c.userID c.vaultID
  · obtain ⟨⟨u, hcached, huser, hvault, hdistinct, hnumbers⟩, hstored⟩ := h
    have hnew : upload.numbers [c] = [c.part.partNumber] := by simp [Upload.numbers, howner]
    have hmem : ∀ n, n ∈ numbersOf (upsertCached c.part u.completeParts)
        ↔ n ∈ numbers ++ [c.part.partNumber] := by
      intro n
      rw [mem_numbersOf_upsertCached, hnumbers, List.mem_append, List.mem_singleton, or_comm]
    rw [MultipartService.completePart, MultipartService.withUpload,
      loadUpload_owner hcached ((ownedBy_congr huser hvault).mpr howner), hnew]
    simp only [MultipartService.recordPart, MultipartService.cache]
    cases hstore : ms.store with
    | none =>
      exact ⟨⟨_, Function.update_self .., huser, hvault, hdistinct.upsertCached, hmem⟩,
        fun store hnone => by cases hnone⟩
    | some store =>
      simp only
      have hrows : ∀ store' u',
          (store.upsertPart uploadID c.part c.o.now c.o.upsert).1 = store' →
          store' uploadID = some u' →
            u'.userID = upload.userID ∧ u'.vaultID = upload.vaultID := by
        rintro store' u' rfl hrow
        obtain ⟨u'', hrow, huser', hvault'⟩ := upsertPart_rows hrow
        rw [huser', hvault']
        exact hstored store hstore u'' hrow
      split
      all_goals
        rename_i store' _ hupsert
        refine ⟨⟨_, Function.update_self .., huser, hvault, hdistinct.upsertCached, hmem⟩, ?_⟩
        intro store'' heq u' hrow
        obtain rfl := Option.some.inj heq
        exact hrows _ u' (by rw [hupsert]) hrow
  · have hother : upload.numbers [c] = [] := by simp [Upload.numbers, howner]
    obtain ⟨text, hload⟩ := h.loadUpload_other howner c.o.get
    rw [MultipartService.completePart, MultipartService.withUpload, hload, hother, List.append_nil]
    exact h

/-- **Every sequence of calls.** -/
theorem Tracks.completeParts (calls : List PartCall) :
    ∀ {ms numbers}, Tracks ms uploadID upload numbers →
      Tracks (ms.completeParts uploadID calls) uploadID upload
        (numbers ++ upload.numbers calls) := by
  induction calls with
  | nil =>
    intro ms numbers h
    rwa [show upload.numbers [] = [] from rfl, List.append_nil]
  | cons c calls ih =>
    intro ms numbers h
    have hsplit : upload.numbers (c :: calls) = upload.numbers [c] ++ upload.numbers calls := by
      rw [Upload.numbers, Upload.numbers, Upload.numbers, ← List.map_append, ← List.filter_append,
        List.singleton_append]
    rw [hsplit, ← List.append_assoc]
    exact ih (h.completePart c)

theorem insert_rows {store : Store} {o : Option String} {text : String} {s' : Store}
    (h : store.insert uploadID upload o text = (s', .ok ())) :
    s' = Function.update store uploadID (some upload) := by
  unfold Store.insert at h
  split at h
  · cases h
  · split at h
    · cases h
    · cases h
      rfl

theorem newUpload_tracks {userID : UserID} {vaultID : VaultID} {fileID : BlobID}
    {totalSize now : Int}
    (hstored : ∀ store, ms.store = some store → ∀ u, store uploadID = some u →
      u = MultipartService.newUpload userID vaultID fileID totalSize now) :
    Tracks (ms.cache uploadID (MultipartService.newUpload userID vaultID fileID totalSize now))
      uploadID (MultipartService.newUpload userID vaultID fileID totalSize now) [] := by
  refine ⟨⟨_, Function.update_self .., rfl, rfl, List.Pairwise.nil, ?_⟩, ?_⟩
  · simp [numbersOf, MultipartService.newUpload]
  · intro store hstore u hrow
    rw [hstored store hstore u hrow]
    exact ⟨rfl, rfl⟩

theorem initiateUpload_tracks {userID : UserID} {vaultID : VaultID} {fileID : BlobID}
    {totalSize : Int} {o : InitiateOutcome}
    (h : (ms.initiateUpload userID vaultID fileID totalSize o).result = .ok (uploadID, upload)) :
    Tracks (ms.initiateUpload userID vaultID fileID totalSize o).service uploadID upload [] := by
  rw [MultipartService.initiateUpload] at h ⊢
  by_cases hsize : totalSize > o.billing.maxFileSize
  · rw [if_pos hsize] at h
    cases h
  · rw [if_neg hsize] at h ⊢
    cases hcreate : o.create with
    | error text =>
      simp only [hcreate] at h
      cases h
    | ok created =>
      simp only [hcreate] at h ⊢
      cases hstore : ms.store with
      | none =>
        simp only [hstore] at h ⊢
        cases h
        refine newUpload_tracks fun store hsome => ?_
        rw [hstore] at hsome
        cases hsome
      | some store =>
        simp only [hstore] at h ⊢
        cases hinsert : store.insert created (MultipartService.newUpload userID vaultID fileID
            totalSize o.now) o.insert o.duplicateKey with
        | mk store' result =>
          cases result with
          | error text =>
            simp only [hinsert] at h
            cases h
          | ok _ =>
            simp only [hinsert] at h ⊢
            cases h
            refine newUpload_tracks fun store'' hsome u hrow => ?_
            obtain rfl := Option.some.inj hsome
            rw [insert_rows hinsert, Function.update_self] at hrow
            exact (Option.some.inj hrow).symm

/-! ## The finalization -/

/-- `FinalizeUpload` succeeds for the owner whose object is accepted, and for
no one else. -/
theorem finalizeUpload_ok_iff {numbers : List Int} (h : Tracks ms uploadID upload numbers)
    {userID : UserID} {vaultID : VaultID} {o : Outcome} :
    (ms.finalizeUpload userID vaultID uploadID o).result = .ok ()
      ↔ upload.OwnedBy userID vaultID ∧ o.Accepted := by
  rw [MultipartService.finalizeUpload, MultipartService.withUpload]
  by_cases howner : upload.OwnedBy userID vaultID
  · obtain ⟨⟨u, hcached, huser, hvault, -, -⟩, -⟩ := h
    rw [loadUpload_owner hcached ((ownedBy_congr huser hvault).mpr howner)]
    simp only [howner, true_and, Outcome.Accepted]
    cases o.complete with
    | some text => simp
    | none =>
      simp only [MultipartService.checkAssembled, true_and]
      cases o.head with
      | error text => simp
      | ok size =>
        by_cases hrefused : size > o.billing.maxFileSize ∨ MultipartService.overQuota o
        · simp only [if_pos hrefused, reduceCtorEq, Except.ok.injEq, false_iff]
          rintro ⟨⟨size', rfl, hle⟩, hquota⟩
          rcases hrefused with hsize | hover
          · omega
          · rw [hquota] at hover
            cases hover
        · simp only [if_neg hrefused, true_iff, Except.ok.injEq]
          rw [not_or, not_lt, Bool.not_eq_true] at hrefused
          exact ⟨⟨size, rfl, hrefused.1⟩, hrefused.2⟩
  · obtain ⟨text, hload⟩ := h.loadUpload_other howner o.get
    rw [hload]
    simp [howner]

/-- **An upload is finalized complete just when** its owner's calls name the
numbers of the plan and no others, or its finalization is refused. -/
theorem finalizeUpload_complete_iff {userID : UserID} {vaultID : VaultID} {fileID : BlobID}
    {totalSize : Int} {initiated : InitiateOutcome}
    (hstart : (ms.initiateUpload userID vaultID fileID totalSize initiated).result
      = .ok (uploadID, upload))
    (calls : List PartCall) (finalizer : UserID) (vault : VaultID) (o : Outcome) :
    let ms' := (ms.initiateUpload userID vaultID fileID totalSize initiated).service.completeParts
      uploadID calls
    ((ms'.finalizeUpload finalizer vault uploadID o).result = .ok () →
        ms'.recordedNumbers uploadID = upload.planned)
      ↔ (∀ n, n ∈ upload.numbers calls ↔ 1 ≤ n ∧ n ≤ upload.totalParts)
        ∨ ¬upload.OwnedBy finalizer vault ∨ ¬o.Accepted := by
  intro ms'
  have htracks : Tracks ms' uploadID upload ([] ++ upload.numbers calls) :=
    (initiateUpload_tracks hstart).completeParts calls
  rw [List.nil_append] at htracks
  have hrecorded : ms'.recordedNumbers uploadID = upload.planned
      ↔ ∀ n, n ∈ upload.numbers calls ↔ 1 ≤ n ∧ n ≤ upload.totalParts := by
    obtain ⟨u, hcached, -, -, hdistinct, hnumbers⟩ := htracks.cached
    rw [MultipartService.recordedNumbers, hcached, Option.map_some, Option.getD_some,
      sorted_eq_planned_iff hdistinct]
    simp only [hnumbers]
  rw [finalizeUpload_ok_iff htracks, hrecorded]
  tauto

/-! ## A part of four -/

def sampleOutcome : Outcome where
  get := ⟨none, none⟩
  upsert := ⟨none, "foreign key", none⟩
  presign := none
  complete := none
  head := .ok 67108864
  billing := .unset
  usage := none
  abort := none
  untrack := true
  now := 0

/-- 200 MB, in four parts. -/
def sampleUpload : Answer (UploadID × Upload) :=
  MultipartService.initiateUpload ⟨fun _ => none, some fun _ => none⟩ "user-a" 1 1 209715200
    ⟨.unset, .ok 7, none, "duplicate key", 0⟩

def sampleCall (number : Int) : PartCall :=
  ⟨"user-a", 1, ⟨number, "etag", 67108864⟩, sampleOutcome⟩

theorem finalizeUpload_complete_sample :
    let ms' := sampleUpload.service.completeParts 7
      [sampleCall 3, sampleCall 1, sampleCall 3, sampleCall 4, sampleCall 2]
    (ms'.finalizeUpload "user-a" 1 7 sampleOutcome).result = .ok () →
      ms'.recordedNumbers 7 = [1, 2, 3, 4] := by
  intro ms'
  have hstart : sampleUpload.result
      = .ok (7, MultipartService.newUpload "user-a" 1 1 209715200 0) := rfl
  have hnumbers : (MultipartService.newUpload "user-a" 1 1 209715200 0).numbers
      [sampleCall 3, sampleCall 1, sampleCall 3, sampleCall 4, sampleCall 2]
      = [3, 1, 3, 4, 2] := by decide +kernel
  have htotal : (MultipartService.newUpload "user-a" 1 1 209715200 0).totalParts = 4 := by
    decide +kernel
  refine (finalizeUpload_complete_iff hstart _ _ _ _).mpr (.inl fun n => ?_)
  rw [hnumbers, htotal]
  simp only [List.mem_cons, List.not_mem_nil, or_false]
  omega

/-- **A part of four is enough**: the second part alone is recorded, and the
upload is finalized. -/
theorem finalizeUpload_incomplete :
    let ms' := sampleUpload.service.completeParts 7 [sampleCall 2]
    (ms'.finalizeUpload "user-a" 1 7 sampleOutcome).result = .ok ()
      ∧ ms'.recordedNumbers 7 = [2]
      ∧ (sampleUpload.result.toOption.map fun r => r.2.planned) = some [1, 2, 3, 4] := by
  decide +kernel

end UsbVault.Storage.Multipart
