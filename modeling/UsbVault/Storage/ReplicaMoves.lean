import UsbVault.Storage.Parts
import UsbVault.Storage.Replicas

/-!
# What the statements of the replicas do

Every statement of a call by what it does to the objects in memory and to the
rows (`Move`), what it keeps of them (`Global`, `Local`), and which of them
sends a list of parts to S3 (`sent_exec`).
-/

namespace UsbVault.Storage.Multipart.Replicas

open Members

/-- The tables and the memory: rows and objects are of identifiers that have
been issued, and a cached pointer leads to an object of its upload. -/
structure Global (f : Fleet) : Prop where
  row : ∀ X row, f.store X = some row → f.issued X = true ∧ Ascending row.completeParts
  object : ∀ (i : Nat) (object : Object), f.objects[i]? = some object → f.issued object.uploadID = true
  cached : ∀ replica X i, f.cached replica X = some i →
    ∃ object : Object, f.objects[i]? = some object ∧ object.uploadID = X

/-- What a call has loaded or read is of the upload it names. -/
def Local (f : Fleet) (_ : Nat) (call : Call) : Prop :=
  match call.phase with
  | .getParts _ => f.issued call.uploadID = true
  | .cache _ => f.issued call.uploadID = true
  | .loaded i => ∃ object, f.objects[i]? = some object ∧ object.uploadID = call.uploadID
  | _ => True

theorem Global.start : Global start.store := by
  refine ⟨?_, ?_, ?_⟩
  · intro X row hrow
    cases hrow
  · intro i object hobject
    simp [Replicas.start] at hobject
  · intro replica X i hcached
    cases hcached

/-! ## Operations on the fleet -/

variable {f g : Fleet} {call : Call} {k : Nat} {X : UploadID} {part : CompletedPart}

theorem objects_place_of_lt (replica : ReplicaID) (X : UploadID) (upload : Upload) {i : Nat}
    (h : i < f.objects.length) : (f.place replica X upload).objects[i]? = f.objects[i]? :=
  List.getElem?_append_left h

theorem objects_place_length (replica : ReplicaID) (X : UploadID) (upload : Upload) :
    (f.place replica X upload).objects[f.objects.length]? = some ⟨X, upload⟩ :=
  List.getElem?_concat_length

/-- Objects stay, and their identifiers with them. -/
structure Extends (f g : Fleet) : Prop where
  issued : ∀ X, f.issued X = true → g.issued X = true
  object : ∀ (i : Nat) (object : Object), f.objects[i]? = some object →
    ∃ object' : Object, g.objects[i]? = some object' ∧ object'.uploadID = object.uploadID

theorem Extends.refl (f : Fleet) : Extends f f :=
  ⟨fun _ h => h, fun _ object h => ⟨object, h, rfl⟩⟩

theorem Extends.of_same (hissued : g.issued = f.issued) (hobjects : g.objects = f.objects) :
    Extends f g := by
  refine ⟨fun X h => by rwa [hissued], fun i object h => ⟨object, by rwa [hobjects], rfl⟩⟩

theorem Extends.place (replica : ReplicaID) (X : UploadID) (upload : Upload) :
    Extends f (f.place replica X upload) := by
  refine ⟨fun _ h => h, fun i object h => ⟨object, ?_, rfl⟩⟩
  rw [objects_place_of_lt replica X upload (List.getElem?_eq_some_iff.mp h).1, h]

theorem Extends.setObject {i : Nat} {object updated : Object} (hobject : f.objects[i]? = some object)
    (hid : updated.uploadID = object.uploadID) : Extends f (f.setObject i updated) := by
  refine ⟨fun _ h => h, fun j before h => ?_⟩
  show ∃ after, (f.objects.set i updated)[j]? = some after ∧ after.uploadID = before.uploadID
  by_cases hij : i = j
  · subst hij
    obtain ⟨hlt, -⟩ := List.getElem?_eq_some_iff.mp hobject
    rw [hobject] at h
    obtain rfl := Option.some.inj h
    exact ⟨updated, List.getElem?_set_self hlt, hid⟩
  · exact ⟨before, by rw [List.getElem?_set_ne hij, h], rfl⟩

theorem Local.mono (h : Extends f g) {j : Nat} (hcall : Local f j call) : Local g j call := by
  rw [Local] at hcall ⊢
  cases hphase : call.phase <;> simp only [hphase] at hcall ⊢
  case getParts => exact h.issued _ hcall
  case cache => exact h.issued _ hcall
  case loaded i =>
    obtain ⟨object, hobject, hid⟩ := hcall
    obtain ⟨object', hobject', hid'⟩ := h.object i object hobject
    exact ⟨object', hobject', hid'.trans hid⟩

theorem store_setRow_self {row : Option Upload} : (f.setRow X row).store X = row := by
  simp [Fleet.setRow]

theorem store_setRow_ne {Y : UploadID} (h : Y ≠ X) {row : Option Upload} :
    (f.setRow X row).store Y = f.store Y := by
  simp [Fleet.setRow, h]

theorem parts_of_row {row : Upload} (h : f.store X = some row) :
    f.parts X = row.completeParts := by
  rw [Fleet.parts, h]

theorem cached_setCached {replica r : ReplicaID} {Y : UploadID} {i : Option Nat} :
    (f.setCached replica X i).cached r Y
      = if r = replica ∧ Y = X then i else f.cached r Y := by
  by_cases hr : r = replica
  · subst hr
    by_cases hY : Y = X
    · subst hY
      simp [Fleet.setCached]
    · simp [Fleet.setCached, hY]
  · simp [Fleet.setCached, hr]

theorem Global.send (h : Global f) (requests : List S3Request) : Global (f.send requests) :=
  ⟨h.row, h.object, h.cached⟩

theorem Global.place (h : Global f) (hissued : f.issued X = true) (replica : ReplicaID)
    (upload : Upload) : Global (f.place replica X upload) := by
  refine ⟨h.row, ?_, ?_⟩
  · intro i object hobject
    rcases List.mem_append.mp (List.mem_of_getElem? hobject) with hold | hnew
    · obtain ⟨j, hj⟩ := List.getElem?_of_mem hold
      exact h.object j object hj
    · rw [List.mem_singleton.mp hnew]
      exact hissued
  · intro r Y i hcached
    rw [Fleet.place, cached_setCached] at hcached
    split at hcached
    case isTrue hself =>
      obtain rfl := Option.some.inj hcached
      exact ⟨⟨X, upload⟩, objects_place_length replica X upload, hself.2.symm⟩
    case isFalse =>
      obtain ⟨object, hobject, hid⟩ := h.cached r Y i hcached
      obtain ⟨object', hobject', hsame⟩ := (Extends.place replica X upload).object i object hobject
      exact ⟨object', hobject', hsame.trans hid⟩

theorem Global.setObject (h : Global f) {i : Nat} {object updated : Object}
    (hobject : f.objects[i]? = some object) (hid : updated.uploadID = object.uploadID) :
    Global (f.setObject i updated) := by
  have hextends : Extends f (f.setObject i updated) := Extends.setObject hobject hid
  refine ⟨h.row, ?_, ?_⟩
  · intro j after hafter
    rcases List.mem_or_eq_of_mem_set (List.mem_of_getElem? hafter) with hold | rfl
    · obtain ⟨j', hj'⟩ := List.getElem?_of_mem hold
      exact h.object j' after hj'
    · rw [hid]
      exact h.object i object hobject
  · intro r Y j hcached
    obtain ⟨before, hbefore, hY⟩ := h.cached r Y j hcached
    obtain ⟨after, hafter, hsame⟩ := hextends.object j before hbefore
    exact ⟨after, hafter, hsame.trans hY⟩

theorem Global.setRow (h : Global f) {row : Option Upload}
    (hrow : ∀ upload, row = some upload →
      f.issued X = true ∧ Ascending upload.completeParts) : Global (f.setRow X row) := by
  refine ⟨?_, h.object, h.cached⟩
  intro Y upload hY
  by_cases hYX : Y = X
  · subst hYX
    rw [store_setRow_self] at hY
    exact hrow upload hY
  · rw [store_setRow_ne hYX] at hY
    exact h.row Y upload hY

/-! ## What a statement does -/

/-- Phases that hold nothing of an upload. -/
def Phase.Plain : Phase → Prop
  | .getParts _ => False
  | .cache _ => False
  | .loaded _ => False
  | .insertPart _ => False
  | _ => True

/-- Rows keep their parts or go, and nothing is cached anew. -/
structure Fades (f g : Fleet) : Prop where
  row : ∀ X row, g.store X = some row →
    ∃ before, f.store X = some before ∧ before.completeParts = row.completeParts
  objects : g.objects = f.objects
  issued : g.issued = f.issued
  cached : ∀ replica X i, g.cached replica X = some i → f.cached replica X = some i

theorem Fades.refl (f : Fleet) : Fades f f :=
  ⟨fun _ row h => ⟨row, h, rfl⟩, rfl, rfl, fun _ _ _ h => h⟩

theorem Fades.send (requests : List S3Request) : Fades f (f.send requests) :=
  ⟨fun _ row h => ⟨row, h, rfl⟩, rfl, rfl, fun _ _ _ h => h⟩

theorem Fades.uncache (replica : ReplicaID) (X : UploadID) :
    Fades f (f.setCached replica X none) := by
  refine ⟨fun _ row h => ⟨row, h, rfl⟩, rfl, rfl, ?_⟩
  intro r Y i h
  rw [cached_setCached] at h
  split at h
  · cases h
  · exact h

theorem Fades.setRow {row : Option Upload}
    (hrow : ∀ upload, row = some upload →
      ∃ before, f.store X = some before ∧ before.completeParts = upload.completeParts) :
    Fades f (f.setRow X row) := by
  refine ⟨?_, rfl, rfl, fun _ _ _ h => h⟩
  intro Y upload hY
  by_cases hYX : Y = X
  · subst hYX
    rw [store_setRow_self] at hY
    exact hrow upload hY
  · rw [store_setRow_ne hYX] at hY
    exact ⟨upload, hY, rfl⟩

/-- The statements of a call, by what they do to the copies. -/
inductive Move (f : Fleet) (call : Call) (o : Outcome) : Fleet → Phase → Prop
  | plain {g : Fleet} {phase : Phase} (hfades : Fades f g) (hplain : phase.Plain)
      (hidle : ∀ part, call.phase ≠ .insertPart part) : Move f call o g phase
  | hit {i : Nat} (hcached : f.cached call.replica call.uploadID = some i)
      (hidle : ∀ part, call.phase ≠ .insertPart part) : Move f call o f (.loaded i)
  | row {row : Upload} (hrow : f.store call.uploadID = some row)
      (hidle : ∀ part, call.phase ≠ .insertPart part) : Move f call o f (.getParts row)
  | read {row stored : Upload} (hphase : call.phase = .getParts row)
      (hparts : stored.completeParts = f.parts call.uploadID) : Move f call o f (.cache stored)
  | place {stored : Upload} (hphase : call.phase = .cache stored) :
      Move f call o (f.place call.replica call.uploadID stored) (.loaded f.objects.length)
  | record {i : Nat} {object updated : Object} {part : CompletedPart}
      (hphase : call.phase = .loaded i) (hobject : f.objects[i]? = some object)
      (hid : updated.uploadID = object.uploadID)
      (hparts : updated.upload.completeParts = upsertCached part object.upload.completeParts) :
      Move f call o (f.setObject i updated) (.insertPart part)
  | insert {part : CompletedPart} {row recorded : Upload}
      (hphase : call.phase = .insertPart part) (hpart : o.upsert.part = none)
      (hrow : f.store call.uploadID = some row)
      (hparts : recorded.completeParts = upsertStored part row.completeParts) :
      Move f call o (f.setRow call.uploadID (some recorded)) .touch
  | failed {part : CompletedPart} {phase : Phase} (hphase : call.phase = .insertPart part)
      (hplain : phase.Plain)
      (hpart : o.upsert.part ≠ none ∨ f.store call.uploadID = none) : Move f call o f phase
  | stay : Move f call o f call.phase

/-- The outcome of the statement: a move, and nothing of the call but its
phase changes. -/
def Moves (k : Nat) (f : Fleet) (call : Call) (o : Outcome) : Prop :=
  ∃ g phase, exec k f call o = (g, call.next phase) ∧ Move f call o g phase

theorem moves_onObject {k : Nat} {o : Outcome} {i : Nat} {object : Object}
    (hphase : call.phase = .loaded i) (hobject : f.objects[i]? = some object) :
    Moves k f call o := by
  have hidle : ∀ part, call.phase ≠ .insertPart part := by simp [hphase]
  have hexec : exec k f call o = onObject f call i object o := by simp only [exec, hphase, hobject]
  rw [Moves, hexec]
  cases hrequest : call.request with
  | completePart part =>
    simp only [onObject, hrequest]
    exact ⟨_, _, rfl, .record hphase hobject rfl rfl⟩
  | finalizeUpload =>
    cases hcomplete : o.complete with
    | some text =>
      simp only [onObject, hrequest, hcomplete]
      exact ⟨_, _, rfl, .plain (.send _) trivial hidle⟩
    | none =>
      simp only [onObject, hrequest, hcomplete]
      exact ⟨_, _, rfl, .plain (.send _) trivial hidle⟩
  | getUploadProgress =>
    simp only [onObject, hrequest]
    exact ⟨_, _, rfl, .plain (.refl f) trivial hidle⟩

theorem moves_insertPart {k : Nat} {o : Outcome} (hphase : call.phase = .insertPart part) :
    Moves k f call o := by
  rw [Moves]
  simp only [exec, hphase]
  cases hpart : o.upsert.part with
  | some text => exact ⟨_, _, rfl, .failed hphase trivial (.inl (by simp [hpart]))⟩
  | none =>
    cases hrow : f.store call.uploadID with
    | none => exact ⟨_, _, rfl, .failed hphase trivial (.inr hrow)⟩
    | some row => exact ⟨_, _, rfl, .insert hphase hpart hrow rfl⟩

/-- **Every statement** is such a move. -/
theorem moves_exec (k : Nat) (f : Fleet) (call : Call) (o : Outcome) : Moves k f call o := by
  by_cases hinsert : ∃ part, call.phase = .insertPart part
  · obtain ⟨part, hphase⟩ := hinsert
    exact moves_insertPart hphase
  have hidle : ∀ part, call.phase ≠ .insertPart part := fun part h => hinsert ⟨part, h⟩
  rw [Moves]
  cases hphase : call.phase with
  | insertPart part => exact absurd hphase (hidle part)
  | authorize =>
    simp only [exec, hphase]
    cases hcached : f.authorized call with
    | some i => exact ⟨_, _, rfl, .hit (Option.filter_eq_some_iff.mp hcached).1 hidle⟩
    | none => exact ⟨_, _, rfl, .plain (.refl f) trivial hidle⟩
  | getUpload =>
    simp only [exec, hphase]
    cases o.get.upload with
    | some text => exact ⟨_, _, rfl, .plain (.refl f) trivial hidle⟩
    | none =>
      cases hrow : f.store call.uploadID with
      | none => exact ⟨_, _, rfl, .plain (.refl f) trivial hidle⟩
      | some row => exact ⟨_, _, rfl, .row hrow hidle⟩
  | getParts row =>
    simp only [exec, hphase]
    cases o.get.parts with
    | some fault => exact ⟨_, _, rfl, .plain (.refl f) trivial hidle⟩
    | none =>
      by_cases howned : row.OwnedBy call.userID call.vaultID
      · simp only [howned, if_true]
        exact ⟨_, _, rfl, .read hphase rfl⟩
      · simp only [howned, if_false]
        exact ⟨_, _, rfl, .plain (.refl f) trivial hidle⟩
  | cache stored =>
    simp only [exec, hphase]
    cases hcached : f.cached call.replica call.uploadID with
    | some existing => exact ⟨_, _, rfl, .hit hcached hidle⟩
    | none => exact ⟨_, _, rfl, .place hphase⟩
  | loaded i =>
    cases hobject : f.objects[i]? with
    | some object => exact moves_onObject hphase hobject
    | none =>
      simp only [exec, hphase, hobject]
      exact ⟨f, call.phase, rfl, .stay⟩
  | touch =>
    simp only [exec, hphase]
    cases o.upsert.touch with
    | some text => exact ⟨_, _, rfl, .plain (.refl f) trivial hidle⟩
    | none =>
      refine ⟨_, _, rfl, .plain (.setRow ?_) trivial hidle⟩
      intro upload hupload
      obtain ⟨before, hbefore, rfl⟩ := Option.map_eq_some_iff.mp hupload
      exact ⟨before, hbefore, rfl⟩
  | check key =>
    simp only [exec, hphase]
    exact ⟨_, _, rfl, .plain (.send _) trivial hidle⟩
  | uncache result =>
    simp only [exec, hphase]
    exact ⟨_, _, rfl, .plain (.uncache _ _) trivial hidle⟩
  | delete result =>
    simp only [exec, hphase]
    refine ⟨_, _, rfl, .plain ?_ trivial hidle⟩
    split
    · exact .setRow (by simp)
    · exact .refl f
  | done result =>
    simp only [exec, hphase]
    exact ⟨f, call.phase, rfl, .stay⟩

/-! ## Tables and memory -/

section Memory

variable {o : Outcome} {phase : Phase}

theorem Fades.global (hfades : Fades f g) (h : Global f) : Global g := by
  refine ⟨?_, ?_, ?_⟩
  · intro X row hrow
    obtain ⟨before, hbefore, hparts⟩ := hfades.row X row hrow
    obtain ⟨hissued, hascending⟩ := h.row X before hbefore
    exact ⟨by rw [hfades.issued, hissued], by rwa [← hparts]⟩
  · intro i object hobject
    rw [hfades.objects] at hobject
    rw [hfades.issued, h.object i object hobject]
  · intro replica X i hcached
    rw [hfades.objects]
    exact h.cached replica X i (hfades.cached replica X i hcached)

theorem Move.extends (hmove : Move f call o g phase) : Extends f g := by
  cases hmove with
  | plain hfades => exact .of_same hfades.issued hfades.objects
  | hit | row | read | failed | stay => exact .refl f
  | place => exact .place _ _ _
  | record hphase hobject hid => exact .setObject hobject hid
  | insert => exact .of_same rfl rfl

theorem Move.global (hmove : Move f call o g phase) (h : Global f) (hcall : Local f k call) :
    Global g := by
  cases hmove with
  | plain hfades => exact hfades.global h
  | hit | row | read | failed | stay => exact h
  | place hphase =>
    rw [Local, hphase] at hcall
    exact h.place hcall _ _
  | record hphase hobject hid => exact h.setObject hobject hid
  | @insert part row recorded hphase hpart hrow hparts =>
    obtain ⟨hissued, hascending⟩ := h.row _ row hrow
    refine h.setRow ?_
    intro upload hupload
    obtain rfl := Option.some.inj hupload
    exact ⟨hissued, by rw [hparts]; exact hascending.upsertStored⟩

theorem Phase.Plain.local (h : phase.Plain) : Local g k (call.next phase) := by
  cases phase <;> trivial

theorem Move.local (hmove : Move f call o g phase) (h : Global f) (hcall : Local f k call) :
    Local g k (call.next phase) := by
  cases hmove with
  | plain _ hplain => exact hplain.local
  | hit hcached => exact h.cached _ _ _ hcached
  | row hrow => exact (h.row _ _ hrow).1
  | read hphase =>
    rw [Local, hphase] at hcall
    exact hcall
  | place => exact ⟨_, objects_place_length _ _ _, rfl⟩
  | record => trivial
  | insert => trivial
  | failed _ hplain => exact hplain.local
  | stay => exact hcall

/-- The fleet after an initiation that is tracked. -/
def Fleet.track (f : Fleet) (replica : ReplicaID) (X : UploadID) (upload : Upload)
    (requests : List S3Request) : Fleet :=
  (((f.setRow X (some upload)).send requests).issue X).place replica X upload

/-- **An initiation** tracks a new upload without parts, or nothing. -/
theorem initiate_cases (f : Fleet) (replica : ReplicaID) (userID : UserID) (vaultID : VaultID)
    (fileID : BlobID) (totalSize : Int) (o : InitiateOutcome) :
    ∃ requests, (∀ key X parts, .complete key X parts ∉ requests)
      ∧ (f.initiate replica userID vaultID fileID totalSize o = f.send requests
        ∨ ∃ X upload, o.create = .ok X ∧ upload.completeParts = []
          ∧ f.initiate replica userID vaultID fileID totalSize o
              = f.track replica X upload requests) := by
  by_cases htier : totalSize > o.billing.maxFileSize
  · refine ⟨[], by simp, .inl ?_⟩
    simp only [Fleet.initiate, MultipartService.initiateUpload, htier, if_true]
    rfl
  let upload := MultipartService.newUpload userID vaultID fileID totalSize o.now
  cases hcreate : o.create with
  | error text =>
    refine ⟨[.create upload.key], by simp, .inl ?_⟩
    simp only [Fleet.initiate, MultipartService.initiateUpload, htier, if_false, hcreate]
    rfl
  | ok X =>
    cases hinsert : o.insert with
    | some text =>
      refine ⟨[.create upload.key, .abort upload.key X], by simp, .inl ?_⟩
      simp only [Fleet.initiate, MultipartService.initiateUpload, htier, if_false, hcreate,
        Store.insert, hinsert]
      rfl
    | none =>
      cases hrow : f.store X with
      | some row =>
        refine ⟨[.create upload.key, .abort upload.key X], by simp, .inl ?_⟩
        simp only [Fleet.initiate, MultipartService.initiateUpload, htier, if_false, hcreate,
          Store.insert, hinsert, hrow]
        rfl
      | none =>
        refine ⟨[.create upload.key], by simp, .inr ⟨X, upload, rfl, rfl, ?_⟩⟩
        simp only [Fleet.initiate, MultipartService.initiateUpload, htier, if_false,
          hcreate, Store.insert, hinsert, hrow]
        rfl

end Memory

theorem Global.issue (h : Global f) (X : UploadID) : Global (f.issue X) := by
  have hissued : ∀ Y, f.issued Y = true → (f.issue X).issued Y = true := by
    intro Y hY
    by_cases hYX : Y = X
    · simp [Fleet.issue, hYX]
    · simpa [Fleet.issue, hYX] using hY
  refine ⟨?_, ?_, h.cached⟩
  · intro Y row hrow
    obtain ⟨hY, hascending⟩ := h.row Y row hrow
    exact ⟨hissued Y hY, hascending⟩
  · intro i object hobject
    exact hissued _ (h.object i object hobject)

theorem Global.track (h : Global f) (replica : ReplicaID) (X : UploadID) {upload : Upload}
    (requests : List S3Request) (hempty : upload.completeParts = []) :
    Global (f.track replica X upload requests) := by
  have hissued : (f.issue X).issued X = true := by simp [Fleet.issue]
  have hrow : Global ((f.issue X).setRow X (some upload)) := by
    refine (h.issue X).setRow fun after hafter => ⟨hissued, ?_⟩
    obtain rfl := Option.some.inj hafter
    rw [hempty]
    exact List.Pairwise.nil
  exact (hrow.send requests).place hissued replica upload

theorem Extends.track (f : Fleet) (replica : ReplicaID) (X : UploadID) (upload : Upload)
    (requests : List S3Request) : Extends f (f.track replica X upload requests) := by
  refine ⟨?_, (Extends.place replica X upload).object⟩
  intro Y hY
  by_cases hYX : Y = X
  · simp [Fleet.track, Fleet.place, Fleet.setCached, Fleet.issue, hYX]
  · simpa [Fleet.track, Fleet.place, Fleet.setCached, Fleet.issue, Fleet.send, Fleet.setRow, hYX]
      using hY

/-! ## What is sent -/

theorem checkAssembled_ne {key : ObjectKey} {o : Outcome} {request : S3Request}
    (h : (MultipartService.checkAssembled key o).1 = [request]) : request = .head key := by
  rw [MultipartService.checkAssembled] at h
  cases hhead : o.head with
  | error text => simp [hhead] at h
  | ok realSize =>
    simp only [hhead] at h
    split at h
    · simp at h
    · exact (List.singleton_inj.mp h).symm

theorem sent_same {o : Outcome} (hloaded : ∀ i, call.phase ≠ .loaded i)
    (hcheck : ∀ key, call.phase ≠ .check key) : (exec k f call o).1.sent = f.sent := by
  cases hphase : call.phase with
  | loaded i => exact absurd hphase (hloaded i)
  | check key => exact absurd hphase (hcheck key)
  | authorize | getUpload | getParts | cache | insertPart | touch | uncache | delete | done =>
    simp only [exec, hphase]
    repeat' split
    all_goals rfl

/-- The parts of an upload are sent by a `FinalizeUpload` that has loaded it. -/
theorem sent_exec {o : Outcome} {key : ObjectKey} {sent : List (Int × String)}
    (h : (exec k f call o).1.sent = f.sent ++ [.complete key X sent]) :
    call.request = .finalizeUpload ∧ call.uploadID = X
      ∧ ∃ i object, call.phase = .loaded i ∧ f.objects[i]? = some object
        ∧ sent = MultipartService.sentParts object.upload.completeParts := by
  by_cases hcheck : ∃ key, call.phase = .check key
  · obtain ⟨key', hphase⟩ := hcheck
    simp only [exec, hphase, Fleet.send, List.append_cancel_left_eq] at h
    cases checkAssembled_ne h
  by_cases hloaded : ∃ i, call.phase = .loaded i
  case neg =>
    have hsame := sent_same (f := f) (k := k) (o := o) (fun i hi => hloaded ⟨i, hi⟩)
      fun key hkey => hcheck ⟨key, hkey⟩
    rw [hsame] at h
    simp at h
  case pos =>
    obtain ⟨i, hphase⟩ := hloaded
    cases hobject : f.objects[i]? with
    | none => simp [exec, hphase, hobject] at h
    | some object =>
      simp only [exec, hphase, hobject] at h
      cases hrequest : call.request with
      | completePart part => simp [onObject, hrequest, Fleet.setObject] at h
      | getUploadProgress => simp [onObject, hrequest] at h
      | finalizeUpload =>
        have hsent : MultipartService.sentParts object.upload.completeParts = sent
            ∧ call.uploadID = X := by
          simp only [onObject, hrequest] at h
          split at h <;>
            simp only [Fleet.send, List.append_cancel_left_eq, List.cons.injEq,
              S3Request.complete.injEq, and_true] at h <;>
            exact ⟨h.2.2, h.2.1⟩
        exact ⟨rfl, hsent.2, i, object, hphase, hobject, hsent.1.symm⟩

end UsbVault.Storage.Multipart.Replicas
