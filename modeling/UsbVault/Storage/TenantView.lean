import UsbVault.Storage.Multipart

/-!
# Multipart uploads of a user for a vault

What a user sees of the cache and of the store for a vault (`own`) are the
uploads of this user and vault; the others are foreign. An operation leaves
the foreign uploads as they are, and what it does to its own is the same with
and without them (`Confined`).

Its result is the same too, unless reading the parts of a foreign upload
fails: the store reads them before the owner is compared, and only of an
upload that exists.
-/

namespace UsbVault.Storage.Multipart

open Members

inductive Operation where
  | generatePresignedPartURL (partNumber : Int)
  | completePart (part : CompletedPart)
  | finalizeUpload
  | abortUpload
  | getUploadProgress

def Answer.map {α β : Type} (f : α → β) (a : Answer α) : Answer β :=
  ⟨a.service, a.sent, a.result.map f⟩

def MultipartService.perform (ms : MultipartService) (userID : UserID) (vaultID : VaultID)
    (uploadID : UploadID) (o : Outcome) : Operation → Answer Response
  | .generatePresignedPartURL partNumber =>
    (ms.generatePresignedPartURL userID vaultID uploadID partNumber o).map fun _ => .done
  | .completePart part => (ms.completePart userID vaultID uploadID part o).map fun _ => .done
  | .finalizeUpload => (ms.finalizeUpload userID vaultID uploadID o).map fun _ => .done
  | .abortUpload => (ms.abortUpload userID vaultID uploadID o).map fun _ => .done
  | .getUploadProgress => (ms.getUploadProgress userID vaultID uploadID o).map .progress

/-! ## What a user sees for a vault -/

section Tables

variable (userID : UserID) (vaultID : VaultID)

/-- The uploads of a table that are the user's for the vault. -/
def ownIn (table : UploadID → Option Upload) : UploadID → Option Upload :=
  fun id => (table id).filter fun upload => upload.OwnedBy userID vaultID

/-- The uploads of a table that belong to another user or vault. -/
def foreignIn (table : UploadID → Option Upload) : UploadID → Option Upload :=
  fun id => (table id).filter fun upload => ¬upload.OwnedBy userID vaultID

/-- Every upload of a table belongs to whom its identifier was given for. -/
def IssuedIn (issued : UploadID → Option (UserID × VaultID))
    (table : UploadID → Option Upload) : Prop :=
  ∀ id upload, table id = some upload → issued id = some (upload.userID, upload.vaultID)

/-- What a table holds under an identifier is no foreign upload. -/
def ClearIn (uploadID : UploadID) (table : UploadID → Option Upload) : Prop :=
  ∀ upload, table uploadID = some upload → upload.OwnedBy userID vaultID

variable {userID : UserID} {vaultID : VaultID} {uploadID : UploadID}
variable {table : UploadID → Option Upload} {issued : UploadID → Option (UserID × VaultID)}

theorem ownIn_some {upload : Upload} (h : table uploadID = some upload)
    (howned : upload.OwnedBy userID vaultID) : ownIn userID vaultID table uploadID = some upload := by
  simp [ownIn, h, howned]

theorem ownIn_none {id : UploadID} (h : table id = none) : ownIn userID vaultID table id = none := by
  simp [ownIn, h]

theorem ownIn_foreign {upload : Upload} (h : table uploadID = some upload)
    (hforeign : ¬upload.OwnedBy userID vaultID) : ownIn userID vaultID table uploadID = none := by
  simp [ownIn, h, hforeign]

theorem ownIn_update {new : Option Upload} (hnew : ∀ upload, new = some upload →
    upload.OwnedBy userID vaultID) :
    ownIn userID vaultID (Function.update table uploadID new)
      = Function.update (ownIn userID vaultID table) uploadID new := by
  funext id
  by_cases hid : id = uploadID
  · subst hid
    cases new with
    | none => simp [ownIn]
    | some upload => simp [ownIn, hnew upload rfl]
  · simp [ownIn, Function.update_of_ne hid]

theorem ClearIn.foreignIn_update (h : ClearIn userID vaultID uploadID table) {new : Option Upload}
    (hnew : ∀ upload, new = some upload → upload.OwnedBy userID vaultID) :
    foreignIn userID vaultID (Function.update table uploadID new)
      = foreignIn userID vaultID table := by
  funext id
  by_cases hid : id = uploadID
  · subst hid
    have hbefore : foreignIn userID vaultID table id = none := by
      simpa [foreignIn, ClearIn] using h
    rw [hbefore]
    simpa [foreignIn] using hnew
  · simp [foreignIn, Function.update_of_ne hid]

theorem IssuedIn.update (h : IssuedIn issued table) {new : Option Upload}
    (hnew : ∀ upload, new = some upload →
      issued uploadID = some (upload.userID, upload.vaultID)) :
    IssuedIn issued (Function.update table uploadID new) := by
  intro id upload hrow
  by_cases hid : id = uploadID
  · subst hid
    rw [Function.update_self] at hrow
    exact hnew upload hrow
  · rw [Function.update_of_ne hid] at hrow
    exact h id upload hrow

/-- Under an identifier given for the user and the vault there is nothing foreign. -/
theorem IssuedIn.clear (h : IssuedIn issued table) (hid : issued uploadID = some (userID, vaultID)) :
    ClearIn userID vaultID uploadID table := by
  intro upload hrow
  have howner := h uploadID upload hrow
  rw [hid] at howner
  obtain ⟨huser, hvault⟩ := Prod.mk.inj (Option.some.inj howner)
  exact ⟨huser.symm, hvault.symm⟩

end Tables

theorem head_append {pre text : String} {c : Char} (h : pre.toList.head? = some c) :
    (pre ++ text).toList.head? = some c := by
  rw [String.toList_append, List.head?_append, h, Option.some_or]

theorem fault_error_ne (fault : PartsFault) : fault.error ≠ errUploadNotFound := by
  intro h
  have hhead : fault.error.toList.head? = some 'm' := by
    unfold PartsFault.error
    cases fault with
    | query text => exact head_append (by decide)
    | scan text => exact head_append (by decide)
    | iterate text => exact head_append (by decide)
  rw [h] at hhead
  exact absurd hhead (by decide)

/-! ## The lookup in the store -/

namespace Store

variable (store : Store) (userID : UserID) (vaultID : VaultID) (uploadID : UploadID)
variable (o : GetOutcome)

/-- What `loadUpload` gets from the store: an upload of the user and vault. -/
def find : Except String Upload :=
  match store.get uploadID o with
  | .error text => .error text
  | .ok none => .error errUploadNotFound
  | .ok (some stored) =>
    if stored.OwnedBy userID vaultID then .ok stored else .error errUploadNotFound

/-- The store holds the named upload as a foreign one, and finds it but fails
to read its parts. -/
def Exposed : Prop :=
  o.upload = none ∧ o.parts ≠ none
    ∧ ∃ stored, store uploadID = some stored ∧ ¬stored.OwnedBy userID vaultID

variable {store} {userID} {vaultID} {uploadID} {o}

theorem find_ok {stored : Upload} (h : store.find userID vaultID uploadID o = .ok stored) :
    store uploadID = some stored ∧ stored.OwnedBy userID vaultID := by
  cases hquery : o.upload with
  | some text => simp [find, get, hquery] at h
  | none =>
    cases hrow : store uploadID with
    | none => simp [find, get, hquery, hrow] at h
    | some upload =>
      cases hparts : o.parts with
      | some fault => simp [find, get, hquery, hrow, hparts] at h
      | none =>
        simp only [find, get, hquery, hrow, hparts] at h
        by_cases howned : upload.OwnedBy userID vaultID
        · rw [if_pos howned] at h
          obtain rfl := Except.ok.inj h
          exact ⟨rfl, howned⟩
        · simp [howned] at h

/-- **The foreign uploads make no difference** to what is found, if none is
exposed. -/
theorem find_own (h : ¬store.Exposed userID vaultID uploadID o) :
    find (ownIn userID vaultID store) userID vaultID uploadID o
      = store.find userID vaultID uploadID o := by
  cases hquery : o.upload with
  | some text => simp [find, get, hquery]
  | none =>
    cases hrow : store uploadID with
    | none => simp [find, get, hquery, hrow, ownIn_none hrow]
    | some stored =>
      by_cases howned : stored.OwnedBy userID vaultID
      · simp [find, get, hquery, hrow, ownIn_some hrow howned]
      · have hparts : o.parts = none := by
          by_contra hparts
          exact h ⟨hquery, hparts, stored, hrow, howned⟩
        simp [find, get, hquery, hrow, hparts, ownIn_foreign hrow howned, howned]

theorem Exposed.find_ne (h : store.Exposed userID vaultID uploadID o) :
    ∃ text, store.find userID vaultID uploadID o = .error text ∧ text ≠ errUploadNotFound
      ∧ find (ownIn userID vaultID store) userID vaultID uploadID o
          = .error errUploadNotFound := by
  obtain ⟨hquery, hparts, stored, hrow, hforeign⟩ := h
  obtain ⟨fault, hfault⟩ := Option.ne_none_iff_exists'.mp hparts
  refine ⟨fault.error, ?_, fault_error_ne fault, ?_⟩
  · simp [find, get, hquery, hrow, hfault]
  · simp [find, get, hquery, ownIn_foreign hrow hforeign]

end Store

namespace MultipartService

variable (ms : MultipartService) (userID : UserID) (vaultID : VaultID)

def own : MultipartService where
  uploads := ownIn userID vaultID ms.uploads
  store := ms.store.map (ownIn userID vaultID)

def foreign : MultipartService where
  uploads := foreignIn userID vaultID ms.uploads
  store := ms.store.map (foreignIn userID vaultID)

/-- Every upload that is cached or stored belongs to whom its identifier was
given for. -/
structure Issued (issued : UploadID → Option (UserID × VaultID)) : Prop where
  uploads : IssuedIn issued ms.uploads
  store : ∀ store, ms.store = some store → IssuedIn issued store

/-- The store exposes the named upload. -/
def Exposed (uploadID : UploadID) (o : GetOutcome) : Prop :=
  ∃ store, ms.store = some store ∧ store.Exposed userID vaultID uploadID o

variable {ms} {userID} {vaultID} {uploadID : UploadID} {o : GetOutcome}
variable {issued : UploadID → Option (UserID × VaultID)}

/-! ## The lookup -/

@[simp] theorem own_authorizedUpload :
    (ms.own userID vaultID).authorizedUpload uploadID userID vaultID
      = ms.authorizedUpload uploadID userID vaultID := by
  simp [authorizedUpload, own, ownIn, Option.filter_filter]

theorem authorizedUpload_some {upload : Upload}
    (h : ms.authorizedUpload uploadID userID vaultID = some upload) :
    ms.uploads uploadID = some upload ∧ upload.OwnedBy userID vaultID := by
  simpa [authorizedUpload, Option.filter_eq_some_iff] using h

theorem authorizedUpload_none {upload : Upload}
    (h : ms.authorizedUpload uploadID userID vaultID = none)
    (hcached : ms.uploads uploadID = some upload) : ¬upload.OwnedBy userID vaultID := by
  simpa [authorizedUpload, hcached] using h

/-- The identifier of an upload that is found is the user's for the vault. -/
theorem Issued.owner {issued : UploadID → Option (UserID × VaultID)} {upload : Upload}
    (h : issued uploadID = some (upload.userID, upload.vaultID))
    (howned : upload.OwnedBy userID vaultID) : issued uploadID = some (userID, vaultID) := by
  rw [h, howned.1, howned.2]

theorem cache_own {upload : Upload} (howned : upload.OwnedBy userID vaultID) :
    (ms.cache uploadID upload).own userID vaultID = (ms.own userID vaultID).cache uploadID upload := by
  have hupdate : ownIn userID vaultID (Function.update ms.uploads uploadID (some upload))
      = Function.update (ownIn userID vaultID ms.uploads) uploadID (some upload) :=
    ownIn_update (by simpa using howned)
  simp only [cache, own, hupdate]

theorem Issued.cache (h : ms.Issued issued) {upload : Upload}
    (hid : issued uploadID = some (upload.userID, upload.vaultID)) :
    (ms.cache uploadID upload).Issued issued :=
  ⟨h.uploads.update (by simpa using hid), h.store⟩

theorem Issued.cache_foreign (h : ms.Issued issued) (hid : issued uploadID = some (userID, vaultID))
    {upload : Upload} (howned : upload.OwnedBy userID vaultID) :
    (ms.cache uploadID upload).foreign userID vaultID = ms.foreign userID vaultID := by
  have hupdate : foreignIn userID vaultID (Function.update ms.uploads uploadID (some upload))
      = foreignIn userID vaultID ms.uploads :=
    (h.uploads.clear hid).foreignIn_update (by simpa using howned)
  simp only [MultipartService.cache, foreign, hupdate]

theorem loadUpload_cached {upload : Upload}
    (h : ms.authorizedUpload uploadID userID vaultID = some upload) :
    ms.loadUpload uploadID userID vaultID o = (ms, .ok upload) := by
  simp [loadUpload, h]

theorem loadUpload_unwired (h : ms.authorizedUpload uploadID userID vaultID = none)
    (hstore : ms.store = none) :
    ms.loadUpload uploadID userID vaultID o = (ms, .error errUploadNotFound) := by
  simp [loadUpload, h, hstore]

theorem loadUpload_missing (h : ms.authorizedUpload uploadID userID vaultID = none) {store : Store}
    (hstore : ms.store = some store) {text : String}
    (hfind : store.find userID vaultID uploadID o = .error text) :
    ms.loadUpload uploadID userID vaultID o = (ms, .error text) := by
  cases hget : store.get uploadID o with
  | error text' => simp_all [loadUpload, Store.find]
  | ok row =>
    cases row with
    | none => simp_all [loadUpload, Store.find]
    | some stored =>
      by_cases howned : stored.OwnedBy userID vaultID
      · simp [Store.find, hget, howned] at hfind
      · simp_all [loadUpload, Store.find]

/-- Of the user's own uploads, what is stored is not cached: it would have
been found there. -/
theorem loadUpload_stored (h : ms.authorizedUpload uploadID userID vaultID = none) {store : Store}
    (hstore : ms.store = some store) {stored : Upload}
    (hfind : store.find userID vaultID uploadID o = .ok stored)
    (hcached : ms.uploads uploadID = none) :
    ms.loadUpload uploadID userID vaultID o = (ms.cache uploadID stored, .ok stored) := by
  cases hget : store.get uploadID o with
  | error text => simp [Store.find, hget] at hfind
  | ok row =>
    cases row with
    | none => simp [Store.find, hget] at hfind
    | some upload =>
      by_cases howned : upload.OwnedBy userID vaultID
      · simp_all [loadUpload, Store.find]
      · simp [Store.find, hget, howned] at hfind

theorem own_store {store : Store} (hstore : ms.store = some store) :
    (ms.own userID vaultID).store = some (ownIn userID vaultID store) := by
  simp [own, hstore]

/-- An upload found in the store is not cached, or it would have been found
in the cache. -/
theorem Issued.uncached (h : ms.Issued issued) (hid : issued uploadID = some (userID, vaultID))
    (hauth : ms.authorizedUpload uploadID userID vaultID = none) :
    ms.uploads uploadID = none := by
  cases hcached : ms.uploads uploadID with
  | none => rfl
  | some existing =>
    have hforeign := authorizedUpload_none hauth hcached
    exact absurd (h.uploads.clear hid existing hcached) hforeign

/-- **An upload that is found** is the user's for the vault, and found the
same without the foreign ones. -/
theorem Issued.loadUpload_ok (h : ms.Issued issued) {next : MultipartService} {upload : Upload}
    (hload : ms.loadUpload uploadID userID vaultID o = (next, .ok upload)) :
    issued uploadID = some (userID, vaultID) ∧ upload.OwnedBy userID vaultID
      ∧ next.Issued issued ∧ next.foreign userID vaultID = ms.foreign userID vaultID
      ∧ (ms.own userID vaultID).loadUpload uploadID userID vaultID o
          = (next.own userID vaultID, .ok upload) := by
  cases hauth : ms.authorizedUpload uploadID userID vaultID with
  | some cached =>
    rw [loadUpload_cached hauth, Prod.mk.injEq, Except.ok.injEq] at hload
    obtain ⟨rfl, rfl⟩ := hload
    obtain ⟨hcached, howned⟩ := authorizedUpload_some hauth
    have hid := Issued.owner (h.uploads uploadID cached hcached) howned
    exact ⟨hid, howned, h, rfl, loadUpload_cached (by rw [own_authorizedUpload, hauth])⟩
  | none =>
    have hauth' : (ms.own userID vaultID).authorizedUpload uploadID userID vaultID = none := by
      rw [own_authorizedUpload, hauth]
    cases hstore : ms.store with
    | none => simp [loadUpload_unwired hauth hstore] at hload
    | some store =>
      cases hfind : store.find userID vaultID uploadID o with
      | error text => simp [loadUpload_missing hauth hstore hfind] at hload
      | ok stored =>
        obtain ⟨hrow, howned⟩ := Store.find_ok hfind
        have hid := Issued.owner (h.store store hstore uploadID stored hrow) howned
        have hcached := h.uncached hid hauth
        rw [loadUpload_stored hauth hstore hfind hcached, Prod.mk.injEq,
          Except.ok.injEq] at hload
        obtain ⟨rfl, rfl⟩ := hload
        have hexposed : ¬store.Exposed userID vaultID uploadID o := by
          rintro ⟨-, -, stored', hrow', hforeign⟩
          rw [hrow] at hrow'
          obtain rfl := Option.some.inj hrow'
          exact hforeign howned
        have hfind' := (Store.find_own hexposed).trans hfind
        refine ⟨hid, howned, h.cache (by rw [hid, howned.1, howned.2]),
          h.cache_foreign hid howned, ?_⟩
        rw [loadUpload_stored hauth' (own_store hstore) hfind' (ownIn_none hcached),
          cache_own howned]

/-- **An upload that is not found** is not found without the foreign ones
either, with the same error just when none is exposed. -/
theorem Issued.loadUpload_error (h : ms.Issued issued) {next : MultipartService} {text : String}
    (hload : ms.loadUpload uploadID userID vaultID o = (next, .error text)) :
    next = ms ∧ ∃ text', (ms.own userID vaultID).loadUpload uploadID userID vaultID o
          = (ms.own userID vaultID, .error text')
        ∧ (text' = text ↔ ¬ms.Exposed userID vaultID uploadID o) := by
  cases hauth : ms.authorizedUpload uploadID userID vaultID with
  | some cached => simp [loadUpload_cached hauth] at hload
  | none =>
    have hauth' : (ms.own userID vaultID).authorizedUpload uploadID userID vaultID = none := by
      rw [own_authorizedUpload, hauth]
    cases hstore : ms.store with
    | none =>
      rw [loadUpload_unwired hauth hstore, Prod.mk.injEq, Except.error.injEq] at hload
      obtain ⟨rfl, rfl⟩ := hload
      have hstore' : (ms.own userID vaultID).store = none := by simp [own, hstore]
      exact ⟨rfl, _, loadUpload_unwired hauth' hstore', by simp [Exposed, hstore]⟩
    | some store =>
      have hexposes : ms.Exposed userID vaultID uploadID o
          ↔ store.Exposed userID vaultID uploadID o := by simp [Exposed, hstore]
      rw [hexposes]
      cases hfind : store.find userID vaultID uploadID o with
      | ok stored =>
        obtain ⟨hrow, howned⟩ := Store.find_ok hfind
        have hid := Issued.owner (h.store store hstore uploadID stored hrow) howned
        simp [loadUpload_stored hauth hstore hfind (h.uncached hid hauth)] at hload
      | error found =>
        rw [loadUpload_missing hauth hstore hfind, Prod.mk.injEq,
          Except.error.injEq] at hload
        obtain ⟨rfl, rfl⟩ := hload
        by_cases hexposed : store.Exposed userID vaultID uploadID o
        · obtain ⟨text, htext, hne, hown⟩ := hexposed.find_ne
          rw [hfind] at htext
          obtain rfl := Except.error.inj htext
          refine ⟨rfl, _, loadUpload_missing hauth' (own_store hstore) hown, ?_⟩
          simp [hexposed, Ne.symm hne]
        · have hfind' := (Store.find_own hexposed).trans hfind
          refine ⟨rfl, _, loadUpload_missing hauth' (own_store hstore) hfind', ?_⟩
          simp [hexposed]

/-! ## Operations -/

variable {α β : Type}

/-- What an operation does to the foreign uploads, nothing, and to the user's
own: the same with and without them. -/
structure Confined (userID : UserID) (vaultID : VaultID)
    (issued : UploadID → Option (UserID × VaultID)) (ms : MultipartService)
    (op : MultipartService → Answer α) : Prop where
  issued : (op ms).service.Issued issued
  foreign : (op ms).service.foreign userID vaultID = ms.foreign userID vaultID
  own : (op (ms.own userID vaultID)).service = (op ms).service.own userID vaultID

/-- It sends the same, too, and returns the same. -/
structure Isolated (userID : UserID) (vaultID : VaultID)
    (issued : UploadID → Option (UserID × VaultID)) (ms : MultipartService)
    (op : MultipartService → Answer α) : Prop extends Confined userID vaultID issued ms op where
  sent : (op (ms.own userID vaultID)).sent = (op ms).sent
  result : (op (ms.own userID vaultID)).result = (op ms).result

/-- Confined, and isolated just when no foreign upload is exposed. -/
def Guarded (userID : UserID) (vaultID : VaultID)
    (issued : UploadID → Option (UserID × VaultID)) (uploadID : UploadID) (o : GetOutcome)
    (ms : MultipartService) (op : MultipartService → Answer α) : Prop :=
  Confined userID vaultID issued ms op
    ∧ ((op (ms.own userID vaultID)).sent = (op ms).sent
        ∧ (op (ms.own userID vaultID)).result = (op ms).result
      ↔ ¬ms.Exposed userID vaultID uploadID o)

/-- **An operation on an upload**: what follows the lookup is isolated on
every upload of the user and vault. -/
theorem Issued.withUpload (h : ms.Issued issued) {next : MultipartService → Upload → Answer α}
    (hnext : ∀ (ms : MultipartService) (upload : Upload), ms.Issued issued →
      issued uploadID = some (userID, vaultID) → upload.OwnedBy userID vaultID →
      Isolated userID vaultID issued ms fun ms => next ms upload) :
    Guarded userID vaultID issued uploadID o ms
      fun ms => ms.withUpload userID vaultID uploadID o next := by
  let op := fun ms : MultipartService => ms.withUpload userID vaultID uploadID o next
  change Guarded userID vaultID issued uploadID o ms op
  rcases hload : ms.loadUpload uploadID userID vaultID o with ⟨loaded, result⟩
  cases result with
  | error text =>
    obtain ⟨rfl, text', hown, hsame⟩ := h.loadUpload_error hload
    have hop : op loaded = ⟨loaded, [], .error text⟩ := by simp [op, MultipartService.withUpload, hload]
    have hop' : op (loaded.own userID vaultID) = ⟨loaded.own userID vaultID, [], .error text'⟩ := by
      simp [op, MultipartService.withUpload, hown]
    rw [Guarded, hop, hop']
    refine ⟨⟨by rw [hop]; exact h, by rw [hop], by rw [hop, hop']⟩, ?_⟩
    simpa using hsame
  | ok upload =>
    obtain ⟨hid, howned, hissued, hforeign, hown⟩ := h.loadUpload_ok hload
    have hop : op ms = next loaded upload := by simp [op, MultipartService.withUpload, hload]
    have hop' : op (ms.own userID vaultID) = next (loaded.own userID vaultID) upload := by
      simp [op, MultipartService.withUpload, hown]
    have hisolated := hnext loaded upload hissued hid howned
    have hexposed : ¬ms.Exposed userID vaultID uploadID o := by
      rintro ⟨store, hstore, -, -, stored, hrow, hstored⟩
      exact hstored ((h.store store hstore).clear hid stored hrow)
    rw [Guarded, hop, hop']
    refine ⟨⟨?_, ?_, ?_⟩, ?_⟩
    · rw [hop]
      exact hisolated.issued
    · rw [hop, ← hforeign]
      exact hisolated.foreign
    · rw [hop, hop']
      exact hisolated.own
    · simp [hexposed, hisolated.sent, hisolated.result]

theorem untrack_own {o : Outcome} :
    (ms.untrack uploadID o).own userID vaultID = (ms.own userID vaultID).untrack uploadID o := by
  have hupdate : ∀ table : UploadID → Option Upload,
      ownIn userID vaultID (Function.update table uploadID none)
        = Function.update (ownIn userID vaultID table) uploadID none :=
    fun table => ownIn_update (by simp)
  simp only [untrack, own, hupdate, mk.injEq, true_and]
  split
  · cases ms.store <;> simp [hupdate]
  · rfl

theorem Issued.untrack_foreign (h : ms.Issued issued)
    (hid : issued uploadID = some (userID, vaultID)) {o : Outcome} :
    (ms.untrack uploadID o).foreign userID vaultID = ms.foreign userID vaultID := by
  have hupdate : ∀ table : UploadID → Option Upload, IssuedIn issued table →
      foreignIn userID vaultID (Function.update table uploadID none)
        = foreignIn userID vaultID table :=
    fun table htable => (htable.clear hid).foreignIn_update (by simp)
  simp only [MultipartService.untrack, foreign, hupdate ms.uploads h.uploads, mk.injEq, true_and]
  split
  · cases hstore : ms.store with
    | none => rfl
    | some store => simp [hupdate store (h.store store hstore)]
  · rfl

theorem Issued.untrack (h : ms.Issued issued) {o : Outcome} :
    (ms.untrack uploadID o).Issued issued := by
  refine ⟨h.uploads.update (by simp), ?_⟩
  intro store hstore
  simp only [MultipartService.untrack] at hstore
  split at hstore
  · obtain ⟨before, hbefore, rfl⟩ := Option.map_eq_some_iff.mp hstore
    exact (h.store before hbefore).update (by simp)
  · exact h.store store hstore

theorem Issued.answer (h : ms.Issued issued) (sent : List S3Request) (result : Except String α) :
    Isolated userID vaultID issued ms fun ms => ⟨ms, sent, result⟩ :=
  ⟨⟨h, rfl, rfl⟩, rfl, rfl⟩

theorem Issued.untracked (h : ms.Issued issued) (hid : issued uploadID = some (userID, vaultID))
    (o : Outcome) (sent : List S3Request) (result : Except String α) :
    Isolated userID vaultID issued ms fun ms => ⟨ms.untrack uploadID o, sent, result⟩ :=
  ⟨⟨h.untrack, h.untrack_foreign hid, untrack_own.symm⟩, rfl, rfl⟩

/-- An upsert leaves the store, or records the part of an upload it holds. -/
theorem upsertPart_cases (store : Store) (uploadID : UploadID) (part : CompletedPart) (now : Int)
    (o : UpsertOutcome) :
    (store.upsertPart uploadID part now o).1 = store
      ∨ ∃ upload recorded, store uploadID = some upload ∧ recorded.userID = upload.userID
          ∧ recorded.vaultID = upload.vaultID
          ∧ (store.upsertPart uploadID part now o).1
              = Function.update store uploadID (some recorded) := by
  cases hpart : o.part with
  | some text => exact .inl (by simp [Store.upsertPart, hpart])
  | none =>
    cases hrow : store uploadID with
    | none => exact .inl (by simp [Store.upsertPart, hpart, hrow])
    | some upload =>
      right
      cases htouch : o.touch with
      | some text =>
        let recorded := { upload with
          completeParts := upsertStored part upload.completeParts }
        exact ⟨upload, recorded, rfl, rfl, rfl, by
          simp only [Store.upsertPart, hpart, hrow, htouch, recorded]⟩
      | none =>
        let recorded := { upload with
          completeParts := upsertStored part upload.completeParts
          updatedAt := now }
        exact ⟨upload, recorded, rfl, rfl, rfl, by
          simp only [Store.upsertPart, hpart, hrow, htouch, recorded]⟩

theorem upsertPart_own {store : Store} (h : ClearIn userID vaultID uploadID store)
    (part : CompletedPart) (now : Int) (o : UpsertOutcome) :
    Store.upsertPart (ownIn userID vaultID store) uploadID part now o
      = (ownIn userID vaultID (store.upsertPart uploadID part now o).1,
          (store.upsertPart uploadID part now o).2) := by
  cases hpart : o.part with
  | some text => simp [Store.upsertPart, hpart]
  | none =>
    cases hrow : store uploadID with
    | none => simp [Store.upsertPart, hpart, hrow, ownIn_none hrow]
    | some upload =>
      have howned := h upload hrow
      have hupdate : ∀ recorded : Upload, recorded.OwnedBy userID vaultID →
          ownIn userID vaultID (Function.update store uploadID (some recorded))
            = Function.update (ownIn userID vaultID store) uploadID (some recorded) :=
        fun recorded hrecorded => ownIn_update (by simpa using hrecorded)
      cases htouch : o.touch <;>
        simp only [Store.upsertPart, hpart, hrow, ownIn_some hrow howned, htouch] <;>
        rw [hupdate _ (by exact howned)]

theorem Issued.withStore (h : ms.Issued issued) {store : Store} (hstore : IssuedIn issued store) :
    { ms with store := some store }.Issued issued := by
  refine ⟨h.uploads, fun store' hstore' => ?_⟩
  obtain rfl := Option.some.inj hstore'
  exact hstore

theorem Issued.upsertPart {store : Store} (h : IssuedIn issued store)
    (hid : issued uploadID = some (userID, vaultID)) (part : CompletedPart) (now : Int)
    (o : UpsertOutcome) :
    IssuedIn issued (store.upsertPart uploadID part now o).1
      ∧ foreignIn userID vaultID (store.upsertPart uploadID part now o).1
          = foreignIn userID vaultID store := by
  rcases upsertPart_cases store uploadID part now o with
    hsame | ⟨upload, recorded, hrow, huser, hvault, hafter⟩
  · rw [hsame]
    exact ⟨h, rfl⟩
  · have howner := h uploadID upload hrow
    have howned := h.clear hid upload hrow
    rw [hafter]
    refine ⟨h.update ?_, (h.clear hid).foreignIn_update ?_⟩
    · intro new hnew
      rw [← Option.some.inj hnew, huser, hvault, howner]
    · intro new hnew
      rw [← Option.some.inj hnew, Upload.OwnedBy, huser, hvault]
      exact howned

/-- What `CompletePart` leaves and returns, with a store. -/
theorem recordPart_wired {store : Store} (hstore : ms.store = some store) (uploadID : UploadID)
    (upload : Upload) (part : CompletedPart) (o : Outcome) :
    let updated := { upload with
      completeParts := upsertCached part upload.completeParts
      updatedAt := o.now }
    let written := store.upsertPart uploadID part o.now o.upsert
    ms.recordPart uploadID upload part o
      = ⟨{ ms.cache uploadID updated with store := some written.1 }, [],
          written.2.mapError fun text => s!"failed to persist completed part: {text}"⟩ := by
  intro updated written
  have hcached : (ms.cache uploadID updated).store = some store := hstore
  rcases hwritten : store.upsertPart uploadID part o.now o.upsert with ⟨after, result⟩
  cases result with
  | error text => simp [recordPart, updated, written, hcached, hwritten, Except.mapError]
  | ok u => simp [recordPart, updated, written, hcached, hwritten, Except.mapError]

theorem Issued.recordPart (h : ms.Issued issued) (hid : issued uploadID = some (userID, vaultID))
    {upload : Upload} (howned : upload.OwnedBy userID vaultID) (part : CompletedPart)
    (o : Outcome) :
    Isolated userID vaultID issued ms fun ms => ms.recordPart uploadID upload part o := by
  let updated := { upload with
    completeParts := upsertCached part upload.completeParts
    updatedAt := o.now }
  have howned' : updated.OwnedBy userID vaultID := howned
  have hcache : (ms.cache uploadID updated).Issued issued :=
    h.cache (by rw [hid, howned'.1, howned'.2])
  have hforeign : (ms.cache uploadID updated).foreign userID vaultID = ms.foreign userID vaultID :=
    h.cache_foreign hid howned'
  have hown : (ms.cache uploadID updated).own userID vaultID
      = (ms.own userID vaultID).cache uploadID updated := cache_own howned'
  cases hstore : ms.store with
  | none =>
    have hafter : ms.recordPart uploadID upload part o
        = ⟨ms.cache uploadID updated, [], .ok ()⟩ := by
      simp [MultipartService.recordPart, MultipartService.cache, hstore, updated]
    have hafter' : (ms.own userID vaultID).recordPart uploadID upload part o
        = ⟨(ms.own userID vaultID).cache uploadID updated, [], .ok ()⟩ := by
      simp [MultipartService.recordPart, MultipartService.cache, own, hstore, updated]
    refine ⟨⟨?_, ?_, ?_⟩, ?_, ?_⟩
    · rw [hafter]
      exact hcache
    · rw [hafter, hforeign]
    · rw [hafter, hafter', hown]
    · rw [hafter, hafter']
    · rw [hafter, hafter']
  | some store =>
    have hstored := h.store store hstore
    obtain ⟨hissued, hrest⟩ := Issued.upsertPart hstored hid part o.now o.upsert
    have hwritten := upsertPart_own (hstored.clear hid) part o.now o.upsert
    have hstore' : (ms.own userID vaultID).store = some (ownIn userID vaultID store) :=
      own_store hstore
    have hafter := recordPart_wired hstore uploadID upload part o
    have hafter' := recordPart_wired hstore' uploadID upload part o
    rw [hwritten] at hafter'
    refine ⟨⟨?_, ?_, ?_⟩, ?_, ?_⟩
    · rw [hafter]
      exact hcache.withStore hissued
    · rw [hafter]
      simp only [foreign, mk.injEq] at hforeign ⊢
      exact ⟨hforeign.1, by rw [hstore, Option.map_some, Option.map_some, hrest]⟩
    · rw [hafter, hafter', ← hown]
      rfl
    · rw [hafter, hafter']
    · rw [hafter, hafter']

theorem map_result {f : α → β} (hf : Function.Injective f) {x y : Except String α} :
    x.map f = y.map f ↔ x = y := by
  cases x <;> cases y <;> simp [Except.map, hf.eq_iff]

theorem Guarded.map {op : MultipartService → Answer α} {f : α → β} (hf : Function.Injective f)
    (h : Guarded userID vaultID issued uploadID o ms op) :
    Guarded userID vaultID issued uploadID o ms fun ms => (op ms).map f := by
  obtain ⟨hconfined, hsame⟩ := h
  refine ⟨⟨hconfined.issued, hconfined.foreign, hconfined.own⟩, ?_⟩
  simp only [Answer.map, map_result hf]
  exact hsame

theorem done_injective : Function.Injective fun _ : Unit => Response.done :=
  Function.injective_of_subsingleton _

/-- **Every operation** is confined, and isolated just when no foreign upload
is exposed. -/
theorem Issued.perform (h : ms.Issued issued) (o : Outcome) (op : Operation) :
    Guarded userID vaultID issued uploadID o.get ms
      fun ms => ms.perform userID vaultID uploadID o op := by
  cases op with
  | generatePresignedPartURL partNumber =>
    refine Guarded.map done_injective (h.withUpload ?_)
    intro ms upload h hid howned
    split
    · exact h.answer _ _
    · split
      · exact h.answer _ _
      · exact h.answer _ _
  | completePart part =>
    refine Guarded.map done_injective (h.withUpload ?_)
    intro ms upload h hid howned
    exact h.recordPart hid howned part o
  | finalizeUpload =>
    refine Guarded.map done_injective (h.withUpload ?_)
    intro ms upload h hid howned
    split
    · exact h.answer _ _
    · exact h.untracked hid o _ _
  | abortUpload =>
    refine Guarded.map done_injective (h.withUpload ?_)
    intro ms upload h hid howned
    split
    · exact h.answer _ _
    · exact h.untracked hid o _ _
  | getUploadProgress =>
    have hprogress : Function.Injective Response.progress := fun _ _ => Response.progress.inj
    refine Guarded.map hprogress (h.withUpload ?_)
    intro ms upload h hid howned
    exact h.answer _ _

end MultipartService

end UsbVault.Storage.Multipart
