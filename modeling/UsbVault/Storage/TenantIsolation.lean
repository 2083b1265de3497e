import UsbVault.Lib.Run
import UsbVault.Storage.TenantView

/-!
# Tenant isolation of multipart uploads

The replicas of the server, each with its cache, over one store. In every
state they can reach, an operation leaves the uploads of other users and
vaults as they are, and its result says nothing of them unless the store
exposes one (`tenants_isolated`).

S3 does not give an identifier twice, so that what the caches and the store
hold under one identifier has one owner.
-/

namespace UsbVault.Storage.Multipart

open Members

/-- The caches of the replicas and their store, where one is wired, and the
identifiers that S3 has given, with the user and the vault they are for. -/
structure Cluster where
  caches : ReplicaID → UploadID → Option Upload
  store : Option Store
  issued : UploadID → Option (UserID × VaultID)

inductive Event where
  | initiate (replica : ReplicaID) (userID : UserID) (vaultID : VaultID) (fileID : BlobID)
      (totalSize : Int) (o : InitiateOutcome)
  | perform (replica : ReplicaID) (userID : UserID) (vaultID : VaultID) (uploadID : UploadID)
      (op : Operation) (o : Outcome)
  | sweep (replica : ReplicaID) (o : SweepOutcome)
  | restart (replica : ReplicaID)

namespace Cluster

variable (c : Cluster)

def start (store : Bool) : Cluster where
  caches := fun _ _ => none
  store := if store then some fun _ => none else none
  issued := fun _ => none

def service (replica : ReplicaID) : MultipartService := ⟨c.caches replica, c.store⟩

def withService (replica : ReplicaID) (ms : MultipartService) : Cluster :=
  { c with caches := Function.update c.caches replica ms.uploads, store := ms.store }

/-- The identifier that an initiation has got from S3. -/
def issue (userID : UserID) (vaultID : VaultID) (o : InitiateOutcome) : Cluster :=
  match o.create with
  | .error _ => c
  | .ok uploadID =>
    { c with issued := Function.update c.issued uploadID (some (userID, vaultID)) }

def isFresh (o : InitiateOutcome) : Bool :=
  match o.create with
  | .error _ => true
  | .ok uploadID => (c.issued uploadID).isNone

def perform (replica : ReplicaID) (userID : UserID) (vaultID : VaultID) (uploadID : UploadID)
    (op : Operation) (o : Outcome) : Answer Response :=
  (c.service replica).perform userID vaultID uploadID o op

def step : Event → Cluster
  | .initiate replica userID vaultID fileID totalSize o =>
    if c.isFresh o then
      (c.issue userID vaultID o).withService replica
        ((c.service replica).initiateUpload userID vaultID fileID totalSize o).service
    else c
  | .perform replica userID vaultID uploadID op o =>
    c.withService replica (c.perform replica userID vaultID uploadID op o).service
  | .sweep replica o => c.withService replica ((c.service replica).cleanupExpiredOnce o)
  | .restart replica => { c with caches := Function.update c.caches replica fun _ => none }

def run (events : List Event) : Cluster := events.foldl step c

end Cluster

/-! ## Runs -/

section Tables

variable {table : UploadID → Option Upload} {issued : UploadID → Option (UserID × VaultID)}

theorem IssuedIn.of_sub (h : IssuedIn issued table) {rest : UploadID → Option Upload}
    (hsub : ∀ id upload, rest id = some upload → table id = some upload) : IssuedIn issued rest :=
  fun id upload hrow => h id upload (hsub id upload hrow)

/-- Nothing is known under an identifier that S3 has not given yet. -/
theorem IssuedIn.issue (h : IssuedIn issued table) {uploadID : UploadID}
    (hfresh : issued uploadID = none) (owner : UserID × VaultID) :
    IssuedIn (Function.update issued uploadID (some owner)) table := by
  intro id upload hrow
  have howner := h id upload hrow
  by_cases hid : id = uploadID
  · subst hid
    rw [hfresh] at howner
    cases howner
  · rw [Function.update_of_ne hid, howner]

end Tables

namespace MultipartService

variable {ms : MultipartService} {issued : UploadID → Option (UserID × VaultID)}

theorem Issued.initiateUpload (h : ms.Issued issued) {userID : UserID} {vaultID : VaultID}
    {o : InitiateOutcome}
    (hid : ∀ uploadID, o.create = .ok uploadID → issued uploadID = some (userID, vaultID))
    (fileID : BlobID) (totalSize : Int) :
    (ms.initiateUpload userID vaultID fileID totalSize o).service.Issued issued := by
  rw [MultipartService.initiateUpload]
  split
  · exact h
  · cases hcreate : o.create with
    | error text => exact h
    | ok uploadID =>
      have howner := hid uploadID hcreate
      cases hstore : ms.store with
      | none => exact h.cache howner
      | some store =>
        have hstored := h.store store hstore
        cases hinsert : o.insert with
        | some text =>
          simp only [Store.insert]
          exact h.withStore hstored
        | none =>
          cases hrow : store uploadID with
          | some row =>
            simp only [Store.insert, hrow]
            exact h.withStore hstored
          | none =>
            simp only [Store.insert, hrow]
            refine Issued.cache (h.withStore ?_) howner
            exact hstored.update (by simpa [newUpload] using howner)

theorem Issued.cleanupExpiredOnce (h : ms.Issued issued) (o : SweepOutcome) :
    (ms.cleanupExpiredOnce o).Issued issued := by
  rw [MultipartService.cleanupExpiredOnce]
  cases hstore : ms.store with
  | none =>
    refine ⟨h.uploads.of_sub ?_, by simp⟩
    intro id upload hrow
    exact (Option.filter_eq_some_iff.mp hrow).1
  | some store =>
    have hstored := h.store store hstore
    by_cases hlisted : o.listed
    · simp only [hlisted, if_true]
      constructor
      · apply h.uploads.of_sub
        intro id upload hrow
        simp only at hrow
        split at hrow
        · cases hrow
        · exact hrow
      · intro after hafter
        obtain rfl := Option.some.inj hafter
        apply hstored.of_sub
        intro id upload hrow
        exact (Option.filter_eq_some_iff.mp hrow).1
    · simp only [hlisted]
      exact h

end MultipartService

namespace Cluster

variable (c : Cluster) (userID : UserID) (vaultID : VaultID)

/-- What the user sees for the vault. -/
def own : Cluster where
  caches := fun replica => ownIn userID vaultID (c.caches replica)
  store := c.store.map (ownIn userID vaultID)
  issued := c.issued

/-- The uploads of the other users and vaults. -/
def foreign : Cluster where
  caches := fun replica => foreignIn userID vaultID (c.caches replica)
  store := c.store.map (foreignIn userID vaultID)
  issued := c.issued

def Exposed (uploadID : UploadID) (o : GetOutcome) : Prop :=
  ∃ store, c.store = some store ∧ store.Exposed userID vaultID uploadID o

/-- Every upload belongs to whom its identifier was given for. -/
def Issued : Prop := ∀ replica, (c.service replica).Issued c.issued

variable {c} {userID} {vaultID}

theorem Issued.start (store : Bool) : (start store).Issued := by
  intro replica
  refine ⟨fun id upload hrow => by simp [service, Cluster.start] at hrow, ?_⟩
  intro table htable id upload hrow
  cases store with
  | false => simp [service, Cluster.start] at htable
  | true =>
    obtain rfl : (fun _ => none) = table := by simpa [service, Cluster.start] using htable
    cases hrow

theorem Issued.withService (h : c.Issued) {replica : ReplicaID} {ms : MultipartService}
    (hms : ms.Issued c.issued) : (c.withService replica ms).Issued := by
  intro other
  refine ⟨?_, hms.store⟩
  by_cases hother : other = replica
  · subst hother
    simpa [service, Cluster.withService] using hms.uploads
  · simpa [service, Cluster.withService, Function.update_of_ne hother] using (h other).uploads

theorem Issued.issue (h : c.Issued) {o : InitiateOutcome} (hfresh : c.isFresh o = true) :
    (c.issue userID vaultID o).Issued := by
  cases hcreate : o.create with
  | error text =>
    simp only [Cluster.issue, hcreate]
    exact h
  | ok uploadID =>
    have hid : c.issued uploadID = none := by simpa [isFresh, hcreate] using hfresh
    simp only [Cluster.issue, hcreate]
    intro replica
    refine ⟨(h replica).uploads.issue hid _, ?_⟩
    intro store hstore
    exact ((h replica).store store hstore).issue hid _

theorem Issued.step (h : c.Issued) (e : Event) : (c.step e).Issued := by
  cases e with
  | initiate replica userID vaultID fileID totalSize o =>
    rw [Cluster.step]
    split
    case isTrue hfresh =>
      have hissue : (c.issue userID vaultID o).Issued := h.issue hfresh
      have hservice : (c.issue userID vaultID o).service replica = c.service replica := by
        rw [Cluster.issue]
        split <;> rfl
      refine hissue.withService (MultipartService.Issued.initiateUpload ?_ ?_ fileID totalSize)
      · rw [← hservice]
        exact hissue replica
      · intro uploadID hcreate
        simp [Cluster.issue, hcreate]
    case isFalse => exact h
  | perform replica userID vaultID uploadID op o =>
    exact h.withService ((h replica).perform o op).1.issued
  | sweep replica o => exact h.withService ((h replica).cleanupExpiredOnce o)
  | restart replica =>
    intro other
    refine ⟨?_, (h other).store⟩
    apply (h other).uploads.of_sub
    intro id upload hrow
    by_cases hother : other = replica
    · subst hother
      simp [Cluster.step, service] at hrow
    · simpa [Cluster.step, service, Function.update_of_ne hother] using hrow

theorem Issued.run (h : c.Issued) (events : List Event) : (c.run events).Issued :=
  Run.foldl_preserves (A := fun _ => True) (fun _ e _ hc => hc.step e) events c
    (fun _ _ => trivial) h

/-! ## Isolation -/

theorem own_withService (replica : ReplicaID) (ms : MultipartService) :
    (c.withService replica ms).own userID vaultID
      = (c.own userID vaultID).withService replica (ms.own userID vaultID) := by
  simp only [own, withService, MultipartService.own, mk.injEq, and_true]
  funext other
  by_cases hother : other = replica
  · subst hother
    simp
  · simp [Function.update_of_ne hother]

theorem withService_foreign {replica : ReplicaID} {ms : MultipartService}
    (h : ms.foreign userID vaultID = (c.service replica).foreign userID vaultID) :
    (c.withService replica ms).foreign userID vaultID = c.foreign userID vaultID := by
  simp only [MultipartService.foreign, MultipartService.mk.injEq, service] at h
  simp only [foreign, withService, mk.injEq, h.2, and_true]
  funext other
  by_cases hother : other = replica
  · subst hother
    simpa using h.1
  · simp [Function.update_of_ne hother]

end Cluster

/-- **Tenant isolation.** From every state that the replicas can reach, an
operation leaves the uploads of the others as they are, in every cache and in
the store, and does to the user's own for the vault what it would do if the
others did not exist. It sends and returns the same as well, just when it does
not name a foreign upload that the store finds and then fails to read the
parts of. -/
theorem tenants_isolated (store : Bool) (events : List Event) (replica : ReplicaID)
    (userID : UserID) (vaultID : VaultID) (uploadID : UploadID) (op : Operation) (o : Outcome) :
    let c := (Cluster.start store).run events
    let alone := c.own userID vaultID
    let after := c.step (.perform replica userID vaultID uploadID op o)
    let answer := c.perform replica userID vaultID uploadID op o
    let answerAlone := alone.perform replica userID vaultID uploadID op o
    after.foreign userID vaultID = c.foreign userID vaultID
      ∧ after.own userID vaultID = alone.step (.perform replica userID vaultID uploadID op o)
      ∧ (answer.sent = answerAlone.sent ∧ answer.result = answerAlone.result
          ↔ ¬c.Exposed userID vaultID uploadID o.get) := by
  intro c alone after answer answerAlone
  have hissued : c.Issued := (Cluster.Issued.start store).run events
  have hguarded : MultipartService.Guarded userID vaultID c.issued uploadID o.get
      (c.service replica) fun ms => ms.perform userID vaultID uploadID o op :=
    (hissued replica).perform o op
  obtain ⟨hconfined, hanswer⟩ := hguarded
  refine ⟨Cluster.withService_foreign hconfined.foreign, ?_, ?_⟩
  · have hafter : after.own userID vaultID
        = alone.withService replica (answer.service.own userID vaultID) :=
      Cluster.own_withService replica answer.service
    rw [hafter]
    exact congrArg (alone.withService replica) hconfined.own.symm
  · rw [eq_comm, @eq_comm _ answer.result]
    exact hanswer

/-- The upload of one user is told from a missing one by another, when
reading its parts times out. -/
theorem foreign_upload_exposed :
    let c := (Cluster.start true).run
      [.initiate 0 "user-a" 1 1 5 ⟨.unset, .ok 7, none, "duplicate key", 0⟩]
    let o : Outcome := ⟨⟨none, some (.query "timeout")⟩, ⟨none, "foreign key", none⟩, none, none,
      .ok 5, .unset, none, none, true, 1⟩
    let answer := c.perform 0 "user-b" 2 7 .getUploadProgress o
    let answerAlone := (c.own "user-b" 2).perform 0 "user-b" 2 7 .getUploadProgress o
    answer.result = .error "multipart store: get parts: timeout"
      ∧ answerAlone.result = .error "upload not found"
      ∧ answer.result ≠ answerAlone.result := by
  refine ⟨rfl, rfl, fun h => ?_⟩
  have htexts := Except.error.inj h
  exact absurd htexts (by decide)

end UsbVault.Storage.Multipart
