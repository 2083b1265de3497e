import UsbVault.Vault.KeyHierarchy

/-!
# Key versions

A call compares its version with the row's in one statement and stores it in
another. The versions of a vault increase with every accepted store along a
run just when each `UPDATE` still finds the vault there with a lower version
(`versions_forward_iff`): two calls that have passed the comparison, a
version that could not be read, or a vault deleted meanwhile break it
(`version_goes_back`). Stores of each vault one after another do not
(`overtake_of_inTurn`).
-/

namespace UsbVault.KeyHierarchy

open Tables

variable {s s' : Store} {vaultID id : VaultID} {userID : UserID} {keys : KeySet} {v : Vault}
variable {c : Call} {o : Execution} {accepted : Bool}

/-! ## Versions that only increase -/

/-- The versions the column has had, the latest first. -/
def Store.versions (s : Store) (id : VaultID) : List Int :=
  ((s.ledger id).filter (·.stored)).map (·.version) ++ [defaultVersion]

/-- What was accepted is stored, each time over a lower version. -/
structure Forward (s : Store) : Prop where
  accepted_stored : ∀ id, ∀ e ∈ s.ledger id, e.accepted = true → e.stored = true
  increasing : ∀ id, (s.versions id).Pairwise (· > ·)

/-- The `UPDATE` about to be executed finds the vault with a lower version; one
whose answer is lost may find none. -/
def Call.Overtakes (s : Store) (c : Call) (o : Execution) : Prop :=
  match c.pc with
  | .update keys =>
    match keys.execution o with
    | .failed => True
    | .done => ∃ v ∈ s.owned c.vaultID c.userID, v.version < keys.keyVersion
    | .unacknowledged => ∀ v ∈ s.owned c.vaultID c.userID, v.version < keys.keyVersion
  | _ => True

instance (s : Store) (c : Call) (o : Execution) : Decidable (c.Overtakes s o) := by
  unfold Call.Overtakes
  split
  · split <;> infer_instance
  · infer_instance

/-- Every `UPDATE` overtakes what it finds. -/
def StoresOvertake (s : State) : Action → Prop
  | .world _ => True
  | .exec k o => ∀ c ∈ s.calls[k]?, c.Overtakes s.store o

instance (s : State) (a : Action) : Decidable (StoresOvertake s a) :=
  match a with
  | .world _ => inferInstanceAs (Decidable True)
  | .exec k o => inferInstanceAs (Decidable (∀ c ∈ s.calls[k]?, c.Overtakes s.store o))

/-! ## The column and its history -/

/-- The column has the latest version. -/
structure Tied (s : Store) : Prop where
  present : ∀ id v, s.vaults id = some v → v.keyVersion = (s.versions id).head?
  absent : ∀ id, s.vaults id = none → s.versions id = [defaultVersion]

theorem versions_note_self {e : Entry} :
    (s.note id e).versions id
      = if e.stored then e.version :: s.versions id else s.versions id := by
  simp only [Store.versions, Store.note, Function.update_self, List.filter_cons]
  split <;> rfl

theorem versions_note_ne {id' : VaultID} {e : Entry} (h : id' ≠ id) :
    (s.note id e).versions id' = s.versions id' := by
  simp only [Store.versions, Store.note, Function.update_of_ne h]

theorem versions_of_vaults {vaults : VaultID → Option Vault} :
    Store.versions ⟨vaults, s.ledger⟩ id = s.versions id := rfl

theorem owned_eq_some (h : s.owned vaultID userID = some v) : s.vaults vaultID = some v :=
  (Option.filter_eq_some_iff.mp h).1

theorem Tied.note (h : Tied s) {e : Entry} (he : e.stored = false) : Tied (s.note id e) := by
  have hversions : ∀ id', (s.note id e).versions id' = s.versions id' := by
    intro id'
    by_cases hid : id' = id
    · rw [hid, versions_note_self, he]
      rfl
    · exact versions_note_ne hid
  refine ⟨?_, ?_⟩
  · intro id' v hv
    rw [hversions]
    exact h.present id' v hv
  · intro id' hnone
    rw [hversions]
    exact h.absent id' hnone

theorem Tied.storeKeys (h : Tied s) : Tied (s.storeKeys vaultID userID keys accepted) := by
  rw [Store.storeKeys]
  cases howned : s.owned vaultID userID with
  | none => exact h.note rfl
  | some v =>
    dsimp only
    refine ⟨?_, ?_⟩
    · intro id v' hv'
      by_cases hid : id = vaultID
      · subst hid
        simp only [Store.note, Function.update_self, Option.some.injEq] at hv'
        subst hv'
        rw [versions_note_self]
        rfl
      · rw [versions_note_ne hid]
        simp only [Store.note, Function.update_of_ne hid] at hv'
        exact h.present id v' hv'
    · intro id hnone
      by_cases hid : id = vaultID
      · subst hid
        simp [Store.note] at hnone
      · rw [versions_note_ne hid]
        simp only [Store.note, Function.update_of_ne hid] at hnone
        exact h.absent id hnone

theorem Tied.createVault (h : Tied s) {ownerID : UserID} :
    Tied (s.createVault vaultID ownerID) := by
  rw [Store.createVault]
  cases hvault : s.vaults vaultID with
  | some v => exact h
  | none =>
    refine ⟨?_, ?_⟩
    · intro id v hv
      by_cases hid : id = vaultID
      · subst hid
        simp only [Function.update_self, Option.some.injEq] at hv
        subst hv
        have hversions := h.absent id hvault
        exact (congrArg List.head? hversions).symm
      · simp only [Function.update_of_ne hid] at hv
        exact h.present id v hv
    · intro id hnone
      by_cases hid : id = vaultID
      · simp [hid] at hnone
      · simp only [Function.update_of_ne hid] at hnone
        exact h.absent id hnone

theorem Tied.deleteVault (h : Tied s) : Tied (s.deleteVault vaultID) := by
  refine ⟨?_, ?_⟩
  · intro id v hv
    by_cases hid : id = vaultID
    · subst hid
      simp only [Store.deleteVault, Function.update_self, Option.map_eq_some_iff] at hv
      obtain ⟨v', hv', rfl⟩ := hv
      exact h.present id v' hv'
    · simp only [Store.deleteVault, Function.update_of_ne hid] at hv
      exact h.present id v hv
  · intro id hnone
    by_cases hid : id = vaultID
    · subst hid
      simp only [Store.deleteVault, Function.update_self, Option.map_eq_none_iff] at hnone
      exact h.absent id hnone
    · simp only [Store.deleteVault, Function.update_of_ne hid] at hnone
      exact h.absent id hnone

/-! ## The statements -/

/-- What a statement does to the store: nothing, or the `UPDATE` of its call. -/
theorem exec_store (s : Store) (c : Call) (o : Execution) :
    (c.exec s o).1 = s ∧ (c.Overtakes s o ↔ True)
      ∨ ∃ keys accepted, (c.exec s o).1 = s.storeKeys c.vaultID c.userID keys accepted
        ∧ (c.Overtakes s o ↔ (accepted = true → s.owned c.vaultID c.userID ≠ none)
            ∧ ∀ v ∈ s.owned c.vaultID c.userID, v.version < keys.keyVersion) := by
  rw [Call.Overtakes]
  unfold Call.exec
  cases c.pc with
  | selectOwner keys =>
    left
    dsimp only
    split
    · exact ⟨rfl, Iff.rfl⟩
    · split <;> exact ⟨rfl, Iff.rfl⟩
  | selectVersion keys =>
    left
    dsimp only
    split
    · split <;> exact ⟨rfl, Iff.rfl⟩
    · exact ⟨rfl, Iff.rfl⟩
  | update keys =>
    dsimp only
    cases keys.execution o with
    | failed => exact .inl ⟨rfl, Iff.rfl⟩
    | unacknowledged => exact .inr ⟨keys, false, rfl, by simp⟩
    | done =>
      refine .inr ⟨keys, true, rfl, ?_⟩
      cases s.owned c.vaultID c.userID <;> simp
  | done answer => exact .inl ⟨rfl, Iff.rfl⟩

theorem tied_step (s : State) (a : Action) (h : Tied s.store) :
    Tied (service.step s a).store := by
  cases a with
  | world e =>
    cases e with
    | createVault vaultID ownerID => exact h.createVault
    | deleteVault vaultID => exact h.deleteVault
    | store userID vaultID body => exact h
  | exec k o =>
    cases hk : s.calls[k]? with
    | none =>
      rw [Calls.Service.step_exec_none hk]
      exact h
    | some c =>
      rw [Calls.Service.step_exec_store hk]
      rcases exec_store s.store c o with ⟨hsame, -⟩ | ⟨keys, accepted, hstores, -⟩
      · exact hsame.symm ▸ h
      · exact hstores.symm ▸ h.storeKeys

/-! ## One store -/

theorem mem_ledger_note {e entry : Entry} :
    e ∈ (s.note vaultID entry).ledger id ↔ id = vaultID ∧ e = entry ∨ e ∈ s.ledger id := by
  by_cases hid : id = vaultID
  · subst hid
    simp [Store.note]
  · simp [Store.note, hid]

theorem forward_note_iff (h : Forward s) {keyVersion : Int} :
    Forward (s.note id ⟨keyVersion, false, accepted⟩) ↔ accepted = false := by
  have hversions : ∀ id', (s.note id ⟨keyVersion, false, accepted⟩).versions id'
      = s.versions id' := by
    intro id'
    by_cases hid : id' = id
    · rw [hid, versions_note_self]
      rfl
    · exact versions_note_ne hid
  constructor
  · intro hnext
    by_contra hacc
    have hstored := hnext.accepted_stored id ⟨keyVersion, false, accepted⟩
      (by simp [Store.note]) (by simpa using hacc)
    cases hstored
  · intro hacc
    refine ⟨?_, fun id' => by rw [hversions]; exact h.increasing id'⟩
    intro id' e he haccepted
    rcases mem_ledger_note.mp he with ⟨rfl, rfl⟩ | he
    · rw [hacc] at haccepted
      cases haccepted
    · exact h.accepted_stored id' e he haccepted

/-- **One `UPDATE`** keeps the versions increasing just when it overtakes what
it finds. -/
theorem forward_storeKeys_iff (h : Forward s) (ht : Tied s) :
    Forward (s.storeKeys vaultID userID keys accepted)
      ↔ (accepted = true → s.owned vaultID userID ≠ none)
        ∧ ∀ v ∈ s.owned vaultID userID, v.version < keys.keyVersion := by
  rw [Store.storeKeys]
  cases howned : s.owned vaultID userID with
  | none =>
    dsimp only
    rw [forward_note_iff h]
    simp
  | some v =>
    dsimp only
    simp only [Option.mem_some_iff, forall_eq', ne_eq, reduceCtorEq, not_false_eq_true,
      implies_true, true_and]
    obtain ⟨first, rest, hversions⟩ : ∃ first rest, s.versions vaultID = first :: rest :=
      List.exists_cons_of_ne_nil (by simp [Store.versions])
    have hversion : v.version = first := by
      rw [Vault.version, ht.present vaultID v (owned_eq_some howned), hversions]
      rfl
    have hincreasing := h.increasing vaultID
    rw [hversions, List.pairwise_cons] at hincreasing
    rw [hversion]
    constructor
    · intro hnext
      have hall := hnext.increasing vaultID
      rw [versions_note_self, if_pos rfl, List.pairwise_cons] at hall
      refine hall.1 first ?_
      rw [versions_of_vaults, hversions]
      exact List.mem_cons_self
    · intro hlt
      refine ⟨?_, ?_⟩
      · intro id e he haccepted
        rcases mem_ledger_note.mp he with ⟨rfl, rfl⟩ | he
        · rfl
        · exact h.accepted_stored id e he haccepted
      · intro id
        by_cases hid : id = vaultID
        · subst hid
          rw [versions_note_self, if_pos rfl, versions_of_vaults, hversions,
            List.pairwise_cons, List.pairwise_cons]
          refine ⟨?_, hincreasing⟩
          intro n hn
          rcases List.mem_cons.mp hn with rfl | hn
          · exact hlt
          · exact lt_trans (hincreasing.1 n hn) hlt
        · rw [versions_note_ne hid]
          exact h.increasing id

/-- **One action.** -/
theorem forward_step_iff (s : State) (a : Action) (h : Forward s.store) (ht : Tied s.store) :
    Forward (service.step s a).store ↔ StoresOvertake s a := by
  cases a with
  | world e =>
    have hledger : (service.step s (.world e)).store.ledger = s.store.ledger := by
      cases e with
      | createVault vaultID ownerID =>
        simp only [Calls.Service.step, service, Store.createVault]
        split <;> rfl
      | deleteVault vaultID => rfl
      | store userID vaultID body => rfl
    refine iff_of_true ⟨?_, ?_⟩ True.intro
    · rw [hledger]
      exact h.accepted_stored
    · intro id
      rw [Store.versions, hledger]
      exact h.increasing id
  | exec k o =>
    cases hk : s.calls[k]? with
    | none =>
      rw [Calls.Service.step_exec_none hk]
      exact iff_of_true h fun c hc => by rw [hk] at hc; cases hc
    | some c =>
      have hok : StoresOvertake s (.exec k o) ↔ c.Overtakes s.store o := by
        rw [StoresOvertake, hk]
        simp
      rw [hok, Calls.Service.step_exec_store hk]
      rcases exec_store s.store c o with ⟨hsame, hfree⟩ | ⟨keys, accepted, hstores, hexact⟩
      · rw [hfree]
        exact iff_of_true (hsame.symm ▸ h) True.intro
      · rw [hexact, ← forward_storeKeys_iff h ht]
        exact Iff.of_eq (congrArg Forward hstores)

/-! ## Every run -/

theorem start_forward : Forward start.store :=
  ⟨fun id e he => (by cases he), fun id => List.pairwise_singleton _ _⟩

theorem start_tied : Tied start.store :=
  ⟨fun id v hv => (by cases hv), fun id _ => rfl⟩

/-- **The versions increase with every accepted store** in every state of a
run just when every `UPDATE` of it overtakes what it finds. -/
theorem versions_forward_iff (as : List Action) :
    (∀ pre post, as = pre ++ post → Forward (service.run start pre).store)
      ↔ Run.Each service.step StoresOvertake start as :=
  @Run.Each.iff_prefixes_beside _ _ service.step StoresOvertake
    (fun s => Tied s.store) (fun s => Forward s.store) tied_step
    (fun s a ht h => forward_step_iff s a h ht) as start start_tied start_forward

/-! ## Stores of a vault one after another -/

/-- The version is read, and an `UPDATE` is executed while the vault is there
and no other call for it is between its comparison and its `UPDATE`. -/
def Call.InTurn (s : State) (k : Nat) (c : Call) (o : Execution) : Prop :=
  match c.pc with
  | .selectVersion _ => o = .done
  | .update keys => keys.execution o ≠ .failed →
      s.store.owned c.vaultID c.userID ≠ none
      ∧ ∀ (j : Nat) (c' : Call) keys', j ≠ k → s.calls[j]? = some c' → c'.vaultID = c.vaultID →
        c'.pc ≠ .update keys'
  | _ => True

def StoresInTurn (s : State) : Action → Prop
  | .world _ => True
  | .exec k o => ∀ c ∈ s.calls[k]?, c.InTurn s k o

/-- A call that knows its vault, and one that has compared its version with
the row's. -/
def Call.Compared (s : Store) (c : Call) : Prop :=
  match c.pc with
  | .selectVersion _ => ∃ v, s.vaults c.vaultID = some v
  | .update keys => ∃ v, s.vaults c.vaultID = some v ∧ v.version < keys.keyVersion
  | _ => True

/-- It stays so while the row is there, and has the version compared with. -/
theorem Call.Compared.keep (h : c.Compared s)
    (hkeep : ∀ v, s.vaults c.vaultID = some v → ∃ v', s'.vaults c.vaultID = some v'
      ∧ ∀ keys, c.pc = .update keys → v'.version = v.version) : c.Compared s' := by
  unfold Call.Compared at h ⊢
  split
  · rename_i hpc
    rw [hpc] at h
    obtain ⟨v, hv⟩ := h
    obtain ⟨v', hv', -⟩ := hkeep v hv
    exact ⟨v', hv'⟩
  · rename_i keys hpc
    rw [hpc] at h
    obtain ⟨v, hv, hlt⟩ := h
    obtain ⟨v', hv', hsame⟩ := hkeep v hv
    exact ⟨v', hv', (hsame keys hpc).trans_lt hlt⟩
  · trivial

theorem version_world (e : Event) (hv : s.vaults id = some v) :
    ∃ v', (service.world s e).1.vaults id = some v' ∧ v'.version = v.version := by
  cases e with
  | createVault vaultID ownerID =>
    simp only [service, Store.createVault]
    split
    · exact ⟨v, hv, rfl⟩
    · rename_i hnone
      have hne : id ≠ vaultID := fun heq => by rw [← heq, hv] at hnone; cases hnone
      exact ⟨v, (Function.update_of_ne hne _ _).trans hv, rfl⟩
  | deleteVault vaultID =>
    by_cases heq : id = vaultID
    · subst heq
      exact ⟨{ v with deleted := true }, by
        simp only [service, Store.deleteVault, Function.update_self, hv]; rfl, rfl⟩
    · exact ⟨v, (Function.update_of_ne heq _ _).trans hv, rfl⟩
  | store userID vaultID body => exact ⟨v, hv, rfl⟩

/-- A statement changes a row only as the `UPDATE` of its vault. -/
theorem vaults_exec (hv : s.vaults id = some v) :
    ∃ v', (c.exec s o).1.vaults id = some v'
      ∧ (v' = v ∨ id = c.vaultID ∧ ∃ keys, c.pc = .update keys ∧ keys.execution o ≠ .failed) := by
  have hstores : ∀ keys accepted, c.pc = .update keys → keys.execution o ≠ .failed →
      ∃ v', (s.storeKeys c.vaultID c.userID keys accepted).vaults id = some v'
        ∧ (v' = v ∨ id = c.vaultID ∧ ∃ keys, c.pc = .update keys ∧ keys.execution o ≠ .failed) := by
    intro keys accepted hpc hran
    rw [Store.storeKeys]
    split
    · exact ⟨v, hv, .inl rfl⟩
    · by_cases heq : id = c.vaultID
      · subst heq
        exact ⟨_, Function.update_self _ _ _, .inr ⟨rfl, keys, hpc, hran⟩⟩
      · exact ⟨v, (Function.update_of_ne heq _ _).trans hv, .inl rfl⟩
  unfold Call.exec
  split
  · split
    · exact ⟨v, hv, .inl rfl⟩
    · split <;> exact ⟨v, hv, .inl rfl⟩
  · split
    · split <;> exact ⟨v, hv, .inl rfl⟩
    · exact ⟨v, hv, .inl rfl⟩
  · rename_i keys hpc
    split
    · rename_i hran
      exact hstores keys true hpc (by rw [hran]; simp)
    · exact ⟨v, hv, .inl rfl⟩
    · rename_i hran
      exact hstores keys false hpc (by rw [hran]; simp)
  · exact ⟨v, hv, .inl rfl⟩

theorem Call.Compared.exec {S : State} {k : Nat} (h : c.Compared S.store)
    (hturn : c.InTurn S k o) : (c.exec S.store o).2.Compared (c.exec S.store o).1 := by
  rw [Call.Compared] at h
  rw [Call.InTurn] at hturn
  unfold Call.exec
  cases hpc : c.pc with
  | selectOwner keys =>
    dsimp only
    split
    · trivial
    · rename_i v hfound
      obtain ⟨hv, -⟩ := Option.filter_eq_some_iff.mp (Option.ite_none_right_eq_some.mp hfound).2
      split
      · trivial
      · exact ⟨v, hv⟩
  | selectVersion keys =>
    rw [hpc] at h hturn
    obtain ⟨v, hv⟩ := h
    obtain rfl : o = .done := hturn
    simp only [if_true, hv]
    split
    · trivial
    · rename_i hlower
      exact ⟨v, hv, not_le.mp hlower⟩
  | update keys =>
    dsimp only
    split <;> trivial
  | done answer =>
    rw [Call.Compared, hpc]
    trivial

theorem Call.Compared.other {S : State} {k j : Nat} {c' : Call} (h : c'.Compared S.store)
    (hturn : c.InTurn S k o) (hjk : j ≠ k) (hj : S.calls[j]? = some c') :
    c'.Compared (c.exec S.store o).1 := by
  refine h.keep fun v hv => ?_
  obtain ⟨v', hv', hsame⟩ := vaults_exec (c := c) (o := o) hv
  refine ⟨v', hv', fun keys' hpc' => ?_⟩
  rcases hsame with rfl | ⟨hid, keys, hpc, hran⟩
  · rfl
  · rw [Call.InTurn, hpc] at hturn
    exact absurd hpc' ((hturn hran).2 j c' keys' hjk hj hid)

/-- **Stores of each vault one after another** overtake what they find. -/
theorem overtake_of_inTurn {as : List Action}
    (hrun : Run.Each service.step StoresInTurn start as) :
    Run.Each service.step StoresOvertake start as := by
  have hstart : Calls.Holds (fun _ => True) (fun st _ c => c.Compared st) start :=
    Calls.Holds.initial trivial
  refine hrun.imp ?_ (fun s a hs hturn => Calls.Holds.step ?_ ?_ s a hturn hs) hstart
  · intro s a hs hturn
    cases a with
    | world e => trivial
    | exec k o =>
      intro c hk
      have hcall := hturn c hk
      have hknown := hs.call k c (Option.mem_def.mp hk)
      unfold Call.Overtakes
      split
      · rename_i keys hpc
        rw [Call.Compared, hpc] at hknown
        rw [Call.InTurn, hpc] at hcall
        obtain ⟨v, hv, hlt⟩ := hknown
        -- the row that the `UPDATE` finds is the one compared with
        have hlower : ∀ v' ∈ s.store.owned c.vaultID c.userID, v'.version < keys.keyVersion := by
          intro v' hv'
          obtain rfl := Option.some.inj (hv.symm.trans (owned_eq_some hv'))
          exact hlt
        split
        · trivial
        · rename_i hran
          obtain ⟨hthere, -⟩ := hcall (by rw [hran]; simp)
          obtain ⟨v', hv'⟩ := Option.ne_none_iff_exists'.mp hthere
          exact ⟨v', hv', hlower v' hv'⟩
        · exact hlower
      · trivial
  · intro s e h _
    refine ⟨trivial, ?_, ?_⟩
    · intro k c _ hc
      refine hc.keep fun v hv => ?_
      obtain ⟨v', hv', hsame⟩ := version_world e hv
      exact ⟨v', hv', fun _ _ => hsame⟩
    · intro c hc
      cases e with
      | store userID vaultID body =>
        cases hc
        unfold startCall
        split
        · trivial
        · split <;> trivial
      | createVault vaultID ownerID => cases hc
      | deleteVault vaultID => cases hc
  · intro s k c o h hturn hk
    have hcall := hturn c (Option.mem_def.mpr hk)
    exact ⟨trivial, (h.call k c hk).exec hcall, fun j c' hjk hj hc' => hc'.other hcall hjk hj⟩

/-! ## A version that goes back -/

def sampleBody (keyVersion : Int) : StoreKeyHierarchyRequest :=
  ⟨.ofList (List.replicate 108 'A'), .ofList (List.replicate 64 '0'), keyVersion⟩

/-- User 7 sends two stores side by side for the vault 1, of the versions 3
and 2, and both have compared their versions. -/
def sampleTogether : List Action :=
  [.world (.createVault 1 7), .world (.store 7 1 (some (sampleBody 3))),
    .world (.store 7 1 (some (sampleBody 2))), .exec 0 .done, .exec 1 .done, .exec 0 .done,
    .exec 1 .done, .exec 0 .done, .exec 1 .done]

/-- The version of the second cannot be read. -/
def sampleUnread : List Action :=
  [.world (.createVault 1 7), .world (.store 7 1 (some (sampleBody 3))), .exec 0 .done,
    .exec 0 .done, .exec 0 .done, .world (.store 7 1 (some (sampleBody 2))), .exec 1 .done,
    .exec 1 .failed, .exec 1 .done]

/-- What the body stores. -/
def sampleKeys (keyVersion : Int) (h : 1 ≤ keyVersion) : KeySet :=
  ⟨Wire.zeros 81, Wire.zeroVec 32, keyVersion, by decide, h⟩

theorem sampleBody_valid {keyVersion : Int} (h : 1 ≤ keyVersion) :
    (sampleBody keyVersion).validate = .ok (sampleKeys keyVersion h) := by
  have hmek : decodeString (sampleBody keyVersion).wrappedMekB64 = some (Wire.zeros 81) := by
    show decodeString (.ofList (List.replicate 108 'A')) = some (Wire.zeros 81)
    decide +kernel
  have hsalt : decodeHexString (sampleBody keyVersion).kekSaltHex.toList = some (Wire.zeros 32) := by
    show decodeHexString (String.ofList (List.replicate 64 '0')).toList = some (Wire.zeros 32)
    rw [String.toList_ofList]
    decide +kernel
  rw [StoreKeyHierarchyRequest.validate, hmek]
  dsimp only
  rw [dif_pos (by decide), hsalt]
  exact dif_pos h

theorem startCall_sample {keyVersion : Int} (h : 1 ≤ keyVersion) :
    startCall 7 1 (some (sampleBody keyVersion))
      = ⟨7, 1, .selectOwner (sampleKeys keyVersion h)⟩ := by
  rw [startCall, sampleBody_valid h]

theorem run_store_sample {keyVersion : Int} (h : 1 ≤ keyVersion) (s : State)
    (as : List Action) :
    service.run s (.world (.store 7 1 (some (sampleBody keyVersion))) :: as)
      = service.run ⟨s.store, s.calls ++ [⟨7, 1, .selectOwner (sampleKeys keyVersion h)⟩]⟩ as := by
  rw [← startCall_sample]
  rfl

/-- **The version 3 is overwritten by the version 2**, and both stores are
accepted. -/
theorem version_goes_back :
    (¬Forward (service.run start sampleTogether).store
        ∧ (service.run start sampleTogether).store.versions 1 = [2, 3, 1]
        ∧ (service.run start sampleTogether).calls.map (·.pc)
          = [.done (200, "stored"), .done (200, "stored")])
      ∧ ¬Forward (service.run start sampleUnread).store
        ∧ (service.run start sampleUnread).store.versions 1 = [2, 3, 1] := by
  have hback : ∀ {s : Store}, s.versions 1 = [2, 3, 1] → ¬Forward s := by
    intro s hversions hforward
    have hincreasing := hforward.increasing 1
    rw [hversions] at hincreasing
    exact absurd hincreasing (by decide)
  have htogether : (service.run start sampleTogether).store.versions 1 = [2, 3, 1]
      ∧ (service.run start sampleTogether).calls.map (·.pc)
        = [.done (200, "stored"), .done (200, "stored")] := by
    rw [sampleTogether, Calls.Service.run_cons, run_store_sample (by decide),
      run_store_sample (by decide)]
    decide +kernel
  have hunread : (service.run start sampleUnread).store.versions 1 = [2, 3, 1] := by
    rw [sampleUnread, Calls.Service.run_cons, run_store_sample (by decide),
      Calls.Service.run_cons, Calls.Service.run_cons, Calls.Service.run_cons,
      run_store_sample (by decide)]
    decide +kernel
  exact ⟨⟨hback htogether.1, htogether⟩, hback hunread, hunread⟩

end UsbVault.KeyHierarchy
