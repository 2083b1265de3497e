import UsbVault.Shares.Creation

/-!
# The cap on shares

The cap is compared with a count of the sender's shares, which covers those
of a vault whose shares are all the sender's (`fits_of_count`). But the count
and the `INSERT` are two statements: no vault ever has more active shares than
the cap just when every `INSERT` still finds its vault below it
(`share_cap_iff`), as when each sender's calls come one after another from the
count on (`insertsFit_of_inTurn`); calls that have counted side by side do not
(`share_cap_exceeded`).
-/

namespace UsbVault.Shares

open Tables

variable {billing : Bool} {s s' : Store} {vaultID : VaultID} {c : Call} {o : Outcome}
variable {r : ShareRecord}

/-! ## The cap -/

/-- The vault of a blob. -/
def Store.vaultOf (s : Store) (blobID : BlobID) : Option VaultID :=
  (s.blobs blobID).map (·.vaultID)

def Store.activeShares (s : Store) (vaultID : VaultID) : Nat :=
  s.shares.countP fun r => s.vaultOf r.blobID = some vaultID && r.active s.now

/-- No vault has more active shares than the cap. -/
def WithinCap (s : Store) : Prop := ∀ vaultID, s.activeShares vaultID ≤ maxSharesPerVault

/-- An `INSERT` about to be executed finds the vault below the cap, unless its
row is refused or has expired already. -/
def Call.Fits (s : Store) (c : Call) (o : Outcome) : Prop :=
  c.pc = .insert → o.execution.Took → (s.createShare (c.record o)).isSome →
    (c.record o).active s.now = true →
      ∀ vaultID ∈ s.vaultOf c.blobID, s.activeShares vaultID < maxSharesPerVault

instance (s : Store) (c : Call) (o : Outcome) : Decidable (c.Fits s o) :=
  inferInstanceAs (Decidable (_ → _ → _ → _ → ∀ vaultID ∈ s.vaultOf c.blobID, _))

def InsertsFit (s : State) : Action → Prop
  | .world _ => True
  | .exec k o => ∀ c ∈ s.calls[k]?, c.Fits s.store o

instance (s : State) (a : Action) : Decidable (InsertsFit s a) :=
  match a with
  | .world _ => inferInstanceAs (Decidable True)
  | .exec k o => inferInstanceAs (Decidable (∀ c ∈ s.calls[k]?, c.Fits s.store o))

/-- The count of the sender's shares covers those of a vault whose shares are
all the sender's. -/
theorem activeShares_le_sent
    (h : ∀ r ∈ s.shares, s.vaultOf r.blobID = some vaultID → r.senderID = c.senderID) :
    s.activeShares vaultID ≤ s.countActiveSentShares c.senderID := by
  refine List.countP_mono_left ?_
  intro r hr hactive
  simp only [Bool.and_eq_true, decide_eq_true_eq] at hactive ⊢
  exact ⟨h r hr hactive.1, hactive.2⟩

theorem fits_of_count (hcount : s.countActiveSentShares c.senderID < maxSharesPerVault)
    (h : ∀ vaultID ∈ s.vaultOf c.blobID, ∀ r ∈ s.shares, s.vaultOf r.blobID = some vaultID →
      r.senderID = c.senderID) : c.Fits s o := by
  intro _ _ _ _ vaultID hvault
  exact Nat.lt_of_le_of_lt (activeShares_le_sent (h vaultID hvault)) hcount

/-! ## The rows and their blobs -/

/-- The blob of every share is there. -/
def Referenced (s : Store) : Prop := ∀ r ∈ s.shares, s.blobs r.blobID ≠ none

theorem createShare_eq (h : s.createShare r = some s') :
    s' = { s with shares := s.shares ++ [r] } ∧ s.blobs r.blobID ≠ none := by
  rw [Store.createShare, Option.ite_none_right_eq_some, Option.some.injEq] at h
  obtain ⟨⟨hblob, -⟩, rfl⟩ := h
  exact ⟨rfl, fun hnone => by rw [hnone] at hblob; cases hblob⟩

theorem Referenced.createShare (h : Referenced s) (hs : s.createShare r = some s') :
    Referenced s' := by
  obtain ⟨rfl, hblob⟩ := createShare_eq hs
  intro r' hr'
  rcases List.mem_append.mp hr' with hold | hnew
  · exact h r' hold
  · rw [List.mem_singleton.mp hnew]
    exact hblob

/-- What a statement does to the store: nothing, or the `INSERT`. -/
theorem exec_store (billing : Bool) (s : Store) (c : Call) (o : Outcome) :
    (c.exec billing s o).1 = s ∧ (c.pc = .insert → o.execution.Took →
        s.createShare (c.record o) = none)
      ∨ ∃ s', s.createShare (c.record o) = some s' ∧ (c.exec billing s o).1 = s'
        ∧ c.pc = .insert ∧ o.execution.Took := by
  unfold Call.exec
  cases hpc : c.pc with
  | insert =>
    dsimp only
    split
    · rename_i hfailed
      refine .inl ⟨rfl, fun _ htook => absurd hfailed htook⟩
    · rename_i htook
      split
      · rename_i hnone
        exact .inl ⟨rfl, fun _ _ => hnone⟩
      · rename_i s' hsome
        exact .inr ⟨s', hsome, rfl, rfl, htook⟩
  | _ => exact .inl ⟨rfl, fun h => by cases h⟩

theorem mem_shares_world {e : Event} (h : r ∈ (s.world e).1.shares) :
    r ∈ s.shares ∧ e ≠ .purgeBlob r.blobID := by
  cases e with
  | createVault vaultID ownerID =>
    simp only [Store.world, Store.createVault] at h
    split at h <;> exact ⟨h, by simp⟩
  | createBlob blobID vaultID =>
    simp only [Store.world, Store.createBlob] at h
    split at h <;> exact ⟨h, by simp⟩
  | purgeBlob blobID =>
    obtain ⟨hmem, hne⟩ := List.mem_filter.mp h
    refine ⟨hmem, fun heq => ?_⟩
    rw [Event.purgeBlob.injEq] at heq
    simp [heq] at hne
  | revokeShare senderID shareID => exact ⟨(List.mem_filter.mp h).1, by simp⟩
  | rejectShare recipientID shareID => exact ⟨(List.mem_filter.mp h).1, by simp⟩
  | cleanup picked => exact ⟨(List.mem_filter.mp h).1, by simp⟩
  | _ => exact ⟨h, by simp⟩

theorem blob_world {blobID : BlobID} {b : Blob} (hb : s.blobs blobID = some b) {e : Event}
    (he : e ≠ .purgeBlob blobID) :
    ∃ b', (s.world e).1.blobs blobID = some b' ∧ b'.vaultID = b.vaultID := by
  cases e with
  | createVault vaultID ownerID =>
    simp only [Store.world, Store.createVault]
    split <;> exact ⟨b, hb, rfl⟩
  | createBlob blobID' vaultID =>
    simp only [Store.world, Store.createBlob]
    split
    · exact ⟨b, hb, rfl⟩
    · rename_i hnone
      have hne : blobID ≠ blobID' := fun heq => by rw [← heq, hb] at hnone; cases hnone
      exact ⟨b, (Function.update_of_ne hne _ _).trans hb, rfl⟩
  | deleteBlob blobID' =>
    by_cases heq : blobID = blobID'
    · subst heq
      exact ⟨{ b with deleted := true }, by
        simp only [Store.world, Store.deleteBlob, Function.update_self, hb]; rfl, rfl⟩
    · exact ⟨b, (Function.update_of_ne heq _ _).trans hb, rfl⟩
  | purgeBlob blobID' =>
    have hne : blobID ≠ blobID' := fun heq => he (heq ▸ rfl)
    exact ⟨b, (Function.update_of_ne hne _ _).trans hb, rfl⟩
  | _ => exact ⟨b, hb, rfl⟩

theorem vault_world {v : Vault} (hv : s.vaults vaultID = some v) (e : Event) :
    ∃ v', (s.world e).1.vaults vaultID = some v' ∧ v'.ownerID = v.ownerID := by
  cases e with
  | createVault vaultID' ownerID =>
    simp only [Store.world, Store.createVault]
    split
    · exact ⟨v, hv, rfl⟩
    · rename_i hnone
      have hne : vaultID ≠ vaultID' := fun heq => by rw [← heq, hv] at hnone; cases hnone
      exact ⟨v, (Function.update_of_ne hne _ _).trans hv, rfl⟩
  | createBlob blobID vaultID' =>
    simp only [Store.world, Store.createBlob]
    split <;> exact ⟨v, hv, rfl⟩
  | deleteVault vaultID' =>
    by_cases heq : vaultID = vaultID'
    · subst heq
      exact ⟨{ v with deleted := true }, by
        simp only [Store.world, Store.deleteVault, Function.update_self, hv]; rfl, rfl⟩
    · exact ⟨v, (Function.update_of_ne heq _ _).trans hv, rfl⟩
  | _ => exact ⟨v, hv, rfl⟩

theorem Referenced.world (h : Referenced s) (e : Event) : Referenced (s.world e).1 := by
  intro r hr
  obtain ⟨hold, he⟩ := mem_shares_world hr
  obtain ⟨b, hb⟩ := Option.ne_none_iff_exists'.mp (h r hold)
  obtain ⟨b', hb', -⟩ := blob_world hb he
  rw [hb']
  exact Option.some_ne_none b'

theorem Referenced.step (s : State) (a : Action) (h : Referenced s.store) :
    Referenced ((service billing).step s a).store := by
  cases a with
  | world e => exact h.world e
  | exec k o =>
    cases hk : s.calls[k]? with
    | none =>
      rw [Calls.Service.step_exec_none hk]
      exact h
    | some c =>
      rw [Calls.Service.step_exec_store hk]
      rcases exec_store billing s.store c o with ⟨hsame, -⟩ | ⟨s', hs', heq, -⟩
      · exact hsame.symm ▸ h
      · exact heq.symm ▸ h.createShare hs'

/-! ## What lowers the count -/

theorem activeShares_filter_le (p : ShareRecord → Bool) :
    Store.activeShares { s with shares := s.shares.filter p } vaultID ≤ s.activeShares vaultID :=
  List.filter_sublist.countP_le

theorem WithinCap.filter (h : WithinCap s) (p : ShareRecord → Bool) :
    WithinCap { s with shares := s.shares.filter p } :=
  fun vaultID => Nat.le_trans (activeShares_filter_le p) (h vaultID)

theorem WithinCap.of_vaultOf (h : WithinCap s) (hshares : s'.shares = s.shares)
    (hnow : s'.now = s.now) (hvault : ∀ r ∈ s.shares, s'.vaultOf r.blobID = s.vaultOf r.blobID) :
    WithinCap s' := by
  intro vaultID
  refine Nat.le_trans (Nat.le_of_eq ?_) (h vaultID)
  rw [Store.activeShares, Store.activeShares, hshares, hnow]
  refine List.countP_congr ?_
  intro r hr
  rw [hvault r hr]

theorem active_of_later {now duration : Nat} (h : r.active (now + duration) = true) :
    r.active now = true := by
  rw [ShareRecord.active] at h ⊢
  cases hexpires : r.expiresAt with
  | none => rfl
  | some expiresAt =>
    have hlater : now + duration < expiresAt := by simpa [hexpires] using h
    simp only [Option.all_some, decide_eq_true_eq]
    omega

theorem WithinCap.elapse (h : WithinCap s) (duration : Nat) :
    WithinCap { s with now := s.now + duration } := by
  intro vaultID
  refine Nat.le_trans (List.countP_mono_left ?_) (h vaultID)
  intro r _ hactive
  simp only [Bool.and_eq_true] at hactive ⊢
  exact ⟨hactive.1, active_of_later hactive.2⟩

/-- **What the world does** never takes a vault above the cap. -/
theorem WithinCap.world (h : WithinCap s) (hrows : Referenced s) (e : Event) :
    WithinCap (s.world e).1 := by
  cases e with
  | createVault vaultID ownerID =>
    simp only [Store.world, Store.createVault]
    split
    · exact h
    · exact h.of_vaultOf rfl rfl fun _ _ => rfl
  | createBlob blobID vaultID =>
    simp only [Store.world, Store.createBlob]
    split
    · exact h
    · rename_i hnone
      refine h.of_vaultOf rfl rfl ?_
      intro r hr
      have hblob : r.blobID ≠ blobID := fun heq => hrows r hr (heq ▸ hnone)
      rw [Store.vaultOf, Store.vaultOf]
      simp only [Function.update_of_ne hblob]
  | deleteVault vaultID => exact h.of_vaultOf rfl rfl fun _ _ => rfl
  | deleteBlob blobID =>
    refine h.of_vaultOf rfl rfl ?_
    intro r _
    simp only [Store.world, Store.deleteBlob, Store.vaultOf]
    by_cases hblob : r.blobID = blobID
    · rw [hblob, Function.update_self, Option.map_map]
      rfl
    · rw [Function.update_of_ne hblob]
  | purgeBlob blobID =>
    refine (h.filter fun r => r.blobID ≠ blobID).of_vaultOf rfl rfl ?_
    intro r hr
    have hblob : r.blobID ≠ blobID := by simpa using (List.mem_filter.mp hr).2
    simp only [Store.world, Store.purgeBlob, Store.vaultOf, Function.update_of_ne hblob]
  | revokeShare senderID shareID => exact h.filter _
  | rejectShare recipientID shareID => exact h.filter _
  | cleanup picked => exact h.filter _
  | elapse duration => exact h.elapse duration
  | createShare senderID recipientID blobID encryptedKey => exact h

/-! ## One `INSERT` -/

theorem activeShares_append :
    Store.activeShares { s with shares := s.shares ++ [r] } vaultID
      = s.activeShares vaultID
        + if s.vaultOf r.blobID = some vaultID ∧ r.active s.now = true then 1 else 0 := by
  rw [Store.activeShares, Store.activeShares, List.countP_append, List.countP_singleton]
  congr 1
  refine if_congr ?_ rfl rfl
  rw [Bool.and_eq_true, decide_eq_true_eq]
  rfl

/-- **One `INSERT`** keeps within the cap just when its vault is below it. -/
theorem withinCap_insert_iff (h : WithinCap s) :
    WithinCap { s with shares := s.shares ++ [r] }
      ↔ (r.active s.now = true →
        ∀ vaultID ∈ s.vaultOf r.blobID, s.activeShares vaultID < maxSharesPerVault) := by
  constructor
  · intro hnext hactive vaultID hvault
    have hle := hnext vaultID
    rw [activeShares_append, if_pos ⟨hvault, hactive⟩] at hle
    omega
  · intro hfits vaultID
    rw [activeShares_append]
    split
    · rename_i hcounts
      have hlt := hfits hcounts.2 vaultID hcounts.1
      omega
    · exact h vaultID

/-- **One action.** -/
theorem withinCap_step_iff (s : State) (a : Action) (h : WithinCap s.store)
    (hrows : Referenced s.store) :
    WithinCap ((service billing).step s a).store ↔ InsertsFit s a := by
  cases a with
  | world e => exact iff_of_true (h.world hrows e) True.intro
  | exec k o =>
    cases hk : s.calls[k]? with
    | none =>
      rw [Calls.Service.step_exec_none hk]
      exact iff_of_true h fun c hc => by rw [hk] at hc; cases hc
    | some c =>
      have hok : InsertsFit s (.exec k o) ↔ c.Fits s.store o := by
        rw [InsertsFit, hk]
        simp
      have hstore : ((service billing).step s (.exec k o)).store
          = (c.exec billing s.store o).1 := Calls.Service.step_exec_store hk o
      rw [hok, hstore, Call.Fits]
      rcases exec_store billing s.store c o with ⟨hsame, hnone⟩ | ⟨s', hs', heq, hpc, htook⟩
      · rw [hsame]
        refine iff_of_true h ?_
        intro hpc htook hsome
        rw [hnone hpc htook] at hsome
        cases hsome
      · obtain ⟨rfl, -⟩ := createShare_eq hs'
        rw [heq, withinCap_insert_iff h]
        simp only [hpc, htook, hs', Option.isSome_some, forall_const]
        rfl

/-! ## Every run -/

/-- **No vault has more active shares than the cap** in any state of a run
just when every `INSERT` of it finds its vault below the cap. -/
theorem share_cap_iff (billing : Bool) (as : List Action) :
    (∀ pre post, as = pre ++ post → WithinCap ((service billing).run start pre).store)
      ↔ Run.Each (service billing).step InsertsFit start as :=
  @Run.Each.iff_prefixes_beside _ _ (service billing).step InsertsFit
    (fun s => Referenced s.store) (fun s => WithinCap s.store) Referenced.step
    (fun s a hrows h => withinCap_step_iff s a h hrows) as start
    (fun r hr => by cases hr) (fun vaultID => Nat.zero_le _)

/-! ## Calls of a sender one after another -/

/-- The call has counted the shares of its sender, and not inserted its own. -/
def Pc.counted : Pc → Bool
  | .verifyBlobAgain | .insert => true
  | _ => false

/-- An `INSERT` is executed while no other call of the sender is between its
count and its `INSERT`, and the blob is still the sender's. -/
def InTurn (s : State) : Action → Prop
  | .world _ => True
  | .exec k o => ∀ c ∈ s.calls[k]?, c.pc = .insert → o.execution.Took →
      s.store.blobOwnedBy c.senderID c.blobID = true
      ∧ ∀ (j : Nat) (c' : Call), j ≠ k → s.calls[j]? = some c' → c'.senderID = c.senderID →
        c'.pc.counted = false

def Store.ownerOf (s : Store) (blobID : BlobID) : Option UserID :=
  (s.blobs blobID).bind fun b => (s.vaults b.vaultID).map (·.ownerID)

/-- Every share is sent by the owner of its vault. -/
def Owned (s : Store) : Prop := ∀ r ∈ s.shares, s.ownerOf r.blobID = some r.senderID

/-- The sender of a call that has counted is below the cap. -/
def Call.BelowCap (s : Store) (c : Call) : Prop :=
  c.pc.counted = true → s.countActiveSentShares c.senderID < maxSharesPerVault

theorem ownerOf_eq_some {userID : UserID} {blobID : BlobID} :
    s.ownerOf blobID = some userID
      ↔ ∃ b v, s.blobs blobID = some b ∧ s.vaults b.vaultID = some v ∧ v.ownerID = userID := by
  simp only [Store.ownerOf, Option.bind_eq_some_iff, Option.map_eq_some_iff]
  constructor
  · rintro ⟨b, hb, v, hv, howner⟩
    exact ⟨b, v, hb, hv, howner⟩
  · rintro ⟨b, v, hb, hv, howner⟩
    exact ⟨b, hb, v, hv, howner⟩

theorem ownerOf_of_owned {userID : UserID} {blobID : BlobID}
    (h : s.blobOwnedBy userID blobID = true) : s.ownerOf blobID = some userID := by
  rw [Store.blobOwnedBy, Option.any_eq_true] at h
  obtain ⟨b, hb, hvault⟩ := h
  rw [Bool.and_eq_true, Option.any_eq_true] at hvault
  obtain ⟨-, v, hv, howner⟩ := hvault
  rw [Bool.and_eq_true, decide_eq_true_eq] at howner
  exact ownerOf_eq_some.mpr ⟨b, v, hb, hv, howner.2⟩

theorem ownerOf_world {userID : UserID} {blobID : BlobID} (h : s.ownerOf blobID = some userID)
    {e : Event} (he : e ≠ .purgeBlob blobID) : (s.world e).1.ownerOf blobID = some userID := by
  obtain ⟨b, v, hb, hv, howner⟩ := ownerOf_eq_some.mp h
  obtain ⟨b', hb', hsame⟩ := blob_world hb he
  obtain ⟨v', hv', howner'⟩ := vault_world hv e
  exact ownerOf_eq_some.mpr ⟨b', v', hb', by rw [hsame, hv'], howner'.trans howner⟩

theorem Owned.world (h : Owned s) (e : Event) : Owned (s.world e).1 := by
  intro r hr
  obtain ⟨hold, he⟩ := mem_shares_world hr
  exact ownerOf_world (h r hold) he

theorem sent_world_le {userID : UserID} (e : Event) :
    (s.world e).1.countActiveSentShares userID ≤ s.countActiveSentShares userID := by
  cases e with
  | createVault vaultID ownerID =>
    simp only [Store.world, Store.createVault]
    split <;> exact Nat.le_refl _
  | createBlob blobID vaultID =>
    simp only [Store.world, Store.createBlob]
    split <;> exact Nat.le_refl _
  | purgeBlob blobID => exact List.filter_sublist.countP_le
  | revokeShare senderID shareID => exact List.filter_sublist.countP_le
  | rejectShare recipientID shareID => exact List.filter_sublist.countP_le
  | cleanup picked => exact List.filter_sublist.countP_le
  | elapse duration =>
    refine List.countP_mono_left ?_
    intro r _ hactive
    rw [Bool.and_eq_true] at hactive ⊢
    exact ⟨hactive.1, active_of_later hactive.2⟩
  | _ => exact Nat.le_refl _

/-- A call that goes on without an `INSERT` has counted, or counts now. -/
theorem Call.BelowCap.exec (h : c.BelowCap s) : (c.exec true s o).2.BelowCap s := by
  intro hcounted
  cases hpc : c.pc with
  | count =>
    simp only [Call.exec, hpc, Call.next] at hcounted ⊢
    split at hcounted
    · cases hcounted
    · rename_i hbelow
      exact not_le.mp (not_or.mp hbelow).2
  | verifyBlobAgain =>
    have hsender : (c.exec true s o).2.senderID = c.senderID := by
      simp only [Call.exec, hpc, Call.verified]
      split
      · rfl
      · split <;> rfl
    rw [hsender]
    exact h (by rw [hpc]; rfl)
  | verifyBlob =>
    simp only [Call.exec, hpc, Call.verified] at hcounted
    split at hcounted
    · cases hcounted
    · split at hcounted <;> cases hcounted
  | resolveTier =>
    simp only [Call.exec, hpc, Call.next] at hcounted
    split at hcounted <;> cases hcounted
  | insert =>
    simp only [Call.exec, hpc] at hcounted
    split at hcounted
    · cases hcounted
    · split at hcounted <;> cases hcounted
  | done answer =>
    simp only [Call.exec, hpc] at hcounted
    cases hcounted

/-- An `INSERT` raises the count of its sender only. -/
theorem sent_append {userID : UserID} (h : r.senderID ≠ userID) :
    Store.countActiveSentShares { s with shares := s.shares ++ [r] } userID
      = s.countActiveSentShares userID := by
  rw [Store.countActiveSentShares, Store.countActiveSentShares, List.countP_append,
    List.countP_singleton, if_neg (by simp [h]), Nat.add_zero]

/-- The owners of the shares' vaults have sent them, and every call that has
counted is below the cap. -/
abbrev Capped (s : State) : Prop := Calls.Holds Owned (fun st _ c => c.BelowCap st) s

theorem Capped.step {s : State} {a : Action} (hturn : InTurn s a) (h : Capped s) :
    Capped ((service true).step s a) := by
  refine Calls.Holds.step ?_ ?_ s a hturn h
  · intro s e h _
    refine ⟨h.store.world e, ?_, ?_⟩
    · intro k c _ hc hcounted
      exact Nat.lt_of_le_of_lt (sent_world_le e) (hc hcounted)
    · intro c hc hcounted
      cases e with
      | createShare senderID recipientID blobID encryptedKey => cases hc; cases hcounted
      | _ => cases hc
  · intro s k c o h hturn hk
    have hself := @Call.BelowCap.exec s.store c o (h.call k c hk)
    rcases exec_store true s.store c o with ⟨hsame, -⟩ | ⟨s', hs', heq, hpc, htook⟩
    · have hstore : ((service true).exec k s.store c o).1 = s.store := hsame
      rw [hstore]
      exact ⟨h.store, hself, fun j c' _ _ hc' => hc'⟩
    · obtain ⟨howned, halone⟩ := hturn c (Option.mem_def.mpr hk) hpc htook
      obtain ⟨rfl, -⟩ := createShare_eq hs'
      have hstore : ((service true).exec k s.store c o).1
          = { s.store with shares := s.store.shares ++ [c.record o] } := heq
      rw [hstore]
      refine ⟨?_, ?_, ?_⟩
      · intro r hr
        rcases List.mem_append.mp hr with hold | hnew
        · exact h.store r hold
        · rw [List.mem_singleton.mp hnew]
          exact ownerOf_of_owned howned
      · intro hcounted
        have hdone : (c.exec true s.store o).2.pc.counted = false := by
          simp only [Call.exec, hpc]
          split
          · rfl
          · split <;> rfl
        rw [show ((service true).exec k s.store c o).2 = (c.exec true s.store o).2 from rfl,
          hdone] at hcounted
        cases hcounted
      · intro j c' hjk hj hc' hcounted
        have hother : c.senderID ≠ c'.senderID := fun hsame => by
          rw [halone j c' hjk hj hsame.symm] at hcounted
          cases hcounted
        rw [sent_append hother]
        exact hc' hcounted

/-- **The calls of each sender one after another** keep to the cap. -/
theorem insertsFit_of_inTurn {as : List Action}
    (hrun : Run.Each (service true).step InTurn start as) :
    Run.Each (service true).step InsertsFit start as := by
  have hstart : Capped start := Calls.Holds.initial (by intro r hr; cases hr)
  refine hrun.imp ?_ (fun s a hs hturn => hs.step hturn) hstart
  intro s a hs hturn
  cases a with
  | world e => trivial
  | exec k o =>
    intro c hk hpc htook
    obtain ⟨howned, -⟩ := hturn c hk hpc htook
    have hcount := hs.call k c (Option.mem_def.mp hk) (by rw [hpc]; rfl)
    refine fits_of_count hcount ?_ hpc htook
    -- the vaults of the share and of the blob are one, and so are their owners
    intro v hv r hr hrv
    obtain ⟨b, vault, hb, hvb, howner⟩ := ownerOf_eq_some.mp (ownerOf_of_owned howned)
    obtain ⟨b', vault', hb', hvb', howner'⟩ := ownerOf_eq_some.mp (hs.store r hr)
    simp only [Store.vaultOf, hb, hb', Option.map_some, Option.mem_def, Option.some.injEq]
      at hv hrv
    rw [hrv, ← hv, hvb, Option.some.injEq] at hvb'
    rw [← howner', ← hvb', howner]

/-! ## One share too many -/

def sampleOutcome (shareID : ShareID) : Outcome := ⟨.done, some "team", shareID, 0⟩

/-- User 7 sends requests side by side for the blob 5 of the vault 1: they
all pass their checks, and then all insert. -/
def sampleRequests (n : Nat) : List Action :=
  List.flatten
    [[.world (.createVault 1 7), .world (.createBlob 5 1)],
     List.replicate n (.world (.createShare 7 8 5 [])),
     (List.range n).flatMap (fun k => List.replicate 4 (.exec k (sampleOutcome k))),
     (List.range n).map fun k => .exec k (sampleOutcome k)]

/-- The vault 1 of user 7, with the blob 5 and the shares of it. -/
def sampleStore (shares : List ShareRecord) : Store :=
  { ((Store.empty.createVault 1 7).createBlob 5 1) with shares := shares }

def sampleCall (pc : Pc) : Call := ⟨7, 8, 5, [], pc⟩

def sampleShare (k : Nat) : ShareRecord := (sampleCall .insert).record (sampleOutcome k)

theorem sampleRequests_arrive (calls : List Call) (n : Nat) :
    (service true).run ⟨sampleStore [], calls⟩
        (List.replicate n (.world (.createShare 7 8 5 [])))
      = ⟨sampleStore [], calls ++ List.replicate n (sampleCall .verifyBlob)⟩ := by
  induction n generalizing calls with
  | zero =>
    rw [List.replicate_zero, List.replicate_zero, List.append_nil]
    rfl
  | succ n ih =>
    have hstep : (service true).step ⟨sampleStore [], calls⟩ (.world (.createShare 7 8 5 []))
        = ⟨sampleStore [], calls ++ [sampleCall .verifyBlob]⟩ := rfl
    rw [List.replicate_succ, Calls.Service.run_cons, hstep, ih, List.append_assoc]
    rfl

theorem sampleCall_checks {calls : List Call} {k : Nat}
    (h : calls[k]? = some (sampleCall .verifyBlob)) :
    (service true).run ⟨sampleStore [], calls⟩ (List.replicate 4 (.exec k (sampleOutcome k)))
      = ⟨sampleStore [], calls.set k (sampleCall .insert)⟩ := by
  obtain ⟨hlt, -⟩ := List.getElem?_eq_some_iff.mp h
  have hself : ∀ c : Call, (calls.set k c)[k]? = some c := fun _ => List.getElem?_set_self hlt
  have hverify : (service true).exec k (sampleStore []) (sampleCall .verifyBlob) (sampleOutcome k)
      = (sampleStore [], sampleCall .resolveTier) := rfl
  have hresolve : (service true).exec k (sampleStore []) (sampleCall .resolveTier)
      (sampleOutcome k) = (sampleStore [], sampleCall .count) := rfl
  have hcount : (service true).exec k (sampleStore []) (sampleCall .count) (sampleOutcome k)
      = (sampleStore [], sampleCall .verifyBlobAgain) := rfl
  have hagain : (service true).exec k (sampleStore []) (sampleCall .verifyBlobAgain)
      (sampleOutcome k) = (sampleStore [], sampleCall .insert) := rfl
  rw [List.replicate_succ, Calls.Service.run_exec h hverify, List.replicate_succ,
    Calls.Service.run_exec (hself _) hresolve, List.set_set, List.replicate_succ,
    Calls.Service.run_exec (hself _) hcount, List.set_set, List.replicate_succ,
    Calls.Service.run_exec (hself _) hagain, List.set_set]
  rfl

/-- A call that has passed them creates its share, whatever the others have
created. -/
theorem sampleCall_inserts {calls : List Call} {k : Nat}
    (h : calls[k]? = some (sampleCall .insert)) :
    (service true).run ⟨sampleStore ((List.range k).map sampleShare), calls⟩
        [.exec k (sampleOutcome k)]
      = ⟨sampleStore ((List.range (k + 1)).map sampleShare),
        calls.set k (sampleCall (.done (.created k)))⟩ := by
  have hfresh : ∀ r ∈ (List.range k).map sampleShare, r.id ≠ k := by
    intro r hr
    obtain ⟨j, hj, rfl⟩ := List.mem_map.mp hr
    exact Nat.ne_of_lt (List.mem_range.mp hj)
  have hcreate : (sampleStore ((List.range k).map sampleShare)).createShare
      ((sampleCall .insert).record (sampleOutcome k))
        = some (sampleStore ((List.range (k + 1)).map sampleShare)) := by
    rw [Store.createShare, if_pos ⟨rfl, hfresh⟩, List.range_succ, List.map_append]
    rfl
  have hinsert : (service true).exec k (sampleStore ((List.range k).map sampleShare))
      (sampleCall .insert) (sampleOutcome k)
        = (sampleStore ((List.range (k + 1)).map sampleShare),
          sampleCall (.done (.created k))) := by
    have hran : (sampleOutcome k).execution ≠ .failed := by rintro ⟨⟩
    unfold service
    dsimp only [Call.exec, sampleCall] at hcreate ⊢
    rw [if_neg hran, hcreate]
    rfl
  rw [Calls.Service.run_exec h hinsert]
  rfl

theorem sampleRequests_run (n : Nat) :
    (service true).run start (sampleRequests n)
      = ⟨sampleStore ((List.range n).map sampleShare),
        (List.range n).map fun k => sampleCall (.done (.created k))⟩ := by
  have hstart : (service true).run start
      [.world (.createVault 1 7), .world (.createBlob 5 1)] = ⟨sampleStore [], []⟩ := rfl
  have hchecks := @Calls.Service.run_in_turn _ _ _ _ (service true) (sampleCall .verifyBlob) n
    (fun _ => sampleStore []) (fun k => List.replicate 4 (.exec k (sampleOutcome k)))
    (fun _ => sampleCall .insert) (fun k _ calls h => sampleCall_checks h) n (Nat.le_refl n)
  have hinserts := @Calls.Service.run_in_turn _ _ _ _ (service true) (sampleCall .insert) n
    (fun k => sampleStore ((List.range k).map sampleShare))
    (fun k => [.exec k (sampleOutcome k)])
    (fun k => sampleCall (.done (.created k))) (fun k _ calls h => sampleCall_inserts h) n
    (Nat.le_refl n)
  rw [Nat.sub_self, List.replicate_zero, List.append_nil] at hchecks hinserts
  rw [List.map_const', List.length_range] at hchecks
  rw [← List.map_eq_flatMap] at hinserts
  simp only [sampleRequests, List.flatten_cons, List.flatten_nil, List.append_nil]
  rw [Calls.Service.run_append, hstart, Calls.Service.run_append, Calls.Service.run_append,
    sampleRequests_arrive, List.nil_append, hchecks]
  exact hinserts

/-- **A hundred and one active shares**: as many calls count none, and every
one of them creates its share. -/
theorem share_cap_exceeded :
    ¬WithinCap ((service true).run start (sampleRequests 101)).store
      ∧ ((service true).run start (sampleRequests 101)).store.activeShares 1 = 101
      ∧ ((service true).run start (sampleRequests 101)).calls.all
        (fun c => match c.pc with | .done (.created _) => true | _ => false) = true := by
  rw [sampleRequests_run]
  have hshares : (sampleStore ((List.range 101).map sampleShare)).activeShares 1 = 101 := by
    have hactive : ∀ r ∈ (List.range 101).map sampleShare,
        (decide ((sampleStore ((List.range 101).map sampleShare)).vaultOf r.blobID = some 1)
          && r.active 0) = true := by
      intro r hr
      obtain ⟨k, -, rfl⟩ := List.mem_map.mp hr
      rfl
    refine (List.countP_eq_length.mpr hactive).trans ?_
    rw [List.length_map, List.length_range]
  refine ⟨?_, hshares, ?_⟩
  · intro hcap
    have hle := hcap 1
    rw [hshares] at hle
    exact absurd hle (by decide)
  · rw [List.all_map, List.all_eq_true]
    exact fun _ _ => rfl

end UsbVault.Shares
