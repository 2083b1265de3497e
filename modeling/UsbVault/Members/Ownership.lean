import UsbVault.Members.Statements

/-!
# Ownership

Creating a vault records its owner in both tables. A transfer writes only
`vault_members`, and an assignment may give the owner another role or, side
by side with others, another member the owner's. Where a role assigned is
the owner's just for the user of `vaults.owner_id`, and that user is neither
removed nor replaced, a live vault has one owner and the tables agree
(`one_owner`).
-/

namespace UsbVault.Members

open Tables

variable {accounts : Accounts} {s s' : Store} {k : Nat} {c c' : Call} {o : Outcome}

/-- Every live vault has one member with the owner's role, the user of
`vaults.owner_id`. -/
def OneOwner (s : Store) : Prop :=
  ∀ v row, s.vaults.rows v = some row → row.deleted = false →
    ∀ userID, s.members.rows (v, userID) = some .owner ↔ userID = row.ownerID

/-- The role that an assignment is about to write. -/
def AssignPc.upserting : AssignPc → Option Role
  | .upsert role => some role
  | _ => none

/-- What the call is about to write, if it is not to wait, leaves the owner of
a live vault. -/
def Call.KeepsOwner (c : Call) (s : Store) (k : Nat) : Prop :=
  match c with
  | .assignRole v userID pc =>
    ∀ role ∈ pc.upserting, s.members.Held k (v, userID)
      ∨ ∀ row ∈ s.vaults.rows v, row.deleted = false → (role = .owner ↔ userID = row.ownerID)
  | .removeRole v userID pc =>
    pc = .delete → s.members.Held k (v, userID)
      ∨ ∀ row ∈ s.vaults.rows v, row.deleted = false → userID ≠ row.ownerID
  | .transferOwnership v _ toUserID pc =>
    pc = .commit → ∀ row ∈ s.vaults.rows v, row.deleted = false → toUserID = row.ownerID
  | .createVault _ _ => True
  | .deleteVault _ _ => True

instance (c : Call) (s : Store) (k : Nat) : Decidable (c.KeepsOwner s k) :=
  match c with
  | .assignRole _ _ pc =>
    inferInstanceAs (Decidable (∀ role ∈ pc.upserting, _ ∨ ∀ row ∈ s.vaults.rows _, _ → (_ ↔ _)))
  | .removeRole _ _ _ =>
    inferInstanceAs (Decidable (_ → _ ∨ ∀ row ∈ s.vaults.rows _, _ → _ ≠ _))
  | .transferOwnership _ _ _ _ =>
    inferInstanceAs (Decidable (_ → ∀ row ∈ s.vaults.rows _, _ → _ = _))
  | .createVault _ _ => inferInstanceAs (Decidable True)
  | .deleteVault _ _ => inferInstanceAs (Decidable True)

/-- A statement that is executed leaves the owner of a live vault. -/
def KeepsOwner (s : Vaults) : Action → Prop
  | .world _ => True
  | .exec k o => o ≠ .error → ∀ c ∈ s.calls[k]?, c.KeepsOwner s.store k

instance (s : Vaults) (a : Action) : Decidable (KeepsOwner s a) :=
  match a with
  | .world _ => inferInstanceAs (Decidable True)
  | .exec k _ => inferInstanceAs (Decidable (_ → ∀ c ∈ s.calls[k]?, _))

theorem OneOwner.created (h : OneOwner s) {userID : UserID} {v : VaultID} (hst : Stored s)
    (hown : Own s k (.createVault userID (.commit v))) : OneOwner (s.commit k) := by
  obtain ⟨hvault, hmember⟩ := hown.written
  intro v' row hrow hlive userID'
  by_cases hv : v' = v
  · subst hv
    replace hrow : s.vaults.view k v' = some row := hrow
    rw [Table.view_of_own hvault] at hrow
    cases hrow
    show s.members.view k (v', userID') = some .owner ↔ userID' = userID
    by_cases hu : userID' = userID
    · subst hu
      simp [Table.view_of_own hmember]
    · -- the new vault has no other member
      have hnone : s.members.rows (v', userID') = none := by
        by_contra hne
        exact hst.member v' userID' hne (hst.fresh v' _ hvault)
      have hview : s.members.view k (v', userID') = s.members.rows (v', userID') := by
        refine hown.view_member ?_
        intro row hwrite
        exact hu (Prod.mk.inj hwrite.1).2
      simp [hview, hnone, hu]
  · have hold : s.vaults.view k v' = s.vaults.rows v' :=
      hown.view_vault fun row hwrite => hv hwrite.1
    have hview : s.members.view k (v', userID') = s.members.rows (v', userID') := by
      refine hown.view_member ?_
      intro row hwrite
      exact hv (Prod.mk.inj hwrite.1).1
    show s.members.view k (v', userID') = some .owner ↔ userID' = row.ownerID
    rw [hview]
    exact h v' row (hold.symm.trans hrow) hlive userID'

/-- A transfer to the user of `vaults.owner_id` leaves the one owner. -/
theorem OneOwner.transferred (h : OneOwner s) {v : VaultID} {fromUserID toUserID : UserID}
    (hown : Own s k (.transferOwnership v fromUserID toUserID .commit))
    (hok : ∀ row ∈ s.vaults.rows v, row.deleted = false → toUserID = row.ownerID) :
    OneOwner (s.commit k) := by
  obtain ⟨hmember, -⟩ := hown.written
  intro v' row hrow hlive userID'
  have hold : s.vaults.rows v' = some row :=
    (hown.view_vault fun row hwrite => hwrite.elim).symm.trans hrow
  have hbefore := h v' row hold hlive userID'
  show s.members.view k (v', userID') = some .owner ↔ userID' = row.ownerID
  by_cases hpending : ∃ r, s.members.pending (v', userID') = some (k, r)
  · obtain ⟨r, hr⟩ := hpending
    rw [Table.view_of_own hr]
    rcases hown.member _ r hr with ⟨hkey, rfl⟩ | ⟨hkey, hne, rfl⟩
    · obtain ⟨rfl, rfl⟩ := Prod.mk.inj hkey
      simp [hok row hold hlive]
    · obtain ⟨rfl, rfl⟩ := Prod.mk.inj hkey
      have howner := hok row hold hlive
      simp only [reduceCtorEq, false_iff]
      intro heq
      exact hne (heq.trans howner.symm)
  · rw [Table.view_of_other (fun r hr => hpending ⟨r, hr⟩)]
    exact hbefore

theorem OneOwner.put (h : OneOwner s) {v : VaultID} {userID : UserID} {role : Option Role}
    (hok : ∀ row ∈ s.vaults.rows v, row.deleted = false →
      (role = some .owner ↔ userID = row.ownerID)) :
    OneOwner { s with members := s.members.put (v, userID) role } := by
  intro v' row hrow hlive userID'
  by_cases hkey : (v', userID') = (v, userID)
  · obtain ⟨rfl, rfl⟩ := Prod.mk.inj hkey
    rw [Table.rows_put_self]
    exact hok row hrow hlive
  · rw [Table.rows_put_ne hkey]
    exact h v' row hrow hlive userID'

theorem OneOwner.vaultDeleted (h : OneOwner s) {v : VaultID} {row : VaultRow} :
    OneOwner { s with vaults := s.vaults.put v (some { row with deleted := true }) } := by
  intro v' row' hrow hlive
  by_cases hv : v' = v
  · rw [hv, Table.rows_put_self] at hrow
    cases hrow
    cases hlive
  · rw [Table.rows_put_ne hv] at hrow
    exact h v' row' hrow hlive

/-- **One step.** -/
theorem Statement.oneOwner (h : Statement s k o c s' c') (hown : Own s k c) (hst : Stored s)
    (hone : OneOwner s) (hok : o ≠ .error → c.KeepsOwner s k) : OneOwner s' := by
  cases h with
  | created => exact hone.created hst hown
  | transferred ho => exact hone.transferred hown (hok ho rfl)
  | assigned ho _ hfree =>
    refine hone.put ?_
    intro row hrow hlive
    rw [Option.some.injEq]
    exact (hok ho _ rfl).resolve_left hfree row hrow hlive
  | removed ho hfree =>
    refine hone.put ?_
    intro row hrow hlive
    simp [(hok ho rfl).resolve_left hfree row hrow hlive]
  | vaultDeleted => exact hone.vaultDeleted
  | _ => exact hone

structure OwnersOk (s : Vaults) : Prop where
  tables : TablesOk s
  owner : OneOwner s.store

/-- **A live vault has exactly one owner, and both tables agree**, in every
run in which a role assigned is the owner's just for the user of
`vaults.owner_id`, that user is not removed, and ownership is transferred to
that user only. -/
theorem one_owner (as : List Action) (hrun : Run.Each (service accounts).step KeepsOwner start as) :
    OneOwner ((service accounts).run start as).store := by
  have hstart : OwnersOk start := by
    refine ⟨tablesOk_start, ?_⟩
    intro v row hrow
    simp [start, Store.empty, Table.empty] at hrow
  have h : OwnersOk ((service accounts).run start as) := by
    refine Calls.Service.preserves ?_ ?_ hrun hstart
    · intro st req hst _
      exact ⟨hst.tables.world req, hst.owner⟩
    · intro st k c o hst hok hk
      refine ⟨hst.tables.exec hk o, ?_⟩
      rw [Calls.Service.step_exec hk]
      exact exec_statement.oneOwner (hst.tables.own hk) hst.tables.stored hst.owner
        (fun ho => hok ho c hk)
  exact h.owner

/-- No subscriptions. -/
def freeAccounts : Accounts := ⟨fun _ => [], fun _ => some .free⟩

def sampleRun (as : List Action) : Vaults := (service freeAccounts).run start as

/-- The call `k`, from its arrival on, `n` statements of it. -/
def sampleCall (k : Nat) (req : Request) (n : Nat) : List Action :=
  .world req :: List.replicate n (.exec k .ok)

/-- User `a` creates a vault and makes `b` an editor. -/
def sampleVault : List Action :=
  sampleCall 0 (.createVault "a") 8 ++ sampleCall 1 (.assignRole 0 "b" "editor") 1

theorem one_owner_sample :
    OneOwner (sampleRun (sampleVault ++ sampleCall 2 (.assignRole 0 "a" "owner") 2
      ++ sampleCall 3 (.removeRole 0 "b") 2)).store :=
  one_owner _ (by decide +kernel)

def sampleTransfer : List Action := sampleVault ++ sampleCall 2 (.transferOwnership 0 "a" "b") 5

def sampleDemotion : List Action := sampleVault ++ sampleCall 2 (.assignRole 0 "a" "editor") 1

/-- Two transfers, of which both verify the owner first. -/
def sampleTransfers : List Action :=
  List.flatten
    [sampleVault, sampleCall 2 (.transferOwnership 0 "a" "b") 1,
     sampleCall 3 (.transferOwnership 0 "a" "c") 1, List.replicate 4 (.exec 2 .ok),
     List.replicate 4 (.exec 3 .ok)]

/-- **The owners of a vault differ** after a transfer; there is none after the
owner has been made an editor, and there are two after two transfers. -/
theorem owners_differ :
    ¬OneOwner (sampleRun sampleTransfer).store
      ∧ ¬OneOwner (sampleRun sampleDemotion).store
      ∧ ¬OneOwner (sampleRun sampleTransfers).store
      ∧ (sampleRun sampleTransfers).store.members.rows (0, "b") = some .owner
      ∧ (sampleRun sampleTransfers).store.members.rows (0, "c") = some .owner := by
  refine ⟨?_, ?_, ?_, by decide +kernel, by decide +kernel⟩
  · intro h
    have hb := (h 0 ⟨"a", false⟩ (by decide +kernel) rfl "b").mp (by decide +kernel)
    exact absurd hb (by decide)
  · intro h
    have ha := (h 0 ⟨"a", false⟩ (by decide +kernel) rfl "a").mpr rfl
    exact absurd ha (by decide +kernel)
  · intro h
    have hb := (h 0 ⟨"a", false⟩ (by decide +kernel) rfl "b").mp (by decide +kernel)
    exact absurd hb (by decide)

end UsbVault.Members
