import UsbVault.Members.Roles

/-!
# Statements

What the single statements of the calls do to the tables (`Statement`), and
what holds of the tables in every run: which rows the open transactions have
written, that a vault in a transaction is new, and that members belong to
vaults (`TablesOk`).
-/

namespace UsbVault.Members

open Tables

variable {accounts : Accounts} {s s' : Store} {k : Nat} {c c' : Call} {o : Outcome}

/-! ## What a transaction may have written -/

/-- The vault rows that a call's transaction may have written. -/
def Call.VaultWrite (c : Call) (vaultID : VaultID) (row : Option VaultRow) : Prop :=
  match c with
  | .createVault userID (.insertOwner v) => vaultID = v ∧ row = some ⟨userID, false⟩
  | .createVault userID (.commit v) => vaultID = v ∧ row = some ⟨userID, false⟩
  | .createVault _ (.rollback _) => True
  | _ => False

/-- The member rows that a call's transaction may have written. -/
def Call.MemberWrite (c : Call) (key : VaultID × UserID) (row : Option Role) : Prop :=
  match c with
  | .createVault userID (.commit v) => key = (v, userID) ∧ row = some .owner
  | .createVault _ (.rollback _) => True
  | .transferOwnership v fromUserID _ .assignOwner => key = (v, fromUserID) ∧ row = none
  | .transferOwnership v fromUserID toUserID .commit =>
    key = (v, toUserID) ∧ row = some .owner
      ∨ key = (v, fromUserID) ∧ fromUserID ≠ toUserID ∧ row = none
  | .transferOwnership _ _ _ (.rollback _) => True
  | _ => False

/-- The rows that a call's transaction has written. -/
def Call.Written (c : Call) (s : Store) (k : Nat) : Prop :=
  match c with
  | .createVault userID (.insertOwner v) => s.vaults.pending v = some (k, some ⟨userID, false⟩)
  | .createVault userID (.commit v) =>
    s.vaults.pending v = some (k, some ⟨userID, false⟩)
      ∧ s.members.pending (v, userID) = some (k, some .owner)
  | .transferOwnership v _ toUserID .commit =>
    s.members.pending (v, toUserID) = some (k, some .owner) ∧ s.vaults.rows v ≠ none
  | _ => True

/-- The call has written nothing. -/
def Call.idle : Call → Bool
  | .createVault _ (.insertOwner _) => false
  | .createVault _ (.commit _) => false
  | .createVault _ (.rollback _) => false
  | .transferOwnership _ _ _ .assignOwner => false
  | .transferOwnership _ _ _ .commit => false
  | .transferOwnership _ _ _ (.rollback _) => false
  | _ => true

theorem Call.not_vaultWrite (h : c.idle = true) (v : VaultID) (row : Option VaultRow) :
    ¬c.VaultWrite v row := by
  intro hwrite
  cases c with
  | createVault userID pc =>
    cases pc with
    | insertOwner v' => cases h
    | commit v' => cases h
    | rollback err => cases h
    | _ => exact hwrite
  | _ => exact hwrite

theorem Call.not_memberWrite (h : c.idle = true) (key : VaultID × UserID) (row : Option Role) :
    ¬c.MemberWrite key row := by
  intro hwrite
  cases c with
  | createVault userID pc =>
    cases pc with
    | insertOwner v' => cases h
    | commit v' => cases h
    | rollback err => cases h
    | _ => exact hwrite
  | transferOwnership v fromUserID toUserID pc =>
    cases pc with
    | assignOwner => cases h
    | commit => cases h
    | rollback err => cases h
    | _ => exact hwrite
  | _ => exact hwrite

/-- What a statement of a call does. One that only reads may end the call's
transaction by an error, or leave it as it is. -/
inductive Statement (s : Store) (k : Nat) (o : Outcome) : Call → Store → Call → Prop where
  | reads {c c' : Call} (hvault : ∀ v row, c.VaultWrite v row → c'.VaultWrite v row)
      (hmember : ∀ key row, c.MemberWrite key row → c'.MemberWrite key row)
      (hwritten : c.Written s k → c'.Written s k) : Statement s k o c s c'
  | locked {userID : UserID} {tier : Tier} {failed : Bool}
      (hfree : ∀ call ∈ s.advisory (advisoryLockKey userID), call = k) :
      Statement s k o (.createVault userID (.lock tier failed))
        { s with advisory := Function.update s.advisory (advisoryLockKey userID) (some k) }
        (.createVault userID (.count tier failed))
  | vaultInserted {userID : UserID} :
      Statement s k o (.createVault userID .insertVault)
        { s with vaults := s.vaults.write k s.drawn (some ⟨userID, false⟩), drawn := s.drawn + 1 }
        (.createVault userID (.insertOwner s.drawn))
  | ownerInserted {userID : UserID} {v : VaultID} (hfree : ¬s.members.Held k (v, userID)) :
      Statement s k o (.createVault userID (.insertOwner v))
        { s with members := s.members.write k (v, userID) (some .owner) }
        (.createVault userID (.commit v))
  | created {userID : UserID} {v : VaultID} :
      Statement s k o (.createVault userID (.commit v)) (s.commit k)
        (.createVault userID (.done (.ok v)))
  | createRolledBack {userID : UserID} {err : Err} :
      Statement s k o (.createVault userID (.rollback err)) (s.rollback k)
        (.createVault userID (.done (.error err)))
  | assigned {v : VaultID} {userID : UserID} {role : Role} (ho : o ≠ .error)
      (hvault : s.vaults.view k v ≠ none) (hfree : ¬s.members.Held k (v, userID)) :
      Statement s k o (.assignRole v userID (.upsert role))
        { s with members := s.members.put (v, userID) (some role) }
        (.assignRole v userID (.done none))
  | removed {v : VaultID} {userID : UserID} (ho : o ≠ .error)
      (hfree : ¬s.members.Held k (v, userID)) :
      Statement s k o (.removeRole v userID .delete)
        { s with members := s.members.put (v, userID) none } (.removeRole v userID (.done none))
  | ownerRemoved {v : VaultID} {fromUserID toUserID : UserID}
      (hfree : ¬s.members.Held k (v, fromUserID)) :
      Statement s k o (.transferOwnership v fromUserID toUserID .removeOwner)
        { s with members := s.members.write k (v, fromUserID) none }
        (.transferOwnership v fromUserID toUserID .assignOwner)
  | ownerAssigned {v : VaultID} {fromUserID toUserID : UserID}
      (hvault : s.vaults.view k v ≠ none) (hfree : ¬s.members.Held k (v, toUserID)) :
      Statement s k o (.transferOwnership v fromUserID toUserID .assignOwner)
        { s with members := s.members.write k (v, toUserID) (some .owner) }
        (.transferOwnership v fromUserID toUserID .commit)
  | transferred {v : VaultID} {fromUserID toUserID : UserID} (ho : o ≠ .error) :
      Statement s k o (.transferOwnership v fromUserID toUserID .commit) (s.commit k)
        (.transferOwnership v fromUserID toUserID (.done none))
  | transferRolledBack {v : VaultID} {fromUserID toUserID : UserID} {err : Err} :
      Statement s k o (.transferOwnership v fromUserID toUserID (.rollback err)) (s.rollback k)
        (.transferOwnership v fromUserID toUserID (.done (some err)))
  | vaultDeleted {v : VaultID} {row : VaultRow} (hrow : s.vaults.view k v = some row)
      (hfree : ¬s.vaults.Held k v) :
      Statement s k o (.deleteVault v .update)
        { s with vaults := s.vaults.put v (some { row with deleted := true }) }
        (.deleteVault v (.done none))

/-- A statement of a call that has written nothing, and does not write. -/
theorem Statement.ofIdle (hidle : c.idle = true) (hwritten : c'.Written s k) :
    Statement s k o c s c' :=
  .reads (fun v row h => absurd h (c.not_vaultWrite hidle v row))
    (fun key row h => absurd h (c.not_memberWrite hidle key row)) (fun _ => hwritten)

theorem execCreate_statement {userID : UserID} (pc : CreatePc) :
    Statement s k o (.createVault userID pc) (execCreate accounts s k userID pc o).1
      (.createVault userID (execCreate accounts s k userID pc o).2) := by
  cases pc with
  | subscription =>
    refine .ofIdle rfl ?_
    simp only [execCreate]
    split
    · trivial
    · split <;> trivial
  | override failed =>
    refine .ofIdle rfl ?_
    simp only [execCreate]
    split <;> trivial
  | begin tier failed =>
    refine .ofIdle rfl ?_
    simp only [execCreate]
    split <;> trivial
  | lock tier failed =>
    simp only [execCreate]
    split
    · exact .ofIdle rfl trivial
    · split
      · exact .ofIdle rfl trivial
      · rename_i hfree
        refine .locked ?_
        intro call hcall
        by_contra hne
        exact hfree ⟨call, hcall, hne⟩
  | count tier failed =>
    refine .ofIdle rfl ?_
    simp only [execCreate]
    split
    · trivial
    · split
      · trivial
      · split <;> trivial
  | insertVault =>
    simp only [execCreate]
    split
    · exact .ofIdle rfl trivial
    · exact .vaultInserted
  | insertOwner v =>
    simp only [execCreate]
    split
    · exact .reads (fun _ _ _ => trivial) (fun _ _ _ => trivial) (fun _ => trivial)
    · split
      · exact .reads (fun _ _ h => h) (fun _ _ h => h) (fun h => h)
      · rename_i hfree
        exact .ownerInserted hfree
  | commit v =>
    simp only [execCreate]
    split
    · exact .reads (fun _ _ _ => trivial) (fun _ _ _ => trivial) (fun _ => trivial)
    · exact .created
  | rollback err => exact .createRolledBack
  | done result => exact .ofIdle rfl trivial

theorem execAssign_statement {v : VaultID} {userID : UserID} (pc : AssignPc) :
    Statement s k o (.assignRole v userID pc) (execAssign s k v userID pc o).1
      (.assignRole v userID (execAssign s k v userID pc o).2) := by
  cases pc with
  | existingOwner => exact .ofIdle rfl trivial
  | upsert role =>
    simp only [execAssign]
    split
    · exact .ofIdle rfl trivial
    · rename_i hor
      obtain ⟨ho, hvault⟩ := not_or.mp hor
      split
      · exact .ofIdle rfl trivial
      · rename_i hfree
        exact .assigned ho hvault hfree
  | done err => exact .ofIdle rfl trivial

theorem execRemove_statement {v : VaultID} {userID : UserID} (pc : RemovePc) :
    Statement s k o (.removeRole v userID pc) (execRemove s k v userID pc o).1
      (.removeRole v userID (execRemove s k v userID pc o).2) := by
  cases pc with
  | checkRole => exact .ofIdle rfl trivial
  | delete =>
    simp only [execRemove]
    split
    · exact .ofIdle rfl trivial
    · rename_i ho
      split
      · exact .ofIdle rfl trivial
      · split
        · exact .ofIdle rfl trivial
        · rename_i hfree
          exact .removed ho hfree
  | done err => exact .ofIdle rfl trivial

theorem execTransfer_statement {v : VaultID} {fromUserID toUserID : UserID} (pc : TransferPc) :
    Statement s k o (.transferOwnership v fromUserID toUserID pc)
      (execTransfer s k v fromUserID toUserID pc o).1
      (.transferOwnership v fromUserID toUserID
        (execTransfer s k v fromUserID toUserID pc o).2) := by
  cases pc with
  | verifyOwner =>
    refine .ofIdle rfl ?_
    simp only [execTransfer]
    split
    · trivial
    · split <;> trivial
  | begin =>
    refine .ofIdle rfl ?_
    simp only [execTransfer]
    split <;> trivial
  | removeOwner =>
    simp only [execTransfer]
    split
    · exact .ofIdle rfl trivial
    · split
      · exact .ofIdle rfl trivial
      · split
        · exact .ofIdle rfl trivial
        · rename_i hfree
          exact .ownerRemoved hfree
  | assignOwner =>
    simp only [execTransfer]
    split
    · exact .reads (fun _ _ h => h.elim) (fun _ _ _ => trivial) (fun _ => trivial)
    · rename_i hor
      obtain ⟨-, hvault⟩ := not_or.mp hor
      split
      · exact .reads (fun _ _ h => h) (fun _ _ h => h) (fun h => h)
      · rename_i hfree
        exact .ownerAssigned hvault hfree
  | commit =>
    simp only [execTransfer]
    split
    · exact .reads (fun _ _ h => h.elim) (fun _ _ _ => trivial) (fun _ => trivial)
    · rename_i ho
      exact .transferred ho
  | rollback err => exact .transferRolledBack
  | done err => exact .ofIdle rfl trivial

theorem execDelete_statement {v : VaultID} (pc : DeletePc) :
    Statement s k o (.deleteVault v pc) (execDelete s k v pc o).1
      (.deleteVault v (execDelete s k v pc o).2) := by
  cases pc with
  | update =>
    simp only [execDelete]
    split
    · exact .ofIdle rfl trivial
    · split
      · exact .ofIdle rfl trivial
      · rename_i row hrow
        split
        · exact .ofIdle rfl trivial
        · split
          · exact .ofIdle rfl trivial
          · rename_i hfree
            exact .vaultDeleted hrow hfree
  | done err => exact .ofIdle rfl trivial

theorem exec_statement : Statement s k o c (c.exec accounts s k o).1 (c.exec accounts s k o).2 := by
  cases c with
  | createVault userID pc => exact execCreate_statement pc
  | assignRole v userID pc => exact execAssign_statement pc
  | removeRole v userID pc => exact execRemove_statement pc
  | transferOwnership v fromUserID toUserID pc => exact execTransfer_statement pc
  | deleteVault v pc => exact execDelete_statement pc

/-! ## The tables -/

/-- What a call knows of the rows its transaction has written. -/
structure Own (s : Store) (k : Nat) (c : Call) : Prop where
  vault : ∀ v row, s.vaults.pending v = some (k, row) → c.VaultWrite v row
  member : ∀ key row, s.members.pending key = some (k, row) → c.MemberWrite key row
  written : c.Written s k

/-- The vault tables: a vault is drawn before it is stored, is new while it is
in a transaction, and members belong to vaults. -/
structure Stored (s : Store) : Prop where
  drawn : ∀ v, s.vaults.rows v ≠ none ∨ s.vaults.pending v ≠ none → v < s.drawn
  fresh : ∀ v p, s.vaults.pending v = some p → s.vaults.rows v = none
  member : ∀ v userID, s.members.rows (v, userID) ≠ none → s.vaults.rows v ≠ none

theorem Own.view_vault (h : Own s k c) {v : VaultID} (hno : ∀ row, ¬c.VaultWrite v row) :
    s.vaults.view k v = s.vaults.rows v :=
  Table.view_of_other fun row hrow => hno row (h.vault v row hrow)

theorem Own.view_member (h : Own s k c) {key : VaultID × UserID}
    (hno : ∀ row, ¬c.MemberWrite key row) : s.members.view k key = s.members.rows key :=
  Table.view_of_other fun row hrow => hno row (h.member key row hrow)

theorem Statement.others_vault (h : Statement s k o c s' c') {j : Nat} (hj : j ≠ k) {v : VaultID}
    {row : Option VaultRow} (hdrawn : s.vaults.pending s.drawn = none) :
    s'.vaults.pending v = some (j, row) ↔ s.vaults.pending v = some (j, row) := by
  cases h with
  | vaultInserted =>
    by_cases hv : v = s.drawn
    · rw [hv, Table.pending_write_self, hdrawn]
      constructor
      · intro h
        cases h
        exact absurd rfl hj
      · intro h
        cases h
    · rw [Table.pending_write_ne hv]
  | created => exact Table.pending_commit.trans (and_iff_left hj)
  | transferred => exact Table.pending_commit.trans (and_iff_left hj)
  | createRolledBack => exact Table.pending_rollback.trans (and_iff_left hj)
  | transferRolledBack => exact Table.pending_rollback.trans (and_iff_left hj)
  | _ => rfl

theorem others_write {key key' : VaultID × UserID} {row row' : Option Role} {j : Nat} (hj : j ≠ k)
    (hfree : ¬s.members.Held k key') :
    (s.members.write k key' row').pending key = some (j, row)
      ↔ s.members.pending key = some (j, row) := by
  by_cases hkey : key = key'
  · subst hkey
    rw [Table.pending_write_self]
    constructor
    · intro h
      cases h
      exact absurd rfl hj
    · intro h
      exact absurd ⟨_, h, hj⟩ hfree
  · rw [Table.pending_write_ne hkey]

theorem Statement.others_member (h : Statement s k o c s' c') {j : Nat} (hj : j ≠ k)
    {key : VaultID × UserID} {row : Option Role} :
    s'.members.pending key = some (j, row) ↔ s.members.pending key = some (j, row) := by
  cases h with
  | ownerInserted hfree => exact others_write hj hfree
  | ownerRemoved hfree => exact others_write hj hfree
  | ownerAssigned _ hfree => exact others_write hj hfree
  | created => exact Table.pending_commit.trans (and_iff_left hj)
  | transferred => exact Table.pending_commit.trans (and_iff_left hj)
  | createRolledBack => exact Table.pending_rollback.trans (and_iff_left hj)
  | transferRolledBack => exact Table.pending_rollback.trans (and_iff_left hj)
  | _ => rfl

theorem Own.of_commit {c' : Call} (hwritten : c'.Written (s.commit k) k) : Own (s.commit k) k c' := by
  refine ⟨?_, ?_, hwritten⟩
  · intro v row hrow
    exact absurd rfl (Table.pending_commit.mp hrow).2
  · intro key row hrow
    exact absurd rfl (Table.pending_commit.mp hrow).2

theorem Own.of_rollback {c' : Call} (hwritten : c'.Written (s.rollback k) k) :
    Own (s.rollback k) k c' := by
  refine ⟨?_, ?_, hwritten⟩
  · intro v row hrow
    exact absurd rfl (Table.pending_rollback.mp hrow).2
  · intro key row hrow
    exact absurd rfl (Table.pending_rollback.mp hrow).2

theorem Statement.own (h : Statement s k o c s' c') (hown : Own s k c) : Own s' k c' := by
  cases h with
  | reads hvault hmember hwritten =>
    exact ⟨fun v row h => hvault v row (hown.vault v row h),
      fun key row h => hmember key row (hown.member key row h), hwritten hown.written⟩
  | locked => exact ⟨hown.vault, hown.member, trivial⟩
  | vaultInserted =>
    refine ⟨?_, hown.member, Table.pending_write_self⟩
    intro v row hrow
    by_cases hv : v = s.drawn
    · rw [hv, Table.pending_write_self] at hrow
      cases hrow
      exact ⟨hv, rfl⟩
    · rw [Table.pending_write_ne hv] at hrow
      exact (hown.vault v row hrow).elim
  | @ownerInserted userID v =>
    refine ⟨hown.vault, ?_, hown.written, Table.pending_write_self⟩
    intro key row hrow
    by_cases hkey : key = (v, userID)
    · rw [hkey, Table.pending_write_self] at hrow
      cases hrow
      exact ⟨hkey, rfl⟩
    · rw [Table.pending_write_ne hkey] at hrow
      exact (hown.member key row hrow).elim
  | created => exact .of_commit trivial
  | createRolledBack => exact .of_rollback trivial
  | assigned => exact ⟨hown.vault, hown.member, trivial⟩
  | removed => exact ⟨hown.vault, hown.member, trivial⟩
  | @ownerRemoved v fromUserID =>
    refine ⟨hown.vault, ?_, trivial⟩
    intro key row hrow
    by_cases hkey : key = (v, fromUserID)
    · rw [hkey, Table.pending_write_self] at hrow
      cases hrow
      exact ⟨hkey, rfl⟩
    · rw [Table.pending_write_ne hkey] at hrow
      exact (hown.member key row hrow).elim
  | @ownerAssigned v fromUserID toUserID hvault =>
    have hrow : s.vaults.rows v ≠ none := by
      rwa [hown.view_vault (fun _ h => h)] at hvault
    refine ⟨hown.vault, ?_, Table.pending_write_self, hrow⟩
    intro key row hrow
    by_cases hkey : key = (v, toUserID)
    · rw [hkey, Table.pending_write_self] at hrow
      cases hrow
      exact .inl ⟨hkey, rfl⟩
    · -- the row of the old owner
      rw [Table.pending_write_ne hkey] at hrow
      obtain ⟨rfl, rfl⟩ := hown.member key row hrow
      refine .inr ⟨rfl, ?_, rfl⟩
      intro heq
      rw [heq] at hkey
      exact hkey rfl
  | transferred => exact .of_commit trivial
  | transferRolledBack => exact .of_rollback trivial
  | vaultDeleted => exact ⟨hown.vault, hown.member, trivial⟩

/-- A commit sees a committed vault, or the one that the call has created. -/
theorem Own.view_some (h : Own s k c) {v : VaultID} (hc : ∀ row, c.VaultWrite v row → row ≠ none)
    (hrow : s.vaults.rows v ≠ none) : s.vaults.view k v ≠ none := by
  by_cases hpending : ∃ row, s.vaults.pending v = some (k, row)
  · obtain ⟨row, hr⟩ := hpending
    rw [Table.view_of_own hr]
    exact hc row (h.vault v row hr)
  · rwa [Table.view_of_other (fun row hr => hpending ⟨row, hr⟩)]

theorem Statement.keeps_vault (h : Statement s k o c s' c') (hown : Own s k c) {v : VaultID}
    (hrow : s.vaults.rows v ≠ none) : s'.vaults.rows v ≠ none := by
  cases h with
  | @created userID v' =>
    refine hown.view_some ?_ hrow
    intro row hwrite
    rw [hwrite.2]
    simp
  | transferred => exact hown.view_some (fun row hwrite => hwrite.elim) hrow
  | @vaultDeleted v' row =>
    by_cases hv : v = v'
    · rw [hv, Table.rows_put_self]
      simp
    · rwa [Table.rows_put_ne hv]
  | _ => exact hrow

theorem Stored.not_drawn (h : Stored s) : s.vaults.pending s.drawn = none := by
  by_contra hne
  exact absurd (h.drawn s.drawn (.inr hne)) (Nat.lt_irrefl _)

theorem Stored.commit (h : Stored s)
    (hmember : ∀ v userID, s.members.view k (v, userID) ≠ none → s.vaults.view k v ≠ none) :
    Stored (s.commit k) := by
  refine ⟨?_, ?_, hmember⟩
  · intro v hor
    rcases hor with hrow | hpending
    · by_cases hp : s.vaults.pending v = none
      · refine h.drawn v (.inl ?_)
        rwa [← Table.view_of_free hp]
      · exact h.drawn v (.inr hp)
    · obtain ⟨p, hp⟩ := Option.ne_none_iff_exists'.mp hpending
      have hold := (Table.pending_commit.mp hp).1
      exact h.drawn v (.inr (by simp [hold]))
  · intro v p hp
    obtain ⟨hold, hne⟩ := Table.pending_commit.mp hp
    have hview : s.vaults.view k v = s.vaults.rows v := by
      refine Table.view_of_other ?_
      intro row hrow
      rw [hold] at hrow
      cases hrow
      exact hne rfl
    exact hview.trans (h.fresh v p hold)

theorem Stored.rollback (h : Stored s) : Stored (s.rollback k) := by
  refine ⟨?_, ?_, h.member⟩
  · intro v hor
    refine h.drawn v (hor.imp_right ?_)
    intro hpending
    obtain ⟨p, hp⟩ := Option.ne_none_iff_exists'.mp hpending
    have hold := (Table.pending_rollback.mp hp).1
    simp [hold]
  · intro v p hp
    exact h.fresh v p (Table.pending_rollback.mp hp).1

theorem Stored.insertVault (h : Stored s) {row : Option VaultRow} :
    Stored { s with vaults := s.vaults.write k s.drawn row, drawn := s.drawn + 1 } := by
  refine ⟨?_, ?_, h.member⟩
  · intro v hor
    by_cases hv : v = s.drawn
    · rw [hv]
      exact Nat.lt_succ_self s.drawn
    · rw [Table.pending_write_ne hv] at hor
      exact Nat.lt_succ_of_lt (h.drawn v hor)
  · intro v p hp
    by_cases hv : v = s.drawn
    · by_contra hrow
      exact absurd (h.drawn v (.inl hrow)) (by simp [hv])
    · rw [Table.pending_write_ne hv] at hp
      exact h.fresh v p hp

theorem Stored.putMember (h : Stored s) {v : VaultID} {userID : UserID} {role : Option Role}
    (hvault : role ≠ none → s.vaults.rows v ≠ none) :
    Stored { s with members := s.members.put (v, userID) role } := by
  refine ⟨h.drawn, h.fresh, ?_⟩
  intro v' userID' hrow
  by_cases hkey : (v', userID') = (v, userID)
  · rw [hkey, Table.rows_put_self] at hrow
    obtain ⟨rfl, rfl⟩ := Prod.mk.inj hkey
    exact hvault hrow
  · rw [Table.rows_put_ne hkey] at hrow
    exact h.member v' userID' hrow

theorem Stored.putVault (h : Stored s) {v : VaultID} {row : VaultRow}
    (hlive : s.vaults.rows v ≠ none) :
    Stored { s with vaults := s.vaults.put v (some row) } := by
  refine ⟨?_, ?_, ?_⟩
  · intro v' hor
    by_cases hv : v' = v
    · rw [hv]
      exact h.drawn v (.inl hlive)
    · rw [Table.rows_put_ne hv] at hor
      exact h.drawn v' hor
  · intro v' p hp
    by_cases hv : v' = v
    · rw [hv] at hp
      exact absurd (h.fresh v p hp) hlive
    · rw [Table.rows_put_ne hv]
      exact h.fresh v' p hp
  · intro v' userID' hm
    by_cases hv : v' = v
    · rw [hv, Table.rows_put_self]
      simp
    · rw [Table.rows_put_ne hv]
      exact h.member v' userID' hm

theorem Statement.stored (h : Statement s k o c s' c') (hown : Own s k c) (hst : Stored s) :
    Stored s' := by
  have hkeeps : ∀ v, s.vaults.rows v ≠ none → s'.vaults.rows v ≠ none :=
    fun v hrow => h.keeps_vault hown hrow
  cases h with
  | vaultInserted => exact hst.insertVault
  | @created userID v =>
    refine hst.commit ?_
    intro v' userID' hrow
    by_cases hkey : (v', userID') = (v, userID)
    · obtain ⟨rfl, rfl⟩ := Prod.mk.inj hkey
      rw [Table.view_of_own hown.written.1]
      simp
    · rw [hown.view_member (fun row hwrite => hkey hwrite.1)] at hrow
      exact hkeeps v' (hst.member v' userID' hrow)
  | @transferred v fromUserID toUserID =>
    refine hst.commit ?_
    intro v' userID' hrow
    by_cases hkey : (v', userID') = (v, toUserID)
    · obtain ⟨rfl, rfl⟩ := Prod.mk.inj hkey
      exact hkeeps v' hown.written.2
    · by_cases hpending : ∃ row, s.members.pending (v', userID') = some (k, row)
      · obtain ⟨row, hr⟩ := hpending
        rcases hown.member _ row hr with ⟨heq, -⟩ | ⟨-, -, rfl⟩
        · exact absurd heq hkey
        · rw [Table.view_of_own hr] at hrow
          exact absurd rfl hrow
      · rw [Table.view_of_other (fun row hr => hpending ⟨row, hr⟩)] at hrow
        exact hkeeps v' (hst.member v' userID' hrow)
  | createRolledBack => exact hst.rollback
  | transferRolledBack => exact hst.rollback
  | assigned _ hvault =>
    rw [hown.view_vault (fun _ h => h)] at hvault
    exact hst.putMember fun _ => hvault
  | removed => exact hst.putMember (absurd rfl)
  | vaultDeleted hrow =>
    rw [hown.view_vault (fun _ h => h)] at hrow
    exact hst.putVault (by simp [hrow])
  | _ => exact ⟨hst.drawn, hst.fresh, hst.member⟩

/-! ## Every run -/

/-- The tables, and what the calls have written. -/
structure TablesOk (s : Vaults) : Prop where
  stored : Stored s.store
  vault : ∀ v k row, s.store.vaults.pending v = some (k, row) →
    ∃ c, s.calls[k]? = some c ∧ c.VaultWrite v row
  member : ∀ key k row, s.store.members.pending key = some (k, row) →
    ∃ c, s.calls[k]? = some c ∧ c.MemberWrite key row
  written : ∀ (k : Nat) (c : Call), s.calls[k]? = some c → c.Written s.store k

theorem TablesOk.own {st : Vaults} (h : TablesOk st) (hk : st.calls[k]? = some c) :
    Own st.store k c := by
  refine ⟨?_, ?_, h.written k c hk⟩
  · intro v row hrow
    obtain ⟨c', hc', hwrite⟩ := h.vault v k row hrow
    rw [hk] at hc'
    obtain rfl := Option.some.inj hc'
    exact hwrite
  · intro key row hrow
    obtain ⟨c', hc', hwrite⟩ := h.member key k row hrow
    rw [hk] at hc'
    obtain rfl := Option.some.inj hc'
    exact hwrite

theorem Statement.written_other (h : Statement s k o c s' c') (hown : Own s k c) (hst : Stored s)
    {j : Nat} (hj : j ≠ k) {d : Call} (hwritten : d.Written s j) : d.Written s' j := by
  have hvault : ∀ {v row}, s.vaults.pending v = some (j, row) → s'.vaults.pending v = some (j, row) :=
    (h.others_vault hj hst.not_drawn).mpr
  have hmember : ∀ {key row}, s.members.pending key = some (j, row) →
      s'.members.pending key = some (j, row) := (h.others_member hj).mpr
  cases d with
  | createVault userID pc =>
    cases pc with
    | insertOwner v => exact hvault hwritten
    | commit v => exact ⟨hvault hwritten.1, hmember hwritten.2⟩
    | _ => trivial
  | transferOwnership v fromUserID toUserID pc =>
    cases pc with
    | commit => exact ⟨hmember hwritten.1, h.keeps_vault hown hwritten.2⟩
    | _ => trivial
  | _ => trivial

theorem TablesOk.exec {st : Vaults} (h : TablesOk st) (hk : st.calls[k]? = some c) (o : Outcome) :
    TablesOk ((service accounts).step st (.exec k o)) := by
  have hstep : Statement st.store k o c (c.exec accounts st.store k o).1
      (c.exec accounts st.store k o).2 := exec_statement
  refine Calls.Service.after_exec hk o ?_
  intro next (hstore : next.store = (c.exec accounts st.store k o).1)
    (hnext : next.calls[k]? = some (c.exec accounts st.store k o).2) hothers
  generalize (c.exec accounts st.store k o).1 = s' at hstep hstore
  generalize (c.exec accounts st.store k o).2 = c' at hstep hnext
  have hown := h.own hk
  have hown' : Own s' k c' := hstep.own hown
  refine ⟨?_, ?_, ?_, ?_⟩
  · rw [hstore]
    exact hstep.stored hown h.stored
  · intro v j row hrow
    rw [hstore] at hrow
    by_cases hj : j = k
    · subst hj
      exact ⟨c', hnext, hown'.vault v row hrow⟩
    · rw [hothers j hj]
      exact h.vault v j row ((hstep.others_vault hj h.stored.not_drawn).mp hrow)
  · intro key j row hrow
    rw [hstore] at hrow
    by_cases hj : j = k
    · subst hj
      exact ⟨c', hnext, hown'.member key row hrow⟩
    · rw [hothers j hj]
      exact h.member key j row ((hstep.others_member hj).mp hrow)
  · intro j d hd
    rw [hstore]
    by_cases hj : j = k
    · subst hj
      rw [hnext] at hd
      obtain rfl := Option.some.inj hd
      exact hown'.written
    · rw [hothers j hj] at hd
      exact hstep.written_other hown h.stored hj (h.written j d hd)

theorem Request.start_written (req : Request) : req.start.Written s k := by
  cases req <;> trivial

theorem TablesOk.world {st : Vaults} (h : TablesOk st) (req : Request) :
    TablesOk ((service accounts).step st (.world req)) := by
  refine ⟨h.stored, ?_, ?_, ?_⟩
  · intro v k row hrow
    obtain ⟨c, hc, hwrite⟩ := h.vault v k row hrow
    exact ⟨c, Calls.Service.step_world_of hc req, hwrite⟩
  · intro key k row hrow
    obtain ⟨c, hc, hwrite⟩ := h.member key k row hrow
    exact ⟨c, Calls.Service.step_world_of hc req, hwrite⟩
  · intro k c hc
    rcases Calls.Service.of_step_world hc with hold | ⟨-, hnew⟩
    · exact h.written k c hold
    · cases hnew
      exact req.start_written

theorem tablesOk_start : TablesOk start := by
  refine ⟨?_, ?_, ?_, ?_⟩
  · constructor <;> simp [start, Store.empty, Table.empty]
  · simp [start, Store.empty, Table.empty]
  · simp [start, Store.empty, Table.empty]
  · simp [start]

end UsbVault.Members
