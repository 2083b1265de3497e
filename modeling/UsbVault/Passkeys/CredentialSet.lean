import UsbVault.Passkeys.Challenges

/-!
# The set of passkeys

Enrolment, login and deletion each read the whole list, change it and write
it back. Where the list they write over is the one they have read, an
enrolment's credential is new, and a write that takes place is acknowledged,
the list holds the credentials whose enrolment succeeded and whose deletion
did not, and no counter decreases (`passkeys_kept`).
-/

namespace UsbVault.Passkeys

open Tables Calls

/-! ## Changes -/

section

variable {id : CredentialID} {credentials : List Credential} {change : Change}
  {changes : List Change}

def ids (credentials : List Credential) : List CredentialID := credentials.map (·.id)

@[simp] theorem ids_setSignCount {count : Nat} :
    ids (setSignCount id count credentials) = ids credentials := by
  induction credentials with
  | nil => rfl
  | cons c cs ih =>
    rw [setSignCount]
    split
    · rfl
    · simpa [ids] using ih

theorem ids_erase : ids (credentials.eraseP (·.id = id)) = (ids credentials).erase id := by
  rw [List.erase_eq_eraseP', ids, ids, List.eraseP_map]
  rfl

/-- The credential's enrolment succeeded, and no deletion of it since. -/
def Stands (changes : List Change) (id : CredentialID) : Prop :=
  ∃ pre c post, changes = pre ++ .registered c :: post ∧ c.id = id ∧ .deleted id ∉ post

theorem not_stands_nil : ¬Stands [] id := by
  rintro ⟨pre, c, post, heq, -⟩
  simp at heq

/-- A further change, unless it is the deletion, leaves what stands standing. -/
theorem Stands.append (h : Stands changes id) (hne : change ≠ .deleted id) :
    Stands (changes ++ [change]) id := by
  obtain ⟨pre, c, post, rfl, rfl, hpost⟩ := h
  refine ⟨pre, c, post ++ [change], by simp, rfl, ?_⟩
  simpa [hpost] using Ne.symm hne

theorem Stands.of_append (h : Stands (changes ++ [change]) id) :
    Stands changes id ∧ change ≠ .deleted id ∨ ∃ c, change = .registered c ∧ c.id = id := by
  obtain ⟨pre, c, post, heq, hid, hpost⟩ := h
  rcases List.eq_nil_or_concat post with rfl | ⟨init, last, rfl⟩
  · obtain ⟨-, hlast⟩ := List.append_inj' heq rfl
    exact .inr ⟨c, by simpa using hlast, hid⟩
  · left
    have heq' : changes ++ [change] = (pre ++ .registered c :: init) ++ [last] := by
      rw [heq, List.concat_eq_append]
      simp
    obtain ⟨hinit, hlast⟩ := List.append_inj' heq' rfl
    obtain rfl : change = last := by simpa using hlast
    simp only [List.concat_eq_append, List.mem_append, List.mem_singleton, not_or] at hpost
    exact ⟨⟨pre, c, init, hinit, hid, hpost.1⟩, Ne.symm hpost.2⟩

theorem stands_registered {credential : Credential} :
    Stands (changes ++ [.registered credential]) id ↔ Stands changes id ∨ credential.id = id := by
  constructor
  · intro h
    rcases h.of_append with ⟨hold, -⟩ | ⟨c, heq, hid⟩
    · exact .inl hold
    · injection heq with heq
      exact .inr (by rw [heq, hid])
  · rintro (hold | hid)
    · exact hold.append nofun
    · exact ⟨changes, credential, [], rfl, hid, by simp⟩

theorem stands_used {id' : CredentialID} {count : Nat} :
    Stands (changes ++ [.used id' count]) id ↔ Stands changes id := by
  constructor
  · intro h
    rcases h.of_append with ⟨hold, -⟩ | ⟨c, heq, -⟩
    · exact hold
    · cases heq
  · intro h
    exact h.append nofun

theorem stands_deleted {id' : CredentialID} :
    Stands (changes ++ [.deleted id']) id ↔ id ≠ id' ∧ Stands changes id := by
  constructor
  · intro h
    rcases h.of_append with ⟨hold, hne⟩ | ⟨c, heq, -⟩
    · exact ⟨fun heq => hne (by rw [heq]), hold⟩
    · cases heq
  · rintro ⟨hne, hold⟩
    refine hold.append ?_
    intro heq
    injection heq with heq
    exact hne heq.symm

/-- The identifier of an enrolment is new. -/
def Change.Fresh (credentials : List Credential) : Change → Prop
  | .registered credential => credential.id ∉ ids credentials
  | .used _ _ => True
  | .deleted _ => True

instance : (change : Change) → Decidable (change.Fresh credentials)
  | .registered _ => inferInstanceAs (Decidable (_ ∉ _))
  | .used _ _ => isTrue trivial
  | .deleted _ => isTrue trivial

theorem nodup_apply (hnodup : (ids credentials).Nodup) (hfresh : change.Fresh credentials) :
    (ids (change.apply credentials)).Nodup := by
  cases change with
  | registered credential =>
    have happend : ids (credentials ++ [credential]) = ids credentials ++ [credential.id] := by
      simp [ids]
    show (ids (credentials ++ [credential])).Nodup
    rw [happend]
    exact List.nodup_append.mpr ⟨hnodup, by simp, by
      intro a ha b hb heq
      rw [List.mem_singleton] at hb
      exact hfresh (by rw [← hb, ← heq]; exact ha)⟩
  | used id count =>
    show (ids (setSignCount id count credentials)).Nodup
    rwa [ids_setSignCount]
  | deleted id =>
    show (ids (credentials.eraseP (·.id = id))).Nodup
    rw [ids_erase]
    exact hnodup.erase id

/-- **What is listed stands**, and stays so when a change is made and
reported. -/
theorem stands_apply (hnodup : (ids credentials).Nodup)
    (h : ∀ id, id ∈ ids credentials ↔ Stands changes id) :
    id ∈ ids (change.apply credentials) ↔ Stands (changes ++ [change]) id := by
  cases change with
  | registered credential =>
    rw [stands_registered, ← h id]
    simp [Change.apply, ids, eq_comm]
  | used id' count =>
    rw [stands_used, ← h id, Change.apply, ids_setSignCount]
  | deleted id' =>
    rw [stands_deleted, ← h id, Change.apply, ids_erase, hnodup.mem_erase_iff]

/-- The counter that a login stores is not below the one it has read. -/
def Change.Counts (credentials : List Credential) : Change → Prop
  | .used id count => ∀ c ∈ credentials.find? (·.id = id), c.signCount ≤ count
  | .registered _ => True
  | .deleted _ => True

/-- **Credentials stay, and their counters do not decrease**, but for the one
deleted. -/
theorem kept_apply (hcounts : change.Counts credentials) {c : Credential} (hc : c ∈ credentials)
    (hne : change ≠ .deleted c.id) :
    ∃ c' ∈ change.apply credentials, c'.id = c.id ∧ c.signCount ≤ c'.signCount := by
  cases change with
  | registered credential => exact ⟨c, List.mem_append_left _ hc, rfl, Nat.le_refl _⟩
  | used id count =>
    show ∃ c' ∈ setSignCount id count credentials, _
    induction credentials with
    | nil => simp at hc
    | cons head rest ih =>
      rw [setSignCount]
      split
      · next hid =>
          rcases List.mem_cons.mp hc with rfl | hrest
          · refine ⟨_, List.mem_cons_self .., rfl, ?_⟩
            exact hcounts c (by simp [hid])
          · exact ⟨c, List.mem_cons_of_mem _ hrest, rfl, Nat.le_refl _⟩
      · next hid =>
          rcases List.mem_cons.mp hc with rfl | hrest
          · exact ⟨c, List.mem_cons_self .., rfl, Nat.le_refl _⟩
          · have hcounts' : (Change.used id count).Counts rest := by
              intro d hd
              exact hcounts d (by simpa [List.find?_cons, hid] using hd)
            obtain ⟨c', hc', heq, hle⟩ := ih hrest hcounts'
            exact ⟨c', List.mem_cons_of_mem _ hc', heq, hle⟩
  | deleted id =>
    refine ⟨c, ?_, rfl, Nat.le_refl _⟩
    have hid : c.id ≠ id := by
      rintro rfl
      exact hne rfl
    show c ∈ credentials.eraseP (·.id = id)
    rw [List.mem_eraseP_of_neg (by simpa using hid)]
    exact hc

theorem credentials_column : (change.column credentials).getD [] = change.apply credentials := by
  unfold Change.column
  cases change with
  | deleted id =>
    dsimp only
    split
    · next heq => rw [heq]; rfl
    · rfl
  | _ => rfl

end

/-! ## The store -/

variable {s : Store} {c : Call} {k : Nat} {o : Outcome}

def Store.changes (s : Store) (userID : UserID) : List Change :=
  s.log.filterMap fun entry => if entry.1 = userID then some entry.2 else none

/-- No two credentials have one identifier; there are at most 10; they are
those whose enrolment succeeded and whose deletion did not; and a user
without a password who ever enrolled one has one. -/
structure Kept (s : Store) : Prop where
  nodup : ∀ userID, (ids (s.credentials userID)).Nodup
  bounded : ∀ userID, (s.credentials userID).length ≤ 10
  stands : ∀ userID id, id ∈ ids (s.credentials userID) ↔ Stands (s.changes userID) id
  nonempty : ∀ userID row, s.users userID = some row → row.hasPassword = false →
    (∃ credential, .registered credential ∈ s.changes userID) → s.credentials userID ≠ []

/-- From an earlier state to a later one: every credential that was not
deleted between is still there, and its counter has not decreased. -/
def Grows (s s' : Store) : Prop :=
  ∀ userID, ∃ changes, s'.changes userID = s.changes userID ++ changes
    ∧ ∀ c ∈ s.credentials userID, .deleted c.id ∉ changes →
      ∃ c' ∈ s'.credentials userID, c'.id = c.id ∧ c.signCount ≤ c'.signCount

theorem Grows.refl : Grows s s := by
  intro userID
  refine ⟨[], by simp, ?_⟩
  intro c hc _
  exact ⟨c, hc, rfl, Nat.le_refl _⟩

theorem Grows.trans {s' s'' : Store} (h : Grows s s') (h' : Grows s' s'') : Grows s s'' := by
  intro userID
  obtain ⟨changes, hchanges, hkept⟩ := h userID
  obtain ⟨changes', hchanges', hkept'⟩ := h' userID
  refine ⟨changes ++ changes', by rw [hchanges', hchanges, List.append_assoc], ?_⟩
  intro c hc hnot
  rw [List.mem_append, not_or] at hnot
  obtain ⟨c', hc', hid, hle⟩ := hkept c hc hnot.1
  obtain ⟨c'', hc'', hid', hle'⟩ := hkept' c' hc' (by rw [hid]; exact hnot.2)
  exact ⟨c'', hc'', hid'.trans hid, hle.trans hle'⟩

/-- The accounts and their passkeys are as they were. -/
structure SameUsers (s s' : Store) : Prop where
  users : s'.users = s.users
  log : s'.log = s.log

theorem SameUsers.credentials {s' : Store} (h : SameUsers s s') (userID : UserID) :
    s'.credentials userID = s.credentials userID := by
  rw [Store.credentials, Store.credentials, h.users]

theorem SameUsers.changes {s' : Store} (h : SameUsers s s') (userID : UserID) :
    s'.changes userID = s.changes userID := by
  rw [Store.changes, Store.changes, h.log]

theorem SameUsers.kept {s' : Store} (h : SameUsers s s') (hs : Kept s) : Kept s' where
  nodup userID := by
    rw [h.credentials]
    exact hs.nodup userID
  bounded userID := by
    rw [h.credentials]
    exact hs.bounded userID
  stands userID id := by
    rw [h.credentials, h.changes]
    exact hs.stands userID id
  nonempty userID row hrow := by
    rw [h.credentials, h.changes]
    rw [h.users] at hrow
    exact hs.nonempty userID row hrow

theorem SameUsers.grows {s' : Store} (h : SameUsers s s') : Grows s s' := by
  intro userID
  refine ⟨[], by simp [h.changes], ?_⟩
  intro c hc _
  rw [h.credentials]
  exact ⟨c, hc, rfl, Nat.le_refl _⟩

/-! ## A write -/

/-- What the guard of a request has found in the list it has read. -/
def Change.Guarded (row : UserRow) (credentials : List Credential) : Change → Prop
  | .registered _ => credentials.length < 10
  | .used id count => (Change.used id count).Counts credentials
  | .deleted _ => row.hasPassword = false → credentials.length - 1 ≠ 0

/-- The change that the history has: a login's when it takes place, the
others' when the request is told so. -/
def Change.reported (change : Change) (e : Execution) : Option Change :=
  match change with
  | .used _ _ => some change
  | _ => if e = .done then some change else none

theorem length_setSignCount {id : CredentialID} {count : Nat} {credentials : List Credential} :
    (setSignCount id count credentials).length = credentials.length := by
  have hlength : (ids (setSignCount id count credentials)).length = (ids credentials).length := by
    rw [ids_setSignCount]
  simpa [ids] using hlength

theorem users_write {userID : UserID} {row : UserRow} {column : Option (List Credential)}
    {reported : Option Change} (hrow : s.users userID = some row) :
    (s.update userID column reported).users
        = Function.update s.users userID (some { row with webauthnCredentials := column })
      ∧ (s.update userID column reported).log
        = s.log ++ reported.toList.map fun change => (userID, change) := by
  simp [Store.update, hrow]

section

variable {userID : UserID} {row : UserRow} {change : Change} {credentials : List Credential}

theorem credentials_write {v : UserID} {reported : Option Change}
    (hrow : s.users userID = some row) :
    (s.update userID (change.column credentials) reported).credentials v
      = if v = userID then change.apply credentials else s.credentials v := by
  rw [Store.credentials, (users_write hrow).1]
  by_cases hv : v = userID
  · subst hv
    simp [UserRow.credentials, credentials_column]
  · simp [hv, Store.credentials]

theorem changes_write {v : UserID} {column : Option (List Credential)}
    (hrow : s.users userID = some row) :
    (s.update userID column (some change)).changes v
      = s.changes v ++ if v = userID then [change] else [] := by
  rw [Store.changes, (users_write hrow).2, List.filterMap_append, ← Store.changes]
  by_cases hv : v = userID
  · simp [hv]
  · simp [hv, Ne.symm hv]

theorem Change.Guarded.length_le (h : change.Guarded row credentials)
    (hbounded : credentials.length ≤ 10) : (change.apply credentials).length ≤ 10 := by
  cases change with
  | registered credential =>
    have hlt : credentials.length < 10 := h
    simpa [Change.apply] using hlt
  | used id count =>
    rw [Change.apply, length_setSignCount]
    exact hbounded
  | deleted id => exact List.length_eraseP_le.trans hbounded

theorem Change.Guarded.ne_nil (h : change.Guarded row credentials)
    (hpassword : row.hasPassword = false)
    (hhas : (∀ credential, change ≠ .registered credential) → credentials ≠ []) :
    change.apply credentials ≠ [] := by
  cases change with
  | registered credential => simp [Change.apply]
  | used id count =>
    have hne : credentials ≠ [] := hhas nofun
    rw [← List.length_pos_iff] at hne ⊢
    rwa [Change.apply, length_setSignCount]
  | deleted id =>
    have hmore : credentials.length - 1 ≠ 0 := h hpassword
    have hle : credentials.length - 1 ≤ (credentials.eraseP (·.id = id)).length :=
      List.le_length_eraseP
    rw [← List.length_pos_iff, Change.apply]
    omega

/-- **A write** over the list that was read, of a change that is reported. -/
theorem Kept.write (h : Kept s) (hrow : s.users userID = some row)
    (hcurrent : s.credentials userID = credentials) (hfresh : change.Fresh credentials)
    (hguarded : change.Guarded row credentials) :
    Kept (s.update userID (change.column credentials) (some change)) := by
  have hnodup : (ids credentials).Nodup := by
    rw [← hcurrent]
    exact h.nodup userID
  have hbounded : credentials.length ≤ 10 := by
    rw [← hcurrent]
    exact h.bounded userID
  constructor
  · intro v
    rw [credentials_write hrow]
    split
    · exact nodup_apply hnodup hfresh
    · exact h.nodup v
  · intro v
    rw [credentials_write hrow]
    split
    · exact hguarded.length_le hbounded
    · exact h.bounded v
  · intro v id
    rw [credentials_write hrow, changes_write hrow]
    split
    · next hv =>
        subst hv
        refine stands_apply hnodup ?_
        intro id'
        rw [← hcurrent]
        exact h.stands v id'
    · rw [List.append_nil]
      exact h.stands v id
  · intro v row' hrow' hpassword hregistered
    rw [credentials_write hrow]
    rw [changes_write hrow] at hregistered
    rw [(users_write hrow).1] at hrow'
    split
    · next hv =>
        subst hv
        rw [Function.update_self, Option.some.injEq] at hrow'
        have hpassword' : row.hasPassword = false := by
          rw [← hrow'] at hpassword
          exact hpassword
        refine hguarded.ne_nil hpassword' ?_
        intro hother
        have hold : ∃ credential, .registered credential ∈ s.changes v := by
          simpa [fun credential => (hother credential).symm] using hregistered
        rw [← hcurrent]
        exact h.nonempty v row hrow hpassword' hold
    · next hv =>
        rw [Function.update_of_ne hv] at hrow'
        simp only [hv, if_false, List.append_nil] at hregistered
        exact h.nonempty v row' hrow' hpassword hregistered

theorem Grows.write (hrow : s.users userID = some row)
    (hcurrent : s.credentials userID = credentials) (hguarded : change.Guarded row credentials) :
    Grows s (s.update userID (change.column credentials) (some change)) := by
  intro v
  refine ⟨if v = userID then [change] else [], changes_write hrow, ?_⟩
  intro c hc hnot
  rw [credentials_write hrow]
  split
  · next hv =>
      subst hv
      rw [hcurrent] at hc
      have hcounts : change.Counts credentials := by
        cases change with
        | used id count => exact hguarded
        | _ => trivial
      refine kept_apply hcounts hc ?_
      rintro rfl
      simp at hnot
  · exact ⟨c, hc, rfl, Nat.le_refl _⟩

end

/-! ## A statement -/

/-- The list that a call is about to write over, and the change it makes. -/
def Call.writing : Call → Option (UserID × List Credential × Change)
  | .registerVerify userID _ (.update _ credentials credential) =>
    some (userID, credentials, .registered credential)
  | .loginVerify req (.update credentials count) =>
    some (req.userHandle, credentials, .used req.rawID count)
  | .deleteCredential userID id (.update credentials) => some (userID, credentials, .deleted id)
  | _ => none

/-- What the guards that a call has passed have found. -/
def Call.Passed (s : Store) : Call → Prop
  | .registerVerify _ _ (.finish _ credentials) => credentials.length < 10
  | .registerVerify _ _ (.update _ credentials _) => credentials.length < 10
  | .loginVerify req (.checkFlag credentials count) =>
    (Change.used req.rawID count).Counts credentials
  | .loginVerify req (.update credentials count) =>
    (Change.used req.rawID count).Counts credentials
  | .deleteCredential userID _ (.update credentials) =>
    ∀ row, s.users userID = some row → row.hasPassword = false → credentials.length - 1 ≠ 0
  | _ => True

/-- Accounts stay, and whether they have a password. -/
def SamePasswords (s s' : Store) : Prop :=
  ∀ userID row', s'.users userID = some row' →
    ∃ row, s.users userID = some row ∧ row.hasPassword = row'.hasPassword

theorem Call.Passed.mono {s' : Store} (h : c.Passed s) (hsame : SamePasswords s s') :
    c.Passed s' := by
  cases c with
  | registerChallenge userID pc => trivial
  | registerVerify userID sessionID pc => cases pc <;> exact h
  | loginVerify req pc => cases pc <;> exact h
  | deleteCredential userID id pc =>
    cases pc with
    | update credentials =>
      intro row' hrow' hpassword
      obtain ⟨row, hrow, heq⟩ := hsame userID row' hrow'
      exact h row hrow (heq.trans hpassword)
    | _ => trivial

theorem Call.Passed.guarded {userID : UserID} {credentials : List Credential} {change : Change}
    {row : UserRow} (h : c.Passed s) (hwriting : c.writing = some (userID, credentials, change))
    (hrow : s.users userID = some row) : change.Guarded row credentials := by
  cases c with
  | registerChallenge v pc => cases hwriting
  | registerVerify v sessionID pc =>
    cases pc with
    | update session credentials' credential =>
      obtain ⟨rfl, rfl, rfl⟩ : v = userID ∧ credentials' = credentials
          ∧ .registered credential = change := by
        simpa [Call.writing] using hwriting
      exact h
    | _ => cases hwriting
  | loginVerify req pc =>
    cases pc with
    | update credentials' count =>
      obtain ⟨rfl, rfl, rfl⟩ : req.userHandle = userID ∧ credentials' = credentials
          ∧ .used req.rawID count = change := by
        simpa [Call.writing] using hwriting
      exact h
    | _ => cases hwriting
  | deleteCredential v id pc =>
    cases pc with
    | update credentials' =>
      obtain ⟨rfl, rfl, rfl⟩ : v = userID ∧ credentials' = credentials
          ∧ .deleted id = change := by
        simpa [Call.writing] using hwriting
      exact h row hrow
    | _ => cases hwriting

/-- Commands that leave the accounts alone. -/
def Command.Off : Command → Prop
  | .update _ _ _ => False
  | _ => True

/-- The statement of a call: the write of its list, or one that leaves the
accounts alone. -/
inductive WriteStep (s : Store) (c : Call) (o : Outcome) : Command → Call → Prop where
  | writes {userID : UserID} {credentials : List Credential} {change : Change} {c' : Call}
      (hwriting : c.writing = some (userID, credentials, change)) (hc' : ∀ s', c'.Passed s') :
      WriteStep s c o
        (if o.e.Took then .update userID (change.column credentials) (change.reported o.e)
          else .nothing) c'
  | off {cmd : Command} {c' : Call} (hoff : cmd.Off) (hc' : c'.Passed s) : WriteStep s c o cmd c'

theorem counts_of_find {credentials : List Credential} {id : CredentialID} {c : Credential}
    {counter : Nat} (hfind : credentials.find? (·.id = id) = some c) :
    (Change.used id (updateCounter c.signCount counter)).Counts credentials := by
  intro d hd
  rw [hfind, Option.mem_some_iff] at hd
  subst hd
  unfold updateCounter
  split <;> omega

theorem registerVerify_writeStep {v : UserID} {sessionID : Nat} {pc : RegisterPc}
    (hc : (Call.registerVerify v sessionID pc).Passed s) :
    WriteStep s (Call.registerVerify v sessionID pc) o ((Call.registerVerify v sessionID pc).exec s k o).1
      ((Call.registerVerify v sessionID pc).exec s k o).2 := by
  cases pc with
  | getSession =>
    simp only [Call.exec, registerVerify]
    split <;> exact .off trivial trivial
  | deleteSession session =>
    simp only [Call.exec, registerVerify]
    refine .off ?_ trivial
    split <;> trivial
  | readCredentials session =>
    simp only [Call.exec, registerVerify]
    split
    · exact .off trivial trivial
    · split
      · exact .off trivial trivial
      · next hlength => exact .off trivial (Nat.lt_of_not_le hlength)
  | finish session credentials =>
    simp only [Call.exec, registerVerify]
    split
    · exact .off trivial hc
    · exact .off trivial trivial
  | update session credentials credential =>
    refine .writes rfl ?_
    intro s'
    simp only [Call.exec, registerVerify]
    split <;> trivial
  | succeeded id => exact .off trivial trivial
  | failed err => exact .off trivial trivial

theorem loginVerify_writeStep {req : LoginRequest} {pc : LoginPc}
    (hc : (Call.loginVerify req pc).Passed s) :
    WriteStep s (Call.loginVerify req pc) o ((Call.loginVerify req pc).exec s k o).1
      ((Call.loginVerify req pc).exec s k o).2 := by
  cases pc with
  | getSession =>
    simp only [Call.exec, loginVerify]
    split <;> exact .off trivial trivial
  | deleteSession =>
    simp only [Call.exec, loginVerify]
    refine .off ?_ trivial
    split <;> trivial
  | resolve =>
    simp only [Call.exec, loginVerify]
    split
    · exact .off trivial trivial
    · split
      · next hfind hcounter => exact .off trivial (counts_of_find hfind)
      · exact .off trivial trivial
  | checkFlag credentials count =>
    simp only [Call.exec, loginVerify]
    refine .off trivial ?_
    split_ifs
    · trivial
    · trivial
    · exact hc
  | update credentials count => exact .writes rfl fun _ => trivial
  | issueTokens =>
    simp only [Call.exec, loginVerify]
    refine .off trivial ?_
    split <;> trivial
  | mark =>
    simp only [Call.exec, loginVerify]
    refine .off ?_ trivial
    split <;> trivial
  | succeeded => exact .off trivial trivial
  | failed err => exact .off trivial trivial

theorem deleteCredential_writeStep {v : UserID} {id : CredentialID} {pc : DeletePc} :
    WriteStep s (Call.deleteCredential v id pc) o ((Call.deleteCredential v id pc).exec s k o).1
      ((Call.deleteCredential v id pc).exec s k o).2 := by
  cases pc with
  | readCredentials =>
    simp only [Call.exec, deleteCredential]
    split
    · exact .off trivial trivial
    · split
      · exact .off trivial trivial
      · next row hrow =>
          split_ifs with hany hlast
          · exact .off trivial trivial
          · refine .off trivial ?_
            intro row' hrow' hpassword hzero
            have hrow'' : s.users v = some row := by
              split at hrow
              · exact hrow
              · cases hrow
            obtain rfl := Option.some.inj (hrow'.symm.trans hrow'')
            exact hlast ⟨hzero, by simp [hpassword]⟩
          · exact .off trivial trivial
  | update credentials =>
    refine .writes rfl ?_
    intro s'
    simp only [Call.exec, deleteCredential]
    split <;> trivial
  | succeeded => exact .off trivial trivial
  | failed err => exact .off trivial trivial

/-- **A statement of a call.** -/
theorem exec_writeStep (hc : c.Passed s) : WriteStep s c o (c.exec s k o).1 (c.exec s k o).2 := by
  cases c with
  | registerChallenge v pc =>
    refine .off ?_ trivial
    cases pc with
    | setSession exempt =>
      simp only [Call.exec, registerChallenge]
      split <;> trivial
    | _ => trivial
  | registerVerify v sessionID pc => exact registerVerify_writeStep hc
  | loginVerify req pc => exact loginVerify_writeStep hc
  | deleteCredential v id pc => exact deleteCredential_writeStep

theorem sameUsers_apply {cmd : Command} (h : cmd.Off) : SameUsers s (s.apply cmd) := by
  cases cmd with
  | update userID column reported => exact absurd h id
  | _ => exact ⟨rfl, rfl⟩

theorem SameUsers.passwords {s' : Store} (h : SameUsers s s') : SamePasswords s s' := by
  intro userID row' hrow'
  rw [h.users] at hrow'
  exact ⟨row', hrow', rfl⟩

theorem passwords_write {userID : UserID} {row : UserRow} {column : Option (List Credential)}
    {reported : Option Change} (hrow : s.users userID = some row) :
    SamePasswords s (s.update userID column reported) := by
  intro v row' hrow'
  rw [(users_write hrow).1] at hrow'
  by_cases hv : v = userID
  · subst hv
    rw [Function.update_self, Option.some.injEq] at hrow'
    exact ⟨row, hrow, by rw [← hrow']⟩
  · rw [Function.update_of_ne hv] at hrow'
    exact ⟨row', hrow', rfl⟩

/-- A write that takes place is over the list that was read, enrols a new
credential, and is told of. -/
def Unraced (s : State) : Action → Prop
  | .world _ => True
  | .exec k o => ∀ c ∈ s.calls[k]?, ∀ w ∈ c.writing, o.e.Took →
      s.store.credentials w.1 = w.2.1 ∧ w.2.2.Fresh w.2.1 ∧ w.2.2.reported o.e = some w.2.2

instance (s : State) (a : Action) : Decidable (Unraced s a) :=
  match a with
  | .world _ => isTrue trivial
  | .exec k _ =>
    inferInstanceAs (Decidable (∀ c ∈ s.calls[k]?, ∀ w ∈ c.writing, _ → _ ∧ _ ∧ _))

/-- **A statement** keeps the set. -/
theorem exec_kept {st : State} (hk : st.calls[k]? = some c) (hok : Unraced st (.exec k o))
    (h : Kept st.store) (hc : c.Passed st.store) :
    Kept (st.store.apply (c.exec st.store k o).1)
      ∧ Grows st.store (st.store.apply (c.exec st.store k o).1)
      ∧ SamePasswords st.store (st.store.apply (c.exec st.store k o).1)
      ∧ (c.exec st.store k o).2.Passed (st.store.apply (c.exec st.store k o).1) := by
  have hstep : WriteStep st.store c o (c.exec st.store k o).1 (c.exec st.store k o).2 :=
    exec_writeStep hc
  generalize (c.exec st.store k o).1 = cmd at hstep
  generalize (c.exec st.store k o).2 = c' at hstep
  have hoff : ∀ cmd : Command, cmd.Off → c'.Passed st.store →
      Kept (st.store.apply cmd) ∧ Grows st.store (st.store.apply cmd)
        ∧ SamePasswords st.store (st.store.apply cmd) ∧ c'.Passed (st.store.apply cmd) := by
    intro cmd hcmd hc'
    have hsame := sameUsers_apply (s := st.store) hcmd
    exact ⟨hsame.kept h, hsame.grows, hsame.passwords, hc'.mono hsame.passwords⟩
  cases hstep with
  | off hcmd hc' => exact hoff _ hcmd hc'
  | @writes userID credentials change c' hwriting hc' =>
    by_cases htook : o.e.Took
    · obtain ⟨hcurrent, hfresh, hreported⟩ :=
        hok c (Option.mem_def.mpr hk) _ (Option.mem_def.mpr hwriting) htook
      rw [if_pos htook, hreported]
      cases hrow : st.store.users userID with
      | none =>
        have hnothing : st.store.update userID (change.column credentials) (some change)
            = st.store := by
          simp [Store.update, hrow]
        show Kept (st.store.update _ _ _) ∧ Grows _ (st.store.update _ _ _)
          ∧ SamePasswords _ (st.store.update _ _ _) ∧ c'.Passed (st.store.update _ _ _)
        rw [hnothing]
        exact hoff .nothing trivial (hc' _)
      | some row =>
        have hguarded := hc.guarded hwriting hrow
        exact ⟨h.write hrow hcurrent hfresh hguarded, Grows.write hrow hcurrent hguarded,
          passwords_write hrow, hc' _⟩
    · rw [if_neg htook]
      exact hoff .nothing trivial (hc' _)

/-! ## Runs -/

/-- Accounts without passkeys, with a password or without. -/
def newAccounts (accounts : UserID → Option Bool) : State :=
  start fun userID => (accounts userID).map fun hasPassword => ⟨none, hasPassword⟩

theorem kept_newAccounts (accounts : UserID → Option Bool) : Kept (newAccounts accounts).store := by
  have hempty : ∀ userID, (newAccounts accounts).store.credentials userID = [] := by
    intro userID
    cases haccount : accounts userID with
    | none => simp [newAccounts, start, Store.credentials, haccount]
    | some hasPassword => simp [newAccounts, start, Store.credentials, haccount, UserRow.credentials]
  have hchanges : ∀ userID, (newAccounts accounts).store.changes userID = [] := fun _ => rfl
  constructor
  · intro userID
    simp [hempty, ids]
  · intro userID
    simp [hempty]
  · intro userID id
    rw [hempty, hchanges]
    simp [ids, not_stands_nil]
  · intro userID row _ _ hregistered
    simp [hchanges] at hregistered

theorem world_sameUsers {e : Event} : SameUsers s (service.world s e).1 := by
  cases e <;> exact ⟨rfl, rfl⟩

/-- The set is kept, and nothing that was there before is lost. -/
def KeptSince (before s : Store) : Prop := Kept s ∧ Grows before s

theorem keptSince_run {before : Store} {st : State} {actions : List Action}
    (hrun : Run.Each service.step Unraced st actions)
    (h : Holds (KeptSince before) (fun s _ c => c.Passed s) st) :
    Holds (KeptSince before) (fun s _ c => c.Passed s) (service.run st actions) := by
  refine Holds.run ?_ ?_ hrun h
  · intro st e h _
    have hsame : SameUsers st.store (service.world st.store e).1 := world_sameUsers
    refine ⟨⟨hsame.kept h.store.1, h.store.2.trans hsame.grows⟩, ?_, ?_⟩
    · exact fun k c _ hc => hc.mono hsame.passwords
    · intro c hcall
      cases e with
      | request req =>
        obtain rfl := Option.some.inj hcall
        cases req <;> trivial
      | _ => cases hcall
  · intro st k c o h hok hk
    obtain ⟨hkept, hgrows, hpasswords, hself⟩ := exec_kept hk hok h.store.1 (h.call k c hk)
    exact ⟨⟨hkept, h.store.2.trans hgrows⟩, hself, fun j c' _ _ hc' => hc'.mono hpasswords⟩

/-- **The passkeys are a set** in every run whose writes are not raced: those
whose enrolment succeeded and whose deletion did not, each once and at most
10; no counter decreases; and a user without a password keeps one. -/
theorem passkeys_kept {accounts : UserID → Option Bool} {pre post : List Action}
    (hrun : Run.Each service.step Unraced (newAccounts accounts) (pre ++ post)) :
    Kept (service.run (newAccounts accounts) (pre ++ post)).store
      ∧ Grows (service.run (newAccounts accounts) pre).store
        (service.run (newAccounts accounts) (pre ++ post)).store := by
  obtain ⟨hpre, hpost⟩ := Run.Each.append.mp hrun
  have hstart : Holds (KeptSince (newAccounts accounts).store) (fun s _ c => c.Passed s)
      (newAccounts accounts) := .initial ⟨kept_newAccounts accounts, Grows.refl⟩
  have hmid := keptSince_run hpre hstart
  change Run.Each service.step _ (service.run (newAccounts accounts) pre) post at hpost
  rw [Service.run_append]
  exact (keptSince_run hpost ⟨⟨hmid.store.1, Grows.refl⟩, hmid.call⟩).store

/-- A user without a password. -/
def sampleAccounts (userID : UserID) : Option Bool := if userID = "u" then some false else none

/-- What the library answers. -/
def library (id : CredentialID) : Outcome := ⟨.done, some ⟨id, 0⟩, some 1, false⟩

/-- Two challenges for the user. -/
def sampleOpened : List Action :=
  List.flatten
    [[.world (.request (.registerChallenge "u")), .world (.request (.registerChallenge "u"))],
     List.replicate 3 (.exec 0 (library "a")), List.replicate 3 (.exec 1 (library "b"))]

/-- The two are verified in turn. -/
def sampleEnrolments : List Action :=
  List.flatten
    [[.world (.request (.registerVerify "u" 0))], List.replicate 5 (.exec 2 (library "a")),
     [.world (.request (.registerVerify "u" 1))], List.replicate 5 (.exec 3 (library "b"))]

theorem passkeys_kept_sample :
    Kept (service.run (newAccounts sampleAccounts) (sampleOpened ++ sampleEnrolments)).store
      ∧ Grows (service.run (newAccounts sampleAccounts) sampleOpened).store
        (service.run (newAccounts sampleAccounts) (sampleOpened ++ sampleEnrolments)).store :=
  passkeys_kept (by decide)

/-- Both read the empty list, and both are stored; the second overwrites the
first. -/
def sampleRace : List Action :=
  List.flatten
    [[.world (.request (.registerVerify "u" 0)), .world (.request (.registerVerify "u" 1))],
     List.replicate 4 (.exec 2 (library "a")), List.replicate 4 (.exec 3 (library "b")),
     [.exec 2 (library "a"), .exec 3 (library "b")]]

theorem passkey_lost :
    ¬∀ (accounts : UserID → Option Bool) (pre post : List Action),
      Kept (service.run (newAccounts accounts) (pre ++ post)).store
        ∧ Grows (service.run (newAccounts accounts) pre).store
          (service.run (newAccounts accounts) (pre ++ post)).store := by
  intro h
  have hstands := (h sampleAccounts [] (sampleOpened ++ sampleRace)).1.stands "u" "a"
  have hlisted := hstands.mpr ⟨[], ⟨"a", 0⟩, [.registered ⟨"b", 0⟩], by decide, rfl, by decide⟩
  revert hlisted
  decide

end UsbVault.Passkeys
