import UsbVault.Oidc.Identities

/-!
# One user for an identity

A callback that meets the row of its identity when it links its new user is
too late: the row keeps its user, and the new one is committed and logged in
all the same. Where no callback does, the tokens issued for an identity name
the user it is linked to, and no other user is created for it
(`identity_linked_once`).
-/

namespace UsbVault.Oidc

open Tables Calls

variable {s : Store} {k : Nat} {c c' : Call} {o : Execution} {userID : UserID}

/-- The call is about to link the user it has created. -/
def Call.linking (c : Call) : Bool :=
  match c.pc with
  | .insertIdentity _ => true
  | _ => false

/-- A user is linked to an identity that has none. -/
def LinksFirst (s : State) : Action → Prop
  | .world _ => True
  | .exec k o => ∀ c ∈ s.calls[k]?, c.linking → o = .done →
      ¬s.store.identities.Held k c.identity → s.store.identities.rows c.identity = none

instance (s : State) (a : Action) : Decidable (LinksFirst s a) :=
  match a with
  | .world _ => isTrue trivial
  | .exec k _ => inferInstanceAs (Decidable (∀ c ∈ s.calls[k]?, _ → _ → _ → _))

/-- The tokens issued for an identity name its user, and so does every user
row that was created for it. -/
structure Linked (s : Store) : Prop where
  issued : ∀ identity userID, (identity, userID) ∈ s.issued →
    s.identities.rows identity = some userID
  created : ∀ emailHash row, s.users.rows emailHash = some row →
    ∀ identity, row.createdFor = some identity → s.identities.rows identity = some row.id

/-! ## What a transaction has written -/

def Call.UserWrite (c : Call) (key : String) (row : Option UserRow) : Prop :=
  match c.pc with
  | .insertIdentity userID => key = c.emailHash ∧ row = some ⟨userID, some c.identity⟩
  | .commit userID => key = c.emailHash ∧ row = some ⟨userID, some c.identity⟩
  | .rollback => True
  | _ => False

def Call.IdentityWrite (c : Call) (key : Identity) (row : Option UserID) : Prop :=
  match c.pc with
  | .commit userID => key = c.identity ∧ row = some userID
  | .rollback => True
  | _ => False

/-- The link that a call has written, or has found or committed. -/
def Call.Written (c : Call) (s : Store) (k : Nat) : Prop :=
  match c.pc with
  | .commit userID => s.identities.pending c.identity = some (k, some userID)
  | .loadEpoch userID => s.identities.rows c.identity = some userID
  | .generate userID => s.identities.rows c.identity = some userID
  | _ => True

/-- The call has written nothing. -/
def Call.idle (c : Call) : Bool :=
  match c.pc with
  | .insertIdentity _ => false
  | .commit _ => false
  | .rollback => false
  | _ => true

theorem Call.not_userWrite (h : c.idle = true) (key : String) (row : Option UserRow) :
    ¬c.UserWrite key row := by
  obtain ⟨identity, emailHash, pc⟩ := c
  cases pc <;> first | exact id | cases h

theorem Call.not_identityWrite (h : c.idle = true) (key : Identity) (row : Option UserID) :
    ¬c.IdentityWrite key row := by
  obtain ⟨identity, emailHash, pc⟩ := c
  cases pc <;> first | exact id | cases h

/-- The links and the user rows are as said, a link that is being written is
the first, and the open transactions have written what their calls say. -/
structure Mapped (st : State) : Prop where
  linked : Linked st.store
  free : ∀ identity k row, st.store.identities.pending identity = some (k, row) →
    st.store.identities.rows identity = none
  user : ∀ key k row, st.store.users.pending key = some (k, row) →
    ∃ c, st.calls[k]? = some c ∧ c.UserWrite key row
  identity : ∀ key k row, st.store.identities.pending key = some (k, row) →
    ∃ c, st.calls[k]? = some c ∧ c.IdentityWrite key row
  written : ∀ (k : Nat) (c : Call), st.calls[k]? = some c → c.Written st.store k

theorem Mapped.user_own {st : State} (h : Mapped st) (hk : st.calls[k]? = some c) {key : String}
    {row : Option UserRow} (hp : st.store.users.pending key = some (k, row)) :
    c.UserWrite key row := by
  obtain ⟨c', hc', hwrite⟩ := h.user key k row hp
  obtain rfl := Option.some.inj (hk.symm.trans hc')
  exact hwrite

theorem Mapped.identity_own {st : State} (h : Mapped st) (hk : st.calls[k]? = some c)
    {key : Identity} {row : Option UserID}
    (hp : st.store.identities.pending key = some (k, row)) : c.IdentityWrite key row := by
  obtain ⟨c', hc', hwrite⟩ := h.identity key k row hp
  obtain rfl := Option.some.inj (hk.symm.trans hc')
  exact hwrite

/-- What the statement of call `k` does to the tables. -/
structure Step (k : Nat) (s : Store) (c' : Call) (s' : Store) : Prop where
  linked : Linked s'
  free : ∀ identity j row, s'.identities.pending identity = some (j, row) →
    s'.identities.rows identity = none
  user : ∀ key j row, s'.users.pending key = some (j, row) →
    j ≠ k ∧ s.users.pending key = some (j, row) ∨ j = k ∧ c'.UserWrite key row
  identity : ∀ key j row, s'.identities.pending key = some (j, row) →
    j ≠ k ∧ s.identities.pending key = some (j, row) ∨ j = k ∧ c'.IdentityWrite key row
  others : ∀ key j row, j ≠ k → s.identities.pending key = some (j, row) →
    s'.identities.pending key = some (j, row)
  rows : ∀ key userID, s.identities.rows key = some userID → s'.identities.rows key = some userID
  written : c'.Written s' k

theorem Mapped.step {st next : State} (h : Mapped st) (hself : next.calls[k]? = some c')
    (hothers : ∀ j, j ≠ k → next.calls[j]? = st.calls[j]?)
    (hstep : Step k st.store c' next.store) : Mapped next := by
  refine ⟨hstep.linked, hstep.free, ?_, ?_, ?_⟩
  · intro key j row hp
    rcases hstep.user key j row hp with ⟨hj, hold⟩ | ⟨rfl, hwrite⟩
    · obtain ⟨d, hd, hwrite⟩ := h.user key j row hold
      exact ⟨d, by rw [hothers j hj, hd], hwrite⟩
    · exact ⟨c', hself, hwrite⟩
  · intro key j row hp
    rcases hstep.identity key j row hp with ⟨hj, hold⟩ | ⟨rfl, hwrite⟩
    · obtain ⟨d, hd, hwrite⟩ := h.identity key j row hold
      exact ⟨d, by rw [hothers j hj, hd], hwrite⟩
    · exact ⟨c', hself, hwrite⟩
  · intro j d hd
    by_cases hj : j = k
    · subst hj
      obtain rfl := Option.some.inj (hself.symm.trans hd)
      exact hstep.written
    · rw [hothers j hj] at hd
      have hwritten := h.written j d hd
      obtain ⟨identity, emailHash, pc⟩ := d
      cases pc with
      | commit userID => exact hstep.others _ j _ hj hwritten
      | loadEpoch userID => exact hstep.rows _ _ hwritten
      | generate userID => exact hstep.rows _ _ hwritten
      | _ => trivial

/-! ## The statements -/

section

variable {st : State} (h : Mapped st) (hk : st.calls[k]? = some c)

include h hk

theorem Mapped.user_kept (hkeep : ∀ key row, c.UserWrite key row → c'.UserWrite key row)
    {key : String} {j : Nat} {row : Option UserRow}
    (hp : st.store.users.pending key = some (j, row)) :
    j ≠ k ∧ st.store.users.pending key = some (j, row) ∨ j = k ∧ c'.UserWrite key row := by
  by_cases hj : j = k
  · subst hj
    exact .inr ⟨rfl, hkeep key row (h.user_own hk hp)⟩
  · exact .inl ⟨hj, hp⟩

theorem Mapped.identity_kept
    (hkeep : ∀ key row, c.IdentityWrite key row → c'.IdentityWrite key row)
    {key : Identity} {j : Nat} {row : Option UserID}
    (hp : st.store.identities.pending key = some (j, row)) :
    j ≠ k ∧ st.store.identities.pending key = some (j, row)
      ∨ j = k ∧ c'.IdentityWrite key row := by
  by_cases hj : j = k
  · subst hj
    exact .inr ⟨rfl, hkeep key row (h.identity_own hk hp)⟩
  · exact .inl ⟨hj, hp⟩

theorem Mapped.reads (drawn : Nat) {pc : Pc} (hwritten : { c with pc := pc }.Written st.store k)
    (huser : ∀ key row, c.UserWrite key row → { c with pc := pc }.UserWrite key row)
    (hidentity : ∀ key row, c.IdentityWrite key row →
      { c with pc := pc }.IdentityWrite key row) :
    Step k st.store { c with pc := pc } { st.store with drawn := drawn } where
  linked := ⟨h.linked.issued, h.linked.created⟩
  free := h.free
  user _ _ _ := h.user_kept hk huser
  identity _ _ _ := h.identity_kept hk hidentity
  others _ _ _ _ hp := hp
  rows _ _ hrow := hrow
  written := hwritten

theorem Mapped.insertUser (hpc : c.pc = .insertUser userID) :
    Step k st.store { c with pc := .insertIdentity userID }
      { st.store with
        users := st.store.users.write k c.emailHash (some ⟨userID, some c.identity⟩) } where
  linked := ⟨h.linked.issued, h.linked.created⟩
  free := h.free
  user key j row hp := by
    by_cases hkey : key = c.emailHash
    · subst hkey
      rw [Table.pending_write_self, Option.some.injEq, Prod.mk.injEq] at hp
      exact .inr ⟨hp.1.symm, rfl, hp.2.symm⟩
    · rw [Table.pending_write_ne hkey] at hp
      exact h.user_kept hk (fun _ _ hwrite => by simp [Call.UserWrite, hpc] at hwrite) hp
  identity _ _ _ :=
    h.identity_kept hk fun _ _ hwrite => by simp [Call.IdentityWrite, hpc] at hwrite
  others _ _ _ _ hp := hp
  rows _ _ hrow := hrow
  written := trivial

theorem Mapped.insertIdentity (hpc : c.pc = .insertIdentity userID)
    (hnone : st.store.identities.rows c.identity = none)
    (hunheld : st.store.identities.pending c.identity = none) :
    Step k st.store { c with pc := .commit userID }
      { st.store with
        identities := st.store.identities.write k c.identity (some userID) } where
  linked := ⟨h.linked.issued, h.linked.created⟩
  free identity j row hp := by
    by_cases hkey : identity = c.identity
    · rw [hkey]
      exact hnone
    · rw [Table.pending_write_ne hkey] at hp
      exact h.free identity j row hp
  user _ _ _ := h.user_kept hk fun _ _ hwrite => by simpa only [Call.UserWrite, hpc] using hwrite
  identity key j row hp := by
    by_cases hkey : key = c.identity
    · subst hkey
      rw [Table.pending_write_self, Option.some.injEq, Prod.mk.injEq] at hp
      exact .inr ⟨hp.1.symm, rfl, hp.2.symm⟩
    · rw [Table.pending_write_ne hkey] at hp
      exact h.identity_kept hk (fun _ _ hwrite => by simp [Call.IdentityWrite, hpc] at hwrite) hp
  others key j row hj hp := by
    have hkey : key ≠ c.identity := by
      rintro rfl
      rw [hunheld] at hp
      cases hp
    rw [Table.pending_write_ne hkey]
    exact hp
  rows _ _ hrow := hrow
  written := Table.pending_write_self

omit hk in
theorem Mapped.rollback : Step k st.store { c with pc := .failed } (st.store.rollback k) where
  linked := ⟨h.linked.issued, h.linked.created⟩
  free identity j row hp := h.free identity j row (Table.pending_rollback.mp hp).1
  user key j row hp := by
    obtain ⟨hold, hj⟩ := Table.pending_rollback.mp hp
    exact .inl ⟨hj, hold⟩
  identity key j row hp := by
    obtain ⟨hold, hj⟩ := Table.pending_rollback.mp hp
    exact .inl ⟨hj, hold⟩
  others key j row hj hp := Table.pending_rollback.mpr ⟨hp, hj⟩
  rows _ _ hrow := hrow
  written := trivial

/-- **The user and the link are committed**: the identity had none. -/
theorem Mapped.commit (hpc : c.pc = .commit userID) {pc : Pc}
    (hnext : pc = .loadEpoch userID ∨ pc = .failed) :
    Step k st.store { c with pc := pc } (st.store.commit k) := by
  have hown : st.store.identities.pending c.identity = some (k, some userID) := by
    have hwritten := h.written k c hk
    simpa only [Call.Written, hpc] using hwritten
  have hnone := h.free c.identity k _ hown
  have hself : (st.store.commit k).identities.rows c.identity = some userID :=
    Table.view_of_own hown
  have hother : ∀ identity, identity ≠ c.identity →
      (st.store.commit k).identities.rows identity = st.store.identities.rows identity := by
    intro identity hne
    refine Table.view_of_other ?_
    intro row hp
    have hwrite := h.identity_own hk hp
    simp only [Call.IdentityWrite, hpc] at hwrite
    exact hne hwrite.1
  have hrows : ∀ identity u, st.store.identities.rows identity = some u →
      (st.store.commit k).identities.rows identity = some u := by
    intro identity u hrow
    have hne : identity ≠ c.identity := by
      rintro rfl
      rw [hnone] at hrow
      cases hrow
    rw [hother identity hne]
    exact hrow
  constructor
  · constructor
    · intro identity u hmem
      exact hrows identity u (h.linked.issued identity u hmem)
    · intro emailHash row hrow identity hcreated
      by_cases hp : ∃ row', st.store.users.pending emailHash = some (k, row')
      · obtain ⟨row', hp⟩ := hp
        have hwrite := h.user_own hk hp
        simp only [Call.UserWrite, hpc] at hwrite
        have hview : st.store.users.view k emailHash = some row := hrow
        rw [Table.view_of_own hp, hwrite.2, Option.some.injEq] at hview
        rw [← hview] at hcreated ⊢
        rw [← Option.some.inj hcreated]
        exact hself
      · have hview : st.store.users.view k emailHash = some row := hrow
        rw [Table.view_of_other fun row' hrow' => hp ⟨row', hrow'⟩] at hview
        exact hrows identity row.id (h.linked.created emailHash row hview identity hcreated)
  · intro identity j row hp
    obtain ⟨hold, hj⟩ := Table.pending_commit.mp hp
    have hne : identity ≠ c.identity := by
      rintro rfl
      rw [hown, Option.some.injEq, Prod.mk.injEq] at hold
      exact hj hold.1.symm
    rw [hother identity hne]
    exact h.free identity j row hold
  · intro key j row hp
    obtain ⟨hold, hj⟩ := Table.pending_commit.mp hp
    exact .inl ⟨hj, hold⟩
  · intro key j row hp
    obtain ⟨hold, hj⟩ := Table.pending_commit.mp hp
    exact .inl ⟨hj, hold⟩
  · intro key j row hj hp
    exact Table.pending_commit.mpr ⟨hp, hj⟩
  · exact hrows
  · rcases hnext with rfl | rfl
    · exact hself
    · trivial

theorem Mapped.generate (hpc : c.pc = .generate userID) :
    Step k st.store { c with pc := .succeeded userID }
      { st.store with issued := st.store.issued ++ [(c.identity, userID)] } where
  linked := by
    refine ⟨?_, h.linked.created⟩
    intro identity u hmem
    rcases List.mem_append.mp hmem with hold | hnew
    · exact h.linked.issued identity u hold
    · obtain ⟨rfl, rfl⟩ : identity = c.identity ∧ u = userID := by simpa using hnew
      have hwritten := h.written k c hk
      simpa only [Call.Written, hpc] using hwritten
  free := h.free
  user _ _ _ :=
    h.user_kept hk fun _ _ hwrite => by simp [Call.UserWrite, hpc] at hwrite
  identity _ _ _ :=
    h.identity_kept hk fun _ _ hwrite => by simp [Call.IdentityWrite, hpc] at hwrite
  others _ _ _ _ hp := hp
  rows _ _ hrow := hrow
  written := trivial

/-- A statement of a call that has written nothing, and writes nothing. -/
theorem Mapped.idles (drawn : Nat) {pc : Pc} (hidle : c.idle = true)
    (hwritten : { c with pc := pc }.Written st.store k) :
    Step k st.store { c with pc := pc } { st.store with drawn := drawn } :=
  h.reads hk drawn hwritten (fun key row hwrite => absurd hwrite (c.not_userWrite hidle key row))
    (fun key row hwrite => absurd hwrite (c.not_identityWrite hidle key row))

theorem Mapped.aborts : Step k st.store { c with pc := .rollback } st.store :=
  h.reads hk st.store.drawn trivial (fun _ _ _ => trivial) (fun _ _ _ => trivial)

/-- **A statement of a call** whose link is the first. -/
theorem Mapped.exec_step (hok : LinksFirst st (.exec k o)) :
    Step k st.store { c with pc := (c.exec st.store k o).2 } (c.exec st.store k o).1 := by
  have hidle : ∀ {pc : Pc}, c.idle = true → { c with pc := pc }.Written st.store k →
      Step k st.store { c with pc := pc } st.store := h.idles hk st.store.drawn
  cases hpc : c.pc with
  | lookUp =>
    have hidle' : c.idle = true := by simp [Call.idle, hpc]
    simp only [Call.exec, hpc]
    split
    · next userID hfound =>
        refine hidle hidle' ?_
        split at hfound
        · exact hfound
        · cases hfound
    · exact h.idles hk _ hidle' trivial
  | begin userID =>
    simp only [Call.exec, hpc]
    refine hidle (by simp [Call.idle, hpc]) ?_
    split <;> trivial
  | insertUser userID =>
    have hidle' : c.idle = true := by simp [Call.idle, hpc]
    simp only [Call.exec, hpc]
    split
    · exact h.aborts hk
    split
    · exact hidle hidle' trivial
    split
    · exact h.aborts hk
    · exact h.insertUser hk hpc
  | insertIdentity userID =>
    simp only [Call.exec, hpc]
    split
    · exact h.aborts hk
    · next hdone =>
        split
        · -- it waits
          refine h.reads hk st.store.drawn trivial ?_ ?_
          · intro key row hwrite
            simpa [Call.UserWrite, hpc] using hwrite
          · intro key row hwrite
            simp [Call.IdentityWrite, hpc] at hwrite
        · next hheld =>
            have hlinking : c.linking = true := by simp [Call.linking, hpc]
            have hnone := hok c (Option.mem_def.mpr hk) hlinking (not_not.mp hdone) hheld
            have hunheld : st.store.identities.pending c.identity = none := by
              rcases Table.pending_of_not_held hheld with hfree | ⟨row, hown⟩
              · exact hfree
              · have hwrite := h.identity_own hk hown
                simp [Call.IdentityWrite, hpc] at hwrite
            rw [Table.view_of_free hunheld, hnone]
            exact h.insertIdentity hk hpc hnone hunheld
  | commit userID =>
    simp only [Call.exec, hpc]
    cases o with
    | done => exact h.commit hk hpc (.inl rfl)
    | unacknowledged => exact h.commit hk hpc (.inr rfl)
    | failed => exact h.rollback
  | rollback =>
    simp only [Call.exec, hpc]
    exact h.rollback
  | loadEpoch userID =>
    have hwritten := h.written k c hk
    simp only [Call.Written, hpc] at hwritten
    simp only [Call.exec, hpc]
    refine hidle (by simp [Call.idle, hpc]) ?_
    split
    · exact hwritten
    · trivial
  | generate userID =>
    simp only [Call.exec, hpc]
    split
    · exact h.generate hk hpc
    · exact hidle (by simp [Call.idle, hpc]) trivial
  | succeeded userID =>
    simp only [Call.exec, hpc]
    exact hidle (by simp [Call.idle, hpc]) trivial
  | failed =>
    simp only [Call.exec, hpc]
    exact hidle (by simp [Call.idle, hpc]) trivial

theorem Mapped.exec (hok : LinksFirst st (.exec k o)) :
    Mapped (service.step st (.exec k o)) := by
  refine Service.after_exec hk o ?_
  intro next (hstore : next.store = (c.exec st.store k o).1) hself hothers
  refine h.step hself hothers ?_
  rw [hstore]
  exact h.exec_step hk hok

end

/-! ## Runs -/

theorem Mapped.world {st : State} (h : Mapped st) (e : Event) :
    Mapped (service.step st (.world e)) := by
  have hcalls : ∀ (k : Nat) (c : Call), st.calls[k]? = some c →
      (service.step st (.world e)).calls[k]? = some c := fun k c hk => Service.step_world_of hk e
  cases e with
  | callback identity emailHash =>
    refine ⟨h.linked, h.free, ?_, ?_, ?_⟩
    · intro key k row hp
      obtain ⟨c, hc, hwrite⟩ := h.user key k row hp
      exact ⟨c, hcalls k c hc, hwrite⟩
    · intro key k row hp
      obtain ⟨c, hc, hwrite⟩ := h.identity key k row hp
      exact ⟨c, hcalls k c hc, hwrite⟩
    · intro k c hk
      rcases Service.of_step_world hk with hold | ⟨-, hnew⟩
      · exact h.written k c hold
      · cases hnew
        trivial
  | register emailHash =>
    by_cases hfree : st.store.users.rows emailHash = none
        ∧ st.store.users.pending emailHash = none
    · have hstep : service.step st (.world (.register emailHash)) =
          ⟨{ st.store with
            users := st.store.users.put emailHash (some ⟨st.store.drawn, none⟩)
            drawn := st.store.drawn + 1 }, st.calls⟩ := by
        simp [Service.step, service, Oidc.world, hfree]
      rw [hstep]
      refine ⟨⟨h.linked.issued, ?_⟩, h.free, h.user, h.identity, h.written⟩
      intro emailHash' row hrow identity hcreated
      by_cases hkey : emailHash' = emailHash
      · rw [hkey, Table.rows_put_self, Option.some.injEq] at hrow
        rw [← hrow] at hcreated
        cases hcreated
      · rw [Table.rows_put_ne hkey] at hrow
        exact h.linked.created emailHash' row hrow identity hcreated
    · have hstep : service.step st (.world (.register emailHash)) = st := by
        simp [Service.step, service, Oidc.world, hfree]
      rw [hstep]
      exact h

theorem mapped_start : Mapped start := by
  constructor
  · constructor <;> simp [start, Store.empty, Table.empty]
  · simp [start, Store.empty, Table.empty]
  · simp [start, Store.empty, Table.empty]
  · simp [start, Store.empty, Table.empty]
  · intro k c hk
    simp [start] at hk

/-- **An identity maps to one user** in every run in which a callback links a
user only to an identity that has none: every token issued for it names the
user that it is linked to, and every user row created for it is that user's. -/
theorem identity_linked_once {actions : List Action}
    (hrun : Run.Each service.step LinksFirst start actions) :
    Linked (service.run start actions).store := by
  have h : Mapped (service.run start actions) := by
    refine Service.preserves ?_ ?_ hrun mapped_start
    · intro st e hst _
      exact hst.world e
    · intro st k c o hst hok hk
      exact hst.exec hk hok
  exact h.linked

/-- The first login of an identity, and a second one whose claims have
another email. -/
def sampleLogins : List Action :=
  let identity : Identity := ⟨"idp", "sub"⟩
  List.flatten
    [[.world (.callback identity "mail")], List.replicate 7 (.exec 0 .done),
     [.world (.callback identity "new mail")], List.replicate 4 (.exec 1 .done)]

theorem identity_linked_once_sample : Linked (service.run start sampleLogins).store :=
  identity_linked_once (by decide)

/-- The lookup of the second login fails: it creates a user of its own. -/
theorem identity_linked_twice :
    ¬∀ actions : List Action, Linked (service.run start actions).store := by
  intro h
  let identity : Identity := ⟨"idp", "sub"⟩
  let first : List Action := .world (.callback identity "mail") :: List.replicate 7 (.exec 0 .done)
  let second : List Action := .world (.callback identity "new mail") :: .exec 1 .failed
    :: List.replicate 6 (.exec 1 .done)
  have hlinked := (h (first ++ second)).issued identity 1 (by decide)
  revert hlinked
  decide

end UsbVault.Oidc
