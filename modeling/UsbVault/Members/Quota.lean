import UsbVault.Members.Ownership

/-!
# The vault quota

`CreateVaultAtomic` counts, compares and inserts under an advisory lock of
the user that is released when its transaction ends, so what it has counted
still holds when it commits. The quota is that of the tier the call has
resolved; a failed count refuses the call. Where no failing query makes it
resolve another paid tier than the user's, no user has more live vaults than
the tier allows (`quota_holds`).
-/

namespace UsbVault.Members

open Tables

variable {accounts : Accounts} {s s' : Store} {k : Nat} {c c' : Call} {o : Outcome}
variable {userID : UserID} {tier : Tier}

/-- No user has more live vaults than the tier allows. -/
def WithinQuota (accounts : Accounts) (s : Store) : Prop :=
  ∀ userID, 0 ≤ maxVaults (accounts.tier userID) →
    (s.liveVaults userID : Int) ≤ maxVaults (accounts.tier userID)

/-- The user of a call that is about to query the active subscription. -/
def Call.querying : Call → Option UserID
  | .createVault userID .subscription => some userID
  | _ => none

/-- A query of the active subscription that fails does not let the override
column give the user another paid tier. -/
def SubscriptionRead (accounts : Accounts) (s : Vaults) : Action → Prop
  | .world _ => True
  | .exec k o =>
    o = .error → ∀ c ∈ s.calls[k]?, ∀ userID ∈ c.querying,
      accounts.overrideTier userID = .free
        ∨ accounts.overrideTier userID = accounts.tier userID

instance (accounts : Accounts) (s : Vaults) (a : Action) :
    Decidable (SubscriptionRead accounts s a) :=
  match a with
  | .world _ => inferInstanceAs (Decidable True)
  | .exec k _ =>
    inferInstanceAs (Decidable (_ → ∀ c ∈ s.calls[k]?, ∀ userID ∈ c.querying, _ ∨ _))

/-! ## The tier -/

/-- The tier a call resolves: the user's, or the free one after a failure. -/
def Resolves (accounts : Accounts) (userID : UserID) (tier : Tier) (failed : Bool) : Prop :=
  tier = accounts.tier userID ∨ tier = .free ∧ failed = true

theorem maxVaults_free_le (h : 0 ≤ maxVaults tier) : maxVaults .free ≤ maxVaults tier := by
  cases tier with
  | enterprise => exact absurd h (by decide)
  | _ => decide

/-- The tier resolved has a limit if the user's has, and no higher one. -/
theorem Resolves.limit {failed : Bool} {userTier : Tier}
    (h : Resolves accounts userID userTier failed)
    (hlimit : 0 ≤ maxVaults (accounts.tier userID)) :
    0 ≤ maxVaults userTier ∧ maxVaults userTier ≤ maxVaults (accounts.tier userID) := by
  rcases h with rfl | ⟨rfl, -⟩
  · exact ⟨hlimit, le_refl _⟩
  · exact ⟨by decide, maxVaults_free_le hlimit⟩

theorem tier_of_subTier (h : accounts.subTier userID = some tier) :
    tier = accounts.tier userID := by
  simp [Accounts.tier, h]

theorem tier_of_override (h : accounts.subTier userID = none) :
    accounts.overrideTier userID = accounts.tier userID := by
  simp [Accounts.tier, h]

/-! ## The calls -/

/-- There is room for one more vault. -/
def Room (accounts : Accounts) (s : Store) (userID : UserID) : Prop :=
  0 ≤ maxVaults (accounts.tier userID) →
    (s.liveVaults userID : Int) < maxVaults (accounts.tier userID)

/-- The call has the advisory lock of its user, and there is room. -/
def Admitted (accounts : Accounts) (s : Store) (k : Nat) (userID : UserID) : Prop :=
  s.advisory (advisoryLockKey userID) = some k ∧ Room accounts s userID

/-- What a call has resolved, locked and counted. -/
def Call.Quota (accounts : Accounts) (c : Call) (s : Store) (k : Nat) : Prop :=
  match c with
  | .createVault userID (.override failed) =>
    Resolves accounts userID (accounts.overrideTier userID) failed
  | .createVault userID (.begin tier failed) => Resolves accounts userID tier failed
  | .createVault userID (.lock tier failed) => Resolves accounts userID tier failed
  | .createVault userID (.count tier failed) =>
    Resolves accounts userID tier failed ∧ s.advisory (advisoryLockKey userID) = some k
  | .createVault userID .insertVault => Admitted accounts s k userID
  | .createVault userID (.insertOwner _) => Admitted accounts s k userID
  | .createVault userID (.commit _) => Admitted accounts s k userID
  | _ => True

/-- A call that is counting finds the committed vaults of its user. -/
theorem Own.countVaults {failed : Bool}
    (h : Own s k (.createVault userID (.count tier failed))) :
    s.countVaults k userID = s.liveVaults userID :=
  Table.length_select fun _ => h.view_vault fun _ hwrite => hwrite.elim

theorem execCreate_quota {pc : CreatePc} (hquota : (Call.createVault userID pc).Quota accounts s k)
    (hown : Own s k (.createVault userID pc))
    (hok : o = .error → ∀ user ∈ (Call.createVault userID pc).querying,
      accounts.overrideTier user = .free ∨ accounts.overrideTier user = accounts.tier user) :
    (Call.createVault userID (execCreate accounts s k userID pc o).2).Quota accounts
      (execCreate accounts s k userID pc o).1 k := by
  cases pc with
  | subscription =>
    simp only [execCreate]
    split
    · rename_i ho
      rcases hok ho userID rfl with hfree | hsame
      · exact .inr ⟨hfree, rfl⟩
      · exact .inl hsame
    · split
      · rename_i tier htier
        exact .inl (tier_of_subTier htier)
      · rename_i hnone
        exact .inl (tier_of_override hnone)
  | override failed =>
    simp only [execCreate]
    split
    · exact .inr ⟨rfl, rfl⟩
    · exact hquota
  | begin tier failed =>
    simp only [execCreate]
    split
    · trivial
    · exact hquota
  | lock tier failed =>
    simp only [execCreate]
    split
    · trivial
    · split
      · exact hquota
      · exact ⟨hquota, Function.update_self _ _ _⟩
  | count tier failed =>
    obtain ⟨hresolves, hlock⟩ := hquota
    simp only [execCreate]
    split
    · rename_i hunlimited
      refine ⟨hlock, ?_⟩
      intro hlimit
      have hnonneg := (hresolves.limit hlimit).1
      omega
    · split
      · trivial
      · split
        · trivial
        · rename_i hless
          refine ⟨hlock, ?_⟩
          intro hlimit
          have hle := (hresolves.limit hlimit).2
          rw [hown.countVaults] at hless
          omega
  | insertVault =>
    simp only [execCreate]
    split
    · trivial
    · refine ⟨hquota.1, ?_⟩
      have hcount : ∀ v row, ({ s with vaults := s.vaults.write k v row, drawn := v + 1 } :
          Store).liveVaults userID = s.liveVaults userID := fun v row => Table.count_write
      rw [Room, hcount]
      exact hquota.2
  | insertOwner v =>
    simp only [execCreate]
    split
    · trivial
    · split
      · exact hquota
      · exact hquota
  | commit v =>
    simp only [execCreate]
    split <;> trivial
  | rollback err => trivial
  | done result => trivial

/-- **What a statement adds to the live vaults of a user**: nothing, unless it
commits a vault of the user. -/
theorem Statement.liveVaults_le (h : Statement s k o c s' c') (hown : Own s k c)
    (userID : UserID) :
    s'.liveVaults userID ≤ s.liveVaults userID
      ∨ (∃ v, c = .createVault userID (.commit v))
        ∧ s'.liveVaults userID ≤ s.liveVaults userID + 1 := by
  cases h with
  | vaultInserted => exact .inl (le_of_eq Table.count_write)
  | @created userID' v =>
    have hview : ∀ v', v' ≠ v → s.vaults.view k v' = s.vaults.rows v' :=
      fun v' hne => hown.view_vault fun row hwrite => hne hwrite.1
    by_cases huser : userID' = userID
    · subst huser
      exact .inr ⟨⟨v, rfl⟩, Table.count_commit_le hview⟩
    · refine .inl (Table.count_congr rfl ?_)
      intro v' row hrow hlive
      by_cases hv : v' = v
      · -- the new vault is another user's
        subst hv
        replace hrow : s.vaults.view k v' = some row := hrow
        rw [Table.view_of_own hown.written.1] at hrow
        cases hrow
        simp [Store.live, huser] at hlive
      · exact (hview v' hv).symm.trans hrow
  | transferred =>
    refine .inl (Table.count_congr rfl ?_)
    intro v' row hrow _
    exact (hown.view_vault fun row hwrite => hwrite.elim).symm.trans hrow
  | vaultDeleted => exact .inl (Table.count_put_le (by simp [Store.live]))
  | _ => exact .inl (le_refl _)

theorem Statement.advisory_other (h : Statement s k o c s' c') {j : Nat} (hj : j ≠ k)
    {key : Int64} (hlock : s.advisory key = some j) : s'.advisory key = some j := by
  have hrelease : s.release k key = some j := by
    simp [Store.release, hlock, Option.filter, hj]
  cases h with
  | @locked userID tier failed hfree =>
    by_cases hkey : key = advisoryLockKey userID
    · rw [hkey] at hlock
      exact absurd (hfree j hlock) hj
    · exact (Function.update_of_ne hkey _ _).trans hlock
  | created => exact hrelease
  | transferred => exact hrelease
  | createRolledBack => exact hrelease
  | transferRolledBack => exact hrelease
  | _ => exact hlock

/-- Another call of the same user cannot commit, and so the room stays. -/
theorem Statement.admitted_other (h : Statement s k o c s' c') (hown : Own s k c)
    (hquota : c.Quota accounts s k) {j : Nat} (hj : j ≠ k)
    (hadmitted : Admitted accounts s j userID) : Admitted accounts s' j userID := by
  obtain ⟨hlock, hroom⟩ := hadmitted
  refine ⟨h.advisory_other hj hlock, ?_⟩
  intro hlimit
  have hless := hroom hlimit
  rcases h.liveVaults_le hown userID with hle | ⟨⟨v, rfl⟩, -⟩
  · omega
  · have hown' := hquota.1
    rw [hlock] at hown'
    exact absurd (Option.some.inj hown') hj

theorem Statement.quota_other (h : Statement s k o c s' c') (hown : Own s k c)
    (hquota : c.Quota accounts s k) {j : Nat} (hj : j ≠ k) {d : Call}
    (hd : d.Quota accounts s j) : d.Quota accounts s' j := by
  cases d with
  | createVault userID pc =>
    cases pc with
    | count tier failed => exact ⟨hd.1, h.advisory_other hj hd.2⟩
    | insertVault => exact h.admitted_other hown hquota hj hd
    | insertOwner v => exact h.admitted_other hown hquota hj hd
    | commit v => exact h.admitted_other hown hquota hj hd
    | _ => exact hd
  | _ => trivial

/-! ## Every run -/

structure QuotaOk (accounts : Accounts) (s : Vaults) : Prop where
  tables : TablesOk s
  within : WithinQuota accounts s.store
  calls : ∀ (k : Nat) (c : Call), s.calls[k]? = some c → c.Quota accounts s.store k

theorem QuotaOk.exec {st : Vaults} (h : QuotaOk accounts st) (hk : st.calls[k]? = some c)
    (hok : SubscriptionRead accounts st (.exec k o)) :
    QuotaOk accounts ((service accounts).step st (.exec k o)) := by
  have hown := h.tables.own hk
  have hquota := h.calls k c hk
  have hstep : Statement st.store k o c (c.exec accounts st.store k o).1
      (c.exec accounts st.store k o).2 := exec_statement
  have hself : (c.exec accounts st.store k o).2.Quota accounts (c.exec accounts st.store k o).1 k := by
    cases c with
    | createVault userID pc => exact execCreate_quota hquota hown fun ho => hok ho _ hk
    | _ => trivial
  have hstore : ((service accounts).step st (.exec k o)).store
      = (c.exec accounts st.store k o).1 := Calls.Service.step_exec_store hk o
  refine ⟨h.tables.exec hk o, ?_, ?_⟩
  · intro userID hlimit
    rw [hstore]
    have hwithin := h.within userID hlimit
    rcases hstep.liveVaults_le hown userID with hle | ⟨⟨v, rfl⟩, hle⟩
    · omega
    · have hroom := hquota.2 hlimit
      omega
  · intro j d hd
    rw [hstore]
    by_cases hj : j = k
    · subst hj
      rw [Calls.Service.step_exec_self hk] at hd
      obtain rfl := Option.some.inj hd
      exact hself
    · rw [Calls.Service.step_exec_ne hj] at hd
      exact hstep.quota_other hown hquota hj (h.calls j d hd)

theorem QuotaOk.world {st : Vaults} (h : QuotaOk accounts st) (req : Request) :
    QuotaOk accounts ((service accounts).step st (.world req)) := by
  refine ⟨h.tables.world req, h.within, ?_⟩
  intro k c hc
  rcases Calls.Service.of_step_world hc with hold | ⟨-, hnew⟩
  · exact h.calls k c hold
  · cases hnew
    cases req <;> trivial

/-- A query of the call's `ResolveTier` failed. -/
def CreatePc.lookupFailed : CreatePc → Bool
  | .count _ failed => failed
  | _ => false

/-- The user has as many live vaults as the tier allows. -/
def AtLimit (s : Store) (userID : UserID) (tier : Tier) : Prop :=
  0 ≤ maxVaults tier ∧ maxVaults tier ≤ s.liveVaults userID

/-- A call that is refused for quota has failed to count, or is at the limit. -/
theorem refused_at_limit {pc : CreatePc}
    (hquota : (Call.createVault userID pc).Quota accounts s k)
    (hown : Own s k (.createVault userID pc))
    (hrefused : (execCreate accounts s k userID pc o).2 = .rollback .errVaultLimitReached) :
    o = .error ∨ AtLimit s userID (accounts.tier userID)
      ∨ pc.lookupFailed = true ∧ AtLimit s userID .free := by
  cases pc with
  | count tier failed =>
    obtain ⟨hresolves, -⟩ := hquota
    simp only [execCreate] at hrefused
    split at hrefused
    · cases hrefused
    · rename_i hlimited
      split at hrefused
      · rename_i ho
        exact .inl ho
      · split at hrefused
        · rename_i hfull
          rw [hown.countVaults] at hfull
          have hlimit : AtLimit s userID tier := ⟨by omega, hfull⟩
          rcases hresolves with rfl | ⟨rfl, hfailed⟩
          · exact .inr (.inl hlimit)
          · exact .inr (.inr ⟨hfailed, hlimit⟩)
        · cases hrefused
  | subscription =>
    simp only [execCreate] at hrefused
    split at hrefused
    · cases hrefused
    · split at hrefused <;> cases hrefused
  | lock tier failed =>
    simp only [execCreate] at hrefused
    split at hrefused
    · cases hrefused
    · split at hrefused <;> cases hrefused
  | insertOwner v =>
    simp only [execCreate] at hrefused
    split at hrefused
    · cases hrefused
    · split at hrefused <;> cases hrefused
  | rollback err => cases hrefused
  | done result => cases hrefused
  | _ =>
    simp only [execCreate] at hrefused
    split at hrefused <;> cases hrefused

/-- **The vault quota holds**: in every run in which no failing query of the
active subscription gives a user another paid tier, no user has more live
vaults than the tier allows; and a call is refused for quota only when its
count fails, or the user is at the limit of the tier, or of the free tier
where a query of the call's `ResolveTier` failed. -/
theorem quota_holds (as : List Action)
    (hrun : Run.Each (service accounts).step (SubscriptionRead accounts) start as) :
    WithinQuota accounts ((service accounts).run start as).store
      ∧ ∀ k o userID pc,
        ((service accounts).run start as).calls[k]? = some (.createVault userID pc) →
        (execCreate accounts ((service accounts).run start as).store k userID pc o).2
            = .rollback .errVaultLimitReached →
        o = .error ∨ AtLimit ((service accounts).run start as).store userID (accounts.tier userID)
          ∨ pc.lookupFailed = true
            ∧ AtLimit ((service accounts).run start as).store userID .free := by
  have hstart : QuotaOk accounts start := by
    refine ⟨tablesOk_start, ?_, ?_⟩
    · intro userID hlimit
      exact hlimit
    · intro k c hc
      simp [start] at hc
  have h : QuotaOk accounts ((service accounts).run start as) := by
    refine Calls.Service.preserves ?_ ?_ hrun hstart
    · intro st req hst _
      exact hst.world req
    · intro st k c o hst hok hk
      exact hst.exec hk hok
  refine ⟨h.within, ?_⟩
  intro k o userID pc hk hrefused
  exact refused_at_limit (h.calls k _ hk) (h.tables.own hk) hrefused

/-- A vault of a free account, and a second call up to its count. -/
def sampleSecond : List Action :=
  sampleCall 0 (.createVault "a") 8 ++ sampleCall 1 (.createVault "a") 4

theorem quota_holds_sample :
    WithinQuota freeAccounts (sampleRun sampleSecond).store
      ∧ (Outcome.ok = .error
        ∨ AtLimit (sampleRun sampleSecond).store "a" (freeAccounts.tier "a")
        ∨ (CreatePc.count .free false).lookupFailed = true
          ∧ AtLimit (sampleRun sampleSecond).store "a" .free) :=
  ⟨(quota_holds sampleSecond (by decide +kernel)).1,
    (quota_holds sampleSecond (by decide +kernel)).2 1 .ok "a" (.count .free false)
      (by decide +kernel) (by decide +kernel)⟩

/-- A user with a subscription for a team. -/
def teamAccounts : Accounts := ⟨fun _ => [.team], fun _ => some .free⟩

/-- A user whose free subscription is active, and whose override is a team's. -/
def overriddenAccounts : Accounts := ⟨fun _ => [.free], fun _ => some .team⟩

/-- The count of the first vault fails. -/
def sampleCountFails : List Action := sampleCall 0 (.createVault "a") 4 ++ [.exec 0 .error]

/-- A vault, and a second call whose two queries for the tier fail. -/
def sampleLookupsFail : List Action :=
  List.flatten
    [sampleCall 0 (.createVault "a") 7, [.world (.createVault "a"), .exec 1 .error, .exec 1 .error],
     List.replicate 3 (.exec 1 .ok)]

/-- A vault, and a second call whose query of the subscription fails. -/
def sampleOverridden : List Action :=
  List.flatten
    [sampleCall 0 (.createVault "a") 7, [.world (.createVault "a"), .exec 1 .error],
     List.replicate 7 (.exec 1 .ok)]

/-- **A call is refused for quota below the limit** when its count fails, and
when its tier cannot be queried; and a user may come to be above the limit
when only the query of the subscription fails. -/
theorem refused_below_limit :
    ((sampleRun sampleCountFails).calls[0]?
          = some (.createVault "a" (.rollback .errVaultLimitReached))
        ∧ ((sampleRun sampleCountFails).store.liveVaults "a" : Int)
          < maxVaults (freeAccounts.tier "a"))
      ∧ (((service teamAccounts).run start sampleLookupsFail).calls[1]?
          = some (.createVault "a" (.rollback .errVaultLimitReached))
        ∧ (((service teamAccounts).run start sampleLookupsFail).store.liveVaults "a" : Int)
          < maxVaults (teamAccounts.tier "a"))
      ∧ (((service overriddenAccounts).run start sampleOverridden).store.liveVaults "a" : Int)
          > maxVaults (overriddenAccounts.tier "a") := by
  decide +kernel

end UsbVault.Members
