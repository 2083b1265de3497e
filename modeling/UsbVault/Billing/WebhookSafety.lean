import UsbVault.Billing.Webhooks

/-!
# Exactly once, and cancelled for good

An event is recorded before its handler runs, and a redelivery of a recorded
event does nothing. So an event is applied exactly once where every handler
that is entered comes to its end, and no record is made whose answer is lost.
A cancelled subscription stays so where no late event finds it in its way to
active (`webhooks_safe`).
-/

namespace UsbVault.Billing

open Members Tables

/-! ## The properties -/

/-- Events with an identifier are applied at most once; a recorded one has been
applied, or its handler is running. -/
structure ExactlyOnce (s : State) : Prop where
  once : ∀ id, id ≠ "" → s.store.applied id ≤ 1
  kept : ∀ id, id ≠ "" → s.store.processed id ≠ none →
    s.store.applied id = 1
      ∨ ∃ (k : Nat) (d : Delivery), s.calls[k]? = some d ∧ d.id = id ∧ d.pc.Handling

/-- The events that may come late. -/
def Handler.Late : Handler → Prop
  | .subscriptionUpdated => True
  | .paymentSucceeded => True
  | .paymentFailed => True
  | _ => False

/-- A row of a cancelled subscription has become active. -/
def Reactivated (cancelled : List SubID) (db db' : Database) : Prop :=
  ∃ (i : Nat) (row row' : SubscriptionRow) (subID : SubID), db.subscriptions[i]? = some row ∧ db'.subscriptions[i]? = some row'
    ∧ row.stripeSubscriptionID = some subID ∧ subID ∈ cancelled
    ∧ row.status ≠ .active ∧ row'.status = .active

variable (prices : List (Tier × String)) (events : EventID → StripeEvent)

/-- An `updated` or payment event makes a cancelled subscription active. -/
def Revives (s : State) (a : Action) : Prop :=
  ∃ (k : Nat) (o : Outcome) (d : Delivery) (t : Target) (userID : UserID) (tier : Tier),
    a = .exec k o ∧ s.calls[k]? = some d ∧ d.pc = .updating t userID tier
    ∧ t.handler.Late
    ∧ Reactivated s.store.cancelled s.store.db ((webhooks prices events).step s a).store.db

def Good (s : State) (a : Action) : Prop :=
  ExactlyOnce ((webhooks prices events).step s a) ∧ ¬Revives prices events s a

/-! ## The condition -/

/-- The database accepts the handler's update. -/
def Accepted (db : Database) (t : Target) (userID : UserID) : Prop :=
  match t.handler with
  | .subscriptionCreated =>
    (parseStatus t.object.status).isSome
      ∧ ∀ row ∈ db.subscriptions, row.stripeSubscriptionID = some t.id → row.userID = userID
  | .subscriptionUpdated => (parseStatus t.object.status).isSome
  | _ => True

/-- The delivery does not leave its event recorded and its handler undone. -/
def Completes (s : Store) (d : Delivery) : Outcome → Prop
  | .stop => ¬d.pc.Handling
  | .statement e _ =>
    match d.pc with
    | .recording => s.processed d.id = none → e ≠ .unacknowledged
    | .lookup t => e = .done ∧ (s.db.userOf t.object.customer).isSome
    | .updating t userID tier =>
      Accepted s.db t userID ∧ if (propagated t tier).isSome then e = .done else e.Took
    | .propagating _ _ _ => e.Took
    | _ => True

/-- The update finds no cancelled subscription that it would make active. -/
def StaysCancelled (s : Store) (d : Delivery) : Outcome → Prop
  | .stop => True
  | .statement e _ =>
    match d.pc with
    | .updating t userID _ =>
      e.Took →
        match t.handler with
        | .subscriptionUpdated =>
          t.object.status = "active" → t.id ∈ s.cancelled →
            ∀ row ∈ s.db.subscriptions, row.stripeSubscriptionID = some t.id →
              row.status = .active
        | .paymentSucceeded =>
          ∀ row ∈ s.db.subscriptions, row.userID = userID → row.status = .pastDue →
            ∀ subID ∈ s.cancelled, row.stripeSubscriptionID ≠ some subID
        | _ => True
    | _ => True

def Undisturbed (s : State) : Action → Prop
  | .world _ => True
  | .exec k o =>
    ∀ d, s.calls[k]? = some d →
      (d.id ≠ "" → Completes s.store d o) ∧ StaysCancelled s.store d o

/-! ## What a statement does to the history -/

variable {prices : List (Tier × String)} {events : EventID → StripeEvent}
variable {s : State} {st : Store} {d d' : Delivery} {k : Nat} {o : Outcome} {t : Target}

theorem update_isSome_iff (db : Database) (t : Target) (userID : UserID) (tier : Tier) (now : ℤ) :
    (db.update t userID tier now).isSome ↔ Accepted db t userID := by
  unfold Database.update Accepted
  cases hhandler : t.handler with
  | subscriptionCreated =>
    cases hstatus : parseStatus t.object.status with
    | none => simp
    | some status =>
      simp only [Option.bind_eq_bind, Option.bind_some, Option.isSome_some, true_and]
      split
      · next hrow =>
        obtain ⟨row, hrow, hsub, huser⟩ := hrow
        simp only [Option.isSome_none, Bool.false_eq_true, false_iff]
        intro hall
        exact huser (hall row hrow hsub)
      · next hrow =>
        simp only [Option.isSome_some, true_iff]
        intro row hmem hsub
        by_contra huser
        exact hrow ⟨row, hmem, hsub, huser⟩
  | subscriptionUpdated =>
    cases hstatus : parseStatus t.object.status <;> simp
  | subscriptionDeleted => simp
  | paymentSucceeded => simp
  | paymentFailed => simp

/-- The history after a statement of delivery `k`; `C` is its condition. -/
inductive Move (k : Nat) (st : Store) (d : Delivery) (C : Prop) (r : Store × Delivery) : Prop where
  | quiet (hC : C) (hprocessed : r.1.processed = st.processed) (happlied : r.1.applied = st.applied)
      (hhandling : r.2.pc.Handling ↔ d.pc.Handling)
  | enters (hC : C) (hbefore : ¬d.pc.Handling) (hnew : st.processed d.id = none)
      (hprocessed : r.1.processed = Function.update st.processed d.id (some k))
      (happlied : r.1.applied = st.applied) (hhandling : r.2.pc.Handling)
  | entersDone (hC : C) (hbefore : ¬d.pc.Handling) (hnew : st.processed d.id = none)
      (hprocessed : r.1.processed = Function.update st.processed d.id (some k))
      (happlied : r.1.applied = Function.update st.applied d.id (st.applied d.id + 1))
      (hhandling : ¬r.2.pc.Handling)
  | applies (hC : C) (hbefore : d.pc.Handling) (hprocessed : r.1.processed = st.processed)
      (happlied : r.1.applied = Function.update st.applied d.id (st.applied d.id + 1))
      (hhandling : ¬r.2.pc.Handling)
  | recordLost (hC : ¬C) (hbefore : ¬d.pc.Handling) (hnew : st.processed d.id = none)
      (hprocessed : r.1.processed = Function.update st.processed d.id (some k))
      (happlied : r.1.applied = st.applied) (hhandling : ¬r.2.pc.Handling)
  | givesUp (hC : ¬C) (hbefore : d.pc.Handling) (hprocessed : r.1.processed = st.processed)
      (happlied : r.1.applied = st.applied) (hhandling : ¬r.2.pc.Handling)

theorem afterLookup_handling (t : Target) (userID : UserID) : (afterLookup t userID).Handling := by
  unfold afterLookup
  split <;> trivial

theorem enter_handling {event : StripeEvent} {pc : Pc} (h : enter event = .goesOn pc) :
    pc.Handling := by
  unfold enter at h
  split at h
  · cases h
    trivial
  · cases h

/-- A handler that has been entered either runs, or has done its work. -/
theorem enter_ne_gaveUp (event : StripeEvent) : enter event ≠ .gaveUp := by
  unfold enter
  split <;> simp

theorem move_record (h : d.pc = .recording) (e : Execution) (now : ℤ) :
    Move k st d (Completes st d (.statement e now)) (record events k st d.id e) := by
  have hbefore : ¬d.pc.Handling := by rw [h]; exact fun hfalse => hfalse
  have hcond : Completes st d (.statement e now)
      ↔ (st.processed d.id = none → e ≠ .unacknowledged) := by
    simp only [Completes, h]
  rw [hcond]
  unfold record
  cases hnew : st.processed d.id with
  | some j =>
    cases e with
    | done => exact .quiet (by simp) rfl rfl (by simpa [Pc.Handling] using hbefore)
    | failed => exact .quiet (by simp) rfl rfl (by simpa [Pc.Handling] using hbefore)
    | unacknowledged => exact .quiet (by simp) rfl rfl (by simpa [Pc.Handling] using hbefore)
  | none =>
    cases e with
    | failed => exact .quiet (by simp) rfl rfl (by simpa [Pc.Handling] using hbefore)
    | unacknowledged => exact .recordLost (by simp) hbefore hnew rfl rfl (fun hfalse => hfalse)
    | done =>
      simp only
      cases henter : enter (events d.id) with
      | goesOn pc => exact .enters (by simp) hbefore hnew rfl rfl (enter_handling henter)
      | applied => exact .entersDone (by simp) hbefore hnew rfl rfl (fun hfalse => hfalse)
      | gaveUp => exact absurd henter (enter_ne_gaveUp _)

theorem move_goesOn {C : Prop} {st' : Store} {pc : Pc} (hC : C) (hbefore : d.pc.Handling)
    (hprocessed : st'.processed = st.processed) (happlied : st'.applied = st.applied)
    (hpc : pc.Handling) : Move k st d C (conclude st' d.id (.goesOn pc)) :=
  .quiet hC hprocessed happlied ⟨fun _ => hbefore, fun _ => hpc⟩

theorem move_gaveUp {C : Prop} {st' : Store} (hC : ¬C) (hbefore : d.pc.Handling)
    (hprocessed : st'.processed = st.processed) (happlied : st'.applied = st.applied) :
    Move k st d C (conclude st' d.id .gaveUp) :=
  .givesUp hC hbefore hprocessed happlied (fun hfalse => hfalse)

theorem move_applied {C : Prop} {st' : Store} (hC : C) (hbefore : d.pc.Handling)
    (hprocessed : st'.processed = st.processed) (happlied : st'.applied = st.applied) :
    Move k st d C (conclude st' d.id .applied) :=
  .applies hC hbefore hprocessed (by simp only [conclude, happlied]) (fun hfalse => hfalse)

theorem move_handle (h : d.pc.Handling) (e : Execution) (now : ℤ) :
    Move k st d (Completes st d (.statement e now))
      (conclude (handle prices st d.pc e now).1 d.id (handle prices st d.pc e now).2) := by
  obtain ⟨id, pc⟩ := d
  cases pc with
  | recording => exact absurd h (fun hfalse => hfalse)
  | responded status => exact absurd h (fun hfalse => hfalse)
  | stopped => exact absurd h (fun hfalse => hfalse)
  | lookup t =>
    simp only [handle, Completes]
    cases huser : st.db.userOf t.object.customer with
    | none => exact move_gaveUp (by simp) h rfl rfl
    | some userID =>
      by_cases hdone : e = .done
      · simp only [hdone, if_true]
        exact move_goesOn (by simp) h rfl rfl (afterLookup_handling t userID)
      · simp only [hdone, if_false]
        exact move_gaveUp (by simp) h rfl rfl
  | reading t userID =>
    simp only [handle, Completes]
    cases htier : st.db.tierOf t.id with
    | none => exact move_goesOn trivial h rfl rfl trivial
    | some tier =>
      simp only
      split
      · exact move_goesOn trivial h rfl rfl trivial
      · exact move_goesOn trivial h rfl rfl trivial
  | readingCustomer t userID =>
    simp only [handle, Completes]
    exact move_goesOn trivial h rfl rfl trivial
  | propagating userID tier status =>
    simp only [handle, Completes]
    by_cases htook : e.Took
    · simp only [htook, if_true]
      exact move_applied trivial h rfl rfl
    · simp only [htook, if_false]
      exact move_gaveUp (by simp) h rfl rfl
  | updating t userID tier =>
    simp only [handle, Completes]
    cases hupdate : st.db.update t userID tier now with
    | none =>
      refine move_gaveUp ?_ h rfl rfl
      rw [← update_isSome_iff st.db t userID tier now, hupdate]
      simp
    | some db =>
      have haccepted : Accepted st.db t userID :=
        (update_isSome_iff st.db t userID tier now).mp (by rw [hupdate]; rfl)
      by_cases htook : e.Took
      · simp only [htook, if_true, haccepted, true_and, afterUpdate]
        cases hprop : propagated t tier with
        | none => exact move_applied (by simp) h rfl rfl
        | some next =>
          by_cases hdone : e = .done
          · simp only [hdone, if_true]
            exact move_goesOn (by simp) h rfl rfl trivial
          · simp only [hdone, if_false]
            exact move_gaveUp (by simp) h rfl rfl
      · simp only [htook, if_false, haccepted, true_and]
        refine move_gaveUp ?_ h rfl rfl
        split
        · intro hdone
          exact htook (by rw [hdone]; simp)
        · exact fun hfalse => hfalse

/-- **What one statement of a delivery does** to the history. -/
theorem move_exec (prices : List (Tier × String)) (events : EventID → StripeEvent) (k : Nat)
    (st : Store) (d : Delivery) (o : Outcome) :
    Move k st d (Completes st d o) (exec prices events k st d o) := by
  by_cases hhandling : d.pc.Handling
  · cases o with
    | stop =>
      have hexec : exec prices events k st d .stop = (st, ⟨d.id, .stopped⟩) := by
        obtain ⟨id, pc⟩ := d
        cases pc <;> first | rfl | exact absurd hhandling (fun hfalse => hfalse)
      rw [hexec]
      exact .givesUp (fun hstop => hstop hhandling) hhandling rfl rfl (fun hfalse => hfalse)
    | statement e now =>
      have hexec : exec prices events k st d (.statement e now)
          = conclude (handle prices st d.pc e now).1 d.id (handle prices st d.pc e now).2 := by
        obtain ⟨id, pc⟩ := d
        cases pc <;> first | rfl | exact absurd hhandling (fun hfalse => hfalse)
      rw [hexec]
      exact move_handle hhandling e now
  · obtain ⟨id, pc⟩ := d
    cases pc with
    | recording =>
      cases o with
      | stop => exact .quiet hhandling rfl rfl ⟨fun h => h, fun h => h⟩
      | statement e now => exact move_record rfl e now
    | responded status =>
      cases o with
      | stop => exact .quiet hhandling rfl rfl Iff.rfl
      | statement e now => exact .quiet trivial rfl rfl Iff.rfl
    | stopped =>
      cases o with
      | stop => exact .quiet hhandling rfl rfl Iff.rfl
      | statement e now => exact .quiet trivial rfl rfl Iff.rfl
    | _ => exact absurd trivial hhandling

theorem conclude_id (st : Store) (id : EventID) (v : Verdict) : (conclude st id v).2.id = id := by
  cases v <;> rfl

theorem exec_id (prices : List (Tier × String)) (events : EventID → StripeEvent) (k : Nat)
    (st : Store) (d : Delivery) (o : Outcome) : (exec prices events k st d o).2.id = d.id := by
  obtain ⟨id, pc⟩ := d
  cases o with
  | stop => cases pc <;> rfl
  | statement e now =>
    cases pc with
    | responded status => rfl
    | stopped => rfl
    | recording =>
      show (record events k st id e).2.id = id
      unfold record
      split
      · rfl
      · rfl
      · rfl
      · rfl
      · exact conclude_id _ _ _
    | _ => exact conclude_id _ _ _

/-! ## Exactly once -/

/-- What is recorded, and by whom. -/
structure Tracked (s : State) : Prop where
  exact_ : ExactlyOnce s
  unrecorded : ∀ id, id ≠ "" → s.store.processed id = none → s.store.applied id = 0
  running : ∀ (k : Nat) (d : Delivery), s.calls[k]? = some d → d.id ≠ "" → d.pc.Handling →
    s.store.processed d.id = some k ∧ s.store.applied d.id = 0

theorem Tracked.start (db : Database) : Tracked (start db) where
  exact_ := ⟨fun _ _ => Nat.zero_le 1, fun _ _ h => absurd rfl h⟩
  unrecorded _ _ _ := rfl
  running k d hk := by simp [Billing.start] at hk

/-- The state after a statement of delivery `k`. -/
structure Next (s : State) (k : Nat) (d' : Delivery) (next : State) : Prop where
  self : next.calls[k]? = some d'
  others : ∀ j, j ≠ k → next.calls[j]? = s.calls[j]?

theorem Next.running {next : State} (h : Next s k d' next) (hd' : ¬d'.pc.Handling) {j : Nat}
    {p : Delivery} (hj : next.calls[j]? = some p) (hp : p.pc.Handling) :
    j ≠ k ∧ s.calls[j]? = some p := by
  have hne : j ≠ k := by
    intro heq
    rw [heq, h.self] at hj
    obtain rfl := Option.some.inj hj
    exact hd' hp
  exact ⟨hne, by rw [← h.others j hne, hj]⟩

theorem Next.still {next : State} (h : Next s k d' next) (hk : s.calls[k]? = some d) {id : EventID}
    (hid : id ≠ d.id)
    (hrun : ∃ (j : Nat) (p : Delivery), s.calls[j]? = some p ∧ p.id = id ∧ p.pc.Handling) :
    ∃ (j : Nat) (p : Delivery), next.calls[j]? = some p ∧ p.id = id ∧ p.pc.Handling := by
  obtain ⟨j, p, hj, hp, hhandling⟩ := hrun
  have hne : j ≠ k := by
    rintro rfl
    rw [hk] at hj
    obtain rfl := Option.some.inj hj
    exact hid hp.symm
  exact ⟨j, p, by rw [h.others j hne, hj], hp, hhandling⟩

/-- No other delivery handles the event of a running handler, nor an event that
is not recorded. -/
theorem Tracked.alone (h : Tracked s) (hk : s.calls[k]? = some d)
    (hd : d.pc.Handling ∨ s.store.processed d.id = none) (hne : d.id ≠ "") :
    ∀ (j : Nat) (p : Delivery), j ≠ k → s.calls[j]? = some p → p.id = d.id → ¬p.pc.Handling := by
  intro j p hjk hj hid hhandling
  have hrecorded := (h.running j p hj (hid ▸ hne) hhandling).1
  rw [hid] at hrecorded
  rcases hd with hd | hd
  · rw [(h.running k d hk hne hd).1] at hrecorded
    exact hjk (Option.some.inj hrecorded).symm
  · rw [hd] at hrecorded
    cases hrecorded

theorem Move.others {C : Prop} {r : Store × Delivery} (h : Move k st d C r) {id : EventID}
    (hid : id ≠ d.id) : r.1.processed id = st.processed id ∧ r.1.applied id = st.applied id := by
  cases h with
  | quiet _ hprocessed happlied _ => rw [hprocessed, happlied]; exact ⟨rfl, rfl⟩
  | enters _ _ _ hprocessed happlied _ =>
    rw [hprocessed, happlied, Function.update_of_ne hid]
    exact ⟨rfl, rfl⟩
  | entersDone _ _ _ hprocessed happlied _ =>
    rw [hprocessed, happlied, Function.update_of_ne hid, Function.update_of_ne hid]
    exact ⟨rfl, rfl⟩
  | applies _ _ hprocessed happlied _ =>
    rw [hprocessed, happlied, Function.update_of_ne hid]
    exact ⟨rfl, rfl⟩
  | recordLost _ _ _ hprocessed happlied _ =>
    rw [hprocessed, happlied, Function.update_of_ne hid]
    exact ⟨rfl, rfl⟩
  | givesUp _ _ hprocessed happlied _ => rw [hprocessed, happlied]; exact ⟨rfl, rfl⟩

/-- The history of the delivery's own event: as it was; or the delivery is alone
with the event, and goes on or has applied it; or it has given it up. -/
theorem Tracked.own {C : Prop} {r : Store × Delivery} (h : Tracked s) (hk : s.calls[k]? = some d)
    (hmove : Move k s.store d C r) (hne : d.id ≠ "") :
    (C ∧ r.1.processed d.id = s.store.processed d.id ∧ r.1.applied d.id = s.store.applied d.id
        ∧ (r.2.pc.Handling ↔ d.pc.Handling))
      ∨ (C ∧ (d.pc.Handling ∨ s.store.processed d.id = none) ∧ r.1.processed d.id = some k
        ∧ (r.2.pc.Handling ∧ r.1.applied d.id = 0 ∨ ¬r.2.pc.Handling ∧ r.1.applied d.id = 1))
      ∨ ¬C ∧ (d.pc.Handling ∨ s.store.processed d.id = none) ∧ r.1.processed d.id = some k
        ∧ ¬r.2.pc.Handling ∧ r.1.applied d.id = 0 := by
  cases hmove with
  | quiet hC hprocessed happlied hhandling =>
    rw [hprocessed, happlied]
    exact .inl ⟨hC, rfl, rfl, hhandling⟩
  | enters hC _ hnew hprocessed happlied hhandling =>
    rw [hprocessed, happlied, Function.update_self, h.unrecorded d.id hne hnew]
    exact .inr (.inl ⟨hC, .inr hnew, rfl, .inl ⟨hhandling, rfl⟩⟩)
  | entersDone hC _ hnew hprocessed happlied hhandling =>
    rw [hprocessed, happlied, Function.update_self, Function.update_self,
      h.unrecorded d.id hne hnew]
    exact .inr (.inl ⟨hC, .inr hnew, rfl, .inr ⟨hhandling, rfl⟩⟩)
  | applies hC hbefore hprocessed happlied hhandling =>
    obtain ⟨hrecorded, hzero⟩ := h.running k d hk hne hbefore
    rw [hprocessed, happlied, Function.update_self, hzero]
    exact .inr (.inl ⟨hC, .inl hbefore, hrecorded, .inr ⟨hhandling, rfl⟩⟩)
  | recordLost hC _ hnew hprocessed happlied hhandling =>
    rw [hprocessed, happlied, Function.update_self, h.unrecorded d.id hne hnew]
    exact .inr (.inr ⟨hC, .inr hnew, rfl, hhandling, rfl⟩)
  | givesUp hC hbefore hprocessed happlied hhandling =>
    obtain ⟨hrecorded, hzero⟩ := h.running k d hk hne hbefore
    rw [hprocessed, happlied, hzero]
    exact .inr (.inr ⟨hC, .inl hbefore, hrecorded, hhandling, rfl⟩)

section

variable {C : Prop} {next : State} (h : Tracked s) (hk : s.calls[k]? = some d)
  (hnext : Next s k d' next) (hid : d'.id = d.id) (hmove : Move k s.store d C (next.store, d'))
include h hk hnext hid hmove

omit hnext hid in
theorem Tracked.unrecorded_next (id : EventID) (hne : id ≠ "")
    (hnone : next.store.processed id = none) : next.store.applied id = 0 := by
  by_cases heq : id = d.id
  · subst heq
    rcases h.own hk hmove hne with ⟨-, hp, ha, -⟩ | ⟨-, -, hp, -⟩ | ⟨-, -, hp, -, -⟩
    · rw [show next.store.applied d.id = _ from ha]
      exact h.unrecorded d.id hne (hp.symm.trans hnone)
    · exact absurd (hp.symm.trans hnone) (by simp)
    · exact absurd (hp.symm.trans hnone) (by simp)
  · obtain ⟨hp, ha⟩ := hmove.others heq
    rw [show next.store.applied id = _ from ha]
    exact h.unrecorded id hne (hp.symm.trans hnone)

theorem Tracked.running_next (j : Nat) (p : Delivery) (hj : next.calls[j]? = some p)
    (hne : p.id ≠ "") (hp : p.pc.Handling) :
    next.store.processed p.id = some j ∧ next.store.applied p.id = 0 := by
  by_cases hjk : j = k
  · subst hjk
    rw [hnext.self] at hj
    obtain rfl := Option.some.inj hj
    rw [hid] at hne ⊢
    rcases h.own hk hmove hne with ⟨-, hpr, ha, hsame⟩ | ⟨-, -, hpr, hown⟩ | ⟨-, -, -, hnot, -⟩
    · rw [show next.store.applied d.id = _ from ha, show next.store.processed d.id = _ from hpr]
      exact h.running j d hk hne (hsame.mp hp)
    · rcases hown with ⟨-, hzero⟩ | ⟨hnot, -⟩
      · exact ⟨hpr, hzero⟩
      · exact absurd hp hnot
    · exact absurd hp hnot
  · rw [hnext.others j hjk] at hj
    by_cases heq : p.id = d.id
    · have hned : d.id ≠ "" := heq ▸ hne
      rcases h.own hk hmove hned with ⟨-, hpr, ha, -⟩ | ⟨-, halone, -, -⟩ | ⟨-, halone, -, -, -⟩
      · rw [heq, show next.store.applied d.id = _ from ha,
          show next.store.processed d.id = _ from hpr, ← heq]
        exact h.running j p hj hne hp
      · exact absurd hp (h.alone hk halone hned j p hjk hj heq)
      · exact absurd hp (h.alone hk halone hned j p hjk hj heq)
    · obtain ⟨hpr, ha⟩ := hmove.others heq
      rw [show next.store.applied p.id = _ from ha, show next.store.processed p.id = _ from hpr]
      exact h.running j p hj hne hp

omit hid in
theorem Tracked.once_other {id : EventID} (hne : id ≠ "") (heq : id ≠ d.id) :
    next.store.applied id ≤ 1 ∧ (next.store.processed id ≠ none →
      next.store.applied id = 1
        ∨ ∃ (j : Nat) (p : Delivery), next.calls[j]? = some p ∧ p.id = id ∧ p.pc.Handling) := by
  obtain ⟨hpr, ha⟩ := hmove.others heq
  rw [show next.store.applied id = _ from ha, show next.store.processed id = _ from hpr]
  exact ⟨h.exact_.once id hne,
    fun hrec => (h.exact_.kept id hne hrec).imp_right (hnext.still hk heq)⟩

/-- **Exactly once after a statement**, just when it meets its condition. -/
theorem Tracked.exactlyOnce_iff : ExactlyOnce next ↔ (d.id ≠ "" → C) := by
  constructor
  · intro hexact hne
    rcases h.own hk hmove hne with ⟨hC, -⟩ | ⟨hC, -⟩ | ⟨-, halone, hpr, hnot, hzero⟩
    · exact hC
    · exact hC
    · -- recorded, not applied, and nobody handles it
      rcases hexact.kept d.id hne (by rw [show next.store.processed d.id = _ from hpr]; simp) with
        hone | ⟨j, p, hj, hp, hhandling⟩
      · rw [show next.store.applied d.id = _ from hzero] at hone
        cases hone
      · obtain ⟨hjk, hj⟩ := hnext.running hnot hj hhandling
        exact absurd hhandling (h.alone hk halone hne j p hjk hj hp)
  · intro hC
    have hown : ∀ id, id ≠ "" → id = d.id → next.store.applied id ≤ 1 ∧
        (next.store.processed id ≠ none → next.store.applied id = 1
          ∨ ∃ (j : Nat) (p : Delivery), next.calls[j]? = some p ∧ p.id = id ∧ p.pc.Handling) := by
      rintro _ hne rfl
      rcases h.own hk hmove hne with ⟨-, hpr, ha, hsame⟩ | ⟨-, -, -, hown⟩ | ⟨hnotC, -⟩
      · rw [show next.store.applied d.id = _ from ha, show next.store.processed d.id = _ from hpr]
        refine ⟨h.exact_.once d.id hne, ?_⟩
        intro hrec
        rcases h.exact_.kept d.id hne hrec with hone | ⟨j, p, hj, hp, hhandling⟩
        · exact .inl hone
        · right
          by_cases hjk : j = k
          · subst hjk
            rw [hk] at hj
            obtain rfl := Option.some.inj hj
            exact ⟨j, d', hnext.self, hid, hsame.mpr hhandling⟩
          · exact ⟨j, p, by rw [hnext.others j hjk, hj], hp, hhandling⟩
      · rcases hown with ⟨hhandling, hzero⟩ | ⟨-, hone⟩
        · exact ⟨by rw [show next.store.applied d.id = _ from hzero]; exact Nat.zero_le 1,
            fun _ => .inr ⟨k, d', hnext.self, hid, hhandling⟩⟩
        · exact ⟨by rw [show next.store.applied d.id = _ from hone], fun _ => .inl hone⟩
      · exact absurd (hC hne) hnotC
    constructor
    · intro id hne
      by_cases heq : id = d.id
      · exact (hown id hne heq).1
      · exact (h.once_other hk hnext hmove hne heq).1
    · intro id hne
      by_cases heq : id = d.id
      · exact (hown id hne heq).2
      · exact (h.once_other hk hnext hmove hne heq).2

end

/-- The arrival of a delivery leaves the history of the events with an
identifier alone. -/
theorem deliver_history (id : EventID) {id' : EventID} (hne : id' ≠ "") :
    (world events st (.deliver id)).1.processed id' = st.processed id'
      ∧ (world events st (.deliver id)).1.applied id' = st.applied id' := by
  unfold world
  by_cases hid : id = ""
  · simp only [hid, if_true]
    cases enter (events "") with
    | goesOn pc => exact ⟨rfl, rfl⟩
    | gaveUp => exact ⟨rfl, rfl⟩
    | applied => exact ⟨rfl, Function.update_of_ne hne _ _⟩
  · simp only [hid, if_false, and_self]

theorem deliver_call {id : EventID} (h : (world events st (.deliver id)).2 = some d)
    (hne : d.id ≠ "") : ¬d.pc.Handling := by
  unfold world at h
  by_cases hid : id = ""
  · simp only [hid, if_true, Option.some.injEq] at h
    subst h
    exact absurd (conclude_id _ _ _) hne
  · simp only [hid, if_false, Option.some.injEq] at h
    subst h
    exact fun hfalse => hfalse

/-- **The world** keeps the records. -/
theorem Tracked.step_world (h : Tracked s) (e : Event) :
    Tracked ((webhooks prices events).step s (.world e)) := by
  have hstore : ∀ id, id ≠ "" →
      ((webhooks prices events).step s (.world e)).store.processed id = s.store.processed id
        ∧ ((webhooks prices events).step s (.world e)).store.applied id = s.store.applied id := by
    intro id hne
    cases e with
    | rest db => exact ⟨rfl, rfl⟩
    | deliver id' => exact deliver_history id' hne
  refine ⟨⟨?_, ?_⟩, ?_, ?_⟩
  · intro id hne
    rw [(hstore id hne).2]
    exact h.exact_.once id hne
  · intro id hne hrec
    rw [(hstore id hne).1] at hrec
    rw [(hstore id hne).2]
    refine (h.exact_.kept id hne hrec).imp_right ?_
    rintro ⟨k, d, hk, hd⟩
    exact ⟨k, d, Calls.Service.step_world_of hk e, hd⟩
  · intro id hne hnone
    rw [(hstore id hne).2]
    exact h.unrecorded id hne ((hstore id hne).1.symm.trans hnone)
  · intro k d hk hne hd
    rcases Calls.Service.of_step_world hk with hbefore | ⟨-, hnew⟩
    · rw [(hstore d.id hne).1, (hstore d.id hne).2]
      exact h.running k d hbefore hne hd
    · cases e with
      | rest db => cases hnew
      | deliver id => exact absurd hd (deliver_call hnew hne)

theorem next_exec (prices : List (Tier × String)) (events : EventID → StripeEvent)
    (hk : s.calls[k]? = some d) (o : Outcome) :
    Next s k (exec prices events k s.store d o).2
      ((webhooks prices events).step s (.exec k o)) where
  self := Calls.Service.step_exec_self hk o
  others _ hj := Calls.Service.step_exec_ne hj o

theorem move_step (hk : s.calls[k]? = some d) (o : Outcome) :
    Move k s.store d (Completes s.store d o)
      (((webhooks prices events).step s (.exec k o)).store,
        (exec prices events k s.store d o).2) := by
  rw [Calls.Service.step_exec_store hk]
  exact move_exec prices events k s.store d o

theorem Tracked.step_exec (h : Tracked s) (hk : s.calls[k]? = some d) (o : Outcome)
    (hexact : ExactlyOnce ((webhooks prices events).step s (.exec k o))) :
    Tracked ((webhooks prices events).step s (.exec k o)) where
  exact_ := hexact
  unrecorded := h.unrecorded_next hk (move_step hk o)
  running := h.running_next hk (next_exec prices events hk o) (exec_id prices events k s.store d o)
    (move_step hk o)

/-! ## Cancelled for good -/

theorem reactivated_updateWhere {cancelled : List SubID} {db : Database}
    {where_ : SubscriptionRow → Prop} [DecidablePred where_] {set : SubscriptionRow → SubscriptionRow} :
    Reactivated cancelled db (db.updateWhere where_ set) ↔
      ∃ row ∈ db.subscriptions, ∃ subID ∈ cancelled, row.stripeSubscriptionID = some subID
        ∧ row.status ≠ .active ∧ where_ row ∧ (set row).status = .active := by
  unfold Reactivated Database.updateWhere
  simp only [List.getElem?_map]
  constructor
  · rintro ⟨i, row, row', subID, hrow, hrow', hsub, hmem, hbefore, hafter⟩
    rw [hrow, Option.map_some, Option.some.injEq] at hrow'
    subst hrow'
    split at hafter
    · next hwhere =>
      exact ⟨row, List.mem_of_getElem? hrow, subID, hmem, hsub, hbefore, hwhere, hafter⟩
    · exact absurd hafter hbefore
  · rintro ⟨row, hrow, subID, hmem, hsub, hbefore, hwhere, hafter⟩
    obtain ⟨i, hi⟩ := List.getElem?_of_mem hrow
    exact ⟨i, row, set row, subID, hi, by rw [hi, Option.map_some, if_pos hwhere], hsub, hmem,
      hbefore, hafter⟩

theorem not_reactivated (cancelled : List SubID) (db : Database) : ¬Reactivated cancelled db db := by
  rintro ⟨i, row, row', subID, hrow, hrow', -, -, hbefore, hafter⟩
  rw [hrow] at hrow'
  obtain rfl := Option.some.inj hrow'
  exact hbefore hafter

theorem parseStatus_active {text : String} : parseStatus text = some .active ↔ text = "active" := by
  unfold parseStatus
  split <;> simp_all

theorem late_update_iff (cancelled : List SubID) (db : Database) (t : Target) (userID : UserID)
    (tier : Tier) (now : ℤ) :
    (t.handler.Late → ¬Reactivated cancelled db ((db.update t userID tier now).getD db)) ↔
      match t.handler with
      | .subscriptionUpdated =>
        t.object.status = "active" → t.id ∈ cancelled →
          ∀ row ∈ db.subscriptions, row.stripeSubscriptionID = some t.id → row.status = .active
      | .paymentSucceeded =>
        ∀ row ∈ db.subscriptions, row.userID = userID → row.status = .pastDue →
          ∀ subID ∈ cancelled, row.stripeSubscriptionID ≠ some subID
      | _ => True := by
  cases hhandler : t.handler with
  | subscriptionCreated => simp [Handler.Late]
  | subscriptionDeleted => simp [Handler.Late]
  | subscriptionUpdated =>
    simp only [Database.update, hhandler, Handler.Late, true_implies]
    cases hstatus : parseStatus t.object.status with
    | none =>
      refine iff_of_true (not_reactivated _ _) ?_
      intro hactive
      rw [parseStatus_active.mpr hactive] at hstatus
      cases hstatus
    | some status =>
      simp only [Option.bind_eq_bind, Option.bind_some, Option.getD_some]
      rw [reactivated_updateWhere]
      constructor
      · intro hnone hactive hmem row hrow hsub
        by_contra hbefore
        rw [parseStatus_active.mpr hactive] at hstatus
        exact hnone ⟨row, hrow, t.id, hmem, hsub, hbefore, hsub, (Option.some.inj hstatus).symm⟩
      · rintro hkept ⟨row, hrow, subID, hmem, hsub, hbefore, hwhere, hafter⟩
        obtain rfl : status = .active := hafter
        rw [hwhere] at hsub
        obtain rfl := Option.some.inj hsub
        exact hbefore (hkept (parseStatus_active.mp hstatus) hmem row hrow hwhere)
  | paymentSucceeded =>
    simp only [Database.update, hhandler, Handler.Late, true_implies, Option.getD_some]
    rw [reactivated_updateWhere]
    constructor
    · intro hnone row hrow huser hpast subID hmem hsub
      exact hnone ⟨row, hrow, subID, hmem, hsub, by rw [hpast]; simp, ⟨huser, hpast⟩, rfl⟩
    · rintro hkept ⟨row, hrow, subID, hmem, hsub, -, ⟨huser, hpast⟩, -⟩
      exact hkept row hrow huser hpast subID hmem hsub
  | paymentFailed =>
    simp only [Database.update, hhandler, Handler.Late, true_implies, Option.getD_some]
    rw [reactivated_updateWhere]
    simp

theorem exec_updating {userID : UserID} {tier : Tier} (h : d.pc = .updating t userID tier)
    (e : Execution) (now : ℤ) :
    (exec prices events k st d (.statement e now)).1.db =
      if e.Took then (st.db.update t userID tier now).getD st.db else st.db := by
  have hconclude : ∀ (st : Store) (id : EventID) (v : Verdict),
      (conclude st id v).1.db = st.db := by
    intro st id v
    cases v <;> rfl
  simp only [exec, h, hconclude, handle]
  cases st.db.update t userID tier now with
  | none => simp
  | some db => by_cases htook : e.Took <;> simp [htook]

/-- **A statement revives no subscription** just when it meets its condition. -/
theorem not_revives_iff (hk : s.calls[k]? = some d) (o : Outcome) :
    ¬Revives prices events s (.exec k o) ↔ StaysCancelled s.store d o := by
  have hiff : ¬Revives prices events s (.exec k o) ↔
      ∀ t userID tier, d.pc = .updating t userID tier → t.handler.Late →
        ¬Reactivated s.store.cancelled s.store.db (exec prices events k s.store d o).1.db := by
    constructor
    · intro h t userID tier hpc hlate hre
      refine h ⟨k, o, d, t, userID, tier, rfl, hk, hpc, hlate, ?_⟩
      rw [Calls.Service.step_exec_store hk]
      exact hre
    · rintro h ⟨k', o', d', t, userID, tier, heq, hk', hpc, hlate, hre⟩
      cases heq
      rw [hk] at hk'
      obtain rfl := Option.some.inj hk'
      rw [Calls.Service.step_exec_store hk] at hre
      exact h t userID tier hpc hlate hre
  rw [hiff]
  cases o with
  | stop =>
    simp only [StaysCancelled, iff_true]
    intro t userID tier hpc _
    simp only [exec, hpc]
    exact not_reactivated _ _
  | statement e now =>
    cases hpc : d.pc with
    | updating t userID tier =>
      simp only [StaysCancelled, hpc, Pc.updating.injEq, exec_updating hpc]
      by_cases htook : e.Took
      · simp only [htook, if_true, true_implies]
        rw [← late_update_iff s.store.cancelled s.store.db t userID tier now]
        constructor
        · intro h
          exact h t userID tier ⟨rfl, rfl, rfl⟩
        · rintro h _ _ _ ⟨rfl, rfl, rfl⟩
          exact h
      · simp only [htook, if_false, false_implies, iff_true]
        intro _ _ _ _ _
        exact not_reactivated _ _
    | _ => simp [StaysCancelled, hpc]

/-! ## Runs -/

/-- **The exact condition for one action.** -/
theorem Tracked.good_iff (h : Tracked s) (a : Action) :
    Good prices events s a ↔ Undisturbed s a := by
  cases a with
  | world e =>
    refine iff_of_true ⟨(h.step_world e).exact_, ?_⟩ trivial
    rintro ⟨k, o, d, t, userID, tier, heq, -⟩
    cases heq
  | exec k o =>
    cases hk : s.calls[k]? with
    | none =>
      refine iff_of_true ⟨?_, ?_⟩ (fun d hd => by rw [hk] at hd; cases hd)
      · rw [Calls.Service.step_exec_none hk]
        exact h.exact_
      · rintro ⟨k', o', d, t, userID, tier, heq, hk', -⟩
        cases heq
        rw [hk] at hk'
        cases hk'
    | some d =>
      have honce := h.exactlyOnce_iff hk (next_exec prices events hk o)
        (exec_id prices events k s.store d o) (move_step hk o)
      rw [Good, honce, not_revives_iff hk o]
      simp only [Undisturbed, hk, Option.some.injEq, forall_eq']

/-- **Webhooks are exactly-once and cancellations final** in exactly the runs in
which every recorded event's handler comes to its end, and no late event finds
a cancelled subscription on its way to active. -/
theorem webhooks_safe (prices : List (Tier × String)) (events : EventID → StripeEvent)
    (db : Database) (actions : List Action) :
    Run.Each (webhooks prices events).step (Good prices events) (start db) actions
      ↔ Run.Each (webhooks prices events).step Undisturbed (start db) actions := by
  refine Run.Each.iff_each (fun s a (hs : Tracked s) => hs.good_iff a)
    (Calls.Service.keeps ?_ ?_) (Tracked.start db)
  · intro s e hs _
    exact hs.step_world e
  · intro s k d o hs hgood hk
    exact hs.step_exec hk o hgood.1

/-! ## A customer whose subscription ends -/

def adaRow : SubscriptionRow where
  userID := "ada"
  stripeCustomerID := some "cus_1"
  stripeSubscriptionID := some "sub_1"
  tier := .team
  status := .active
  currentPeriodEnd := 4891363200
  cancelledAt := none

def ada : Database := ⟨[adaRow], fun _ => some (some .team)⟩

/-- Her subscription's last update, with the status it had then, and its end. -/
def adaEvents (id : EventID) : StripeEvent where
  type := if id = "evt_2" then "customer.subscription.deleted" else "customer.subscription.updated"
  object := some
    { id := some "sub_1"
      customer := "cus_1"
      status := "active"
      metadataTier := none
      priceID := none
      currentPeriodEnd := 4891363200 }

def ok (k : Nat) : Action := .exec k (.statement .done 0)

/-- The end is recorded, and the lookup of the customer fails. -/
def lost : List Action :=
  [.world (.deliver "evt_2"), ok 0, .exec 0 (.statement .failed 0)]

/-- The update is delivered after the end. -/
def revived : List Action :=
  [.world (.deliver "evt_2"), ok 0, ok 0, ok 0, ok 0,
    .world (.deliver "evt_1"), ok 1, ok 1, ok 1, ok 1]

/-- One failure loses an event for good, and a late update makes a cancelled
subscription active. -/
theorem lost_and_revived :
    ¬Run.Each (webhooks [] adaEvents).step (Good [] adaEvents) (start ada) lost
      ∧ ¬Run.Each (webhooks [] adaEvents).step (Good [] adaEvents) (start ada) revived := by
  constructor
  · intro h
    obtain ⟨-, -, ⟨hexact, -⟩, -⟩ := h
    rcases hexact.kept "evt_2" (by decide) (by decide) with hone | ⟨k, d, hk, -, hd⟩
    · exact absurd hone (by decide)
    · match k with
      | 0 => cases hk; exact hd
      | k + 1 => cases hk
  · intro h
    have hgood := Run.Each.iff_splits.mp h (revived.take 9) (ok 1) [] rfl
    refine hgood.2 ⟨1, .statement .done 0, _, _, "ada", .team, rfl, rfl, rfl, trivial, ?_⟩
    exact ⟨0, _, _, "sub_1", rfl, rfl, rfl, by decide, by decide, rfl⟩

end UsbVault.Billing
