import UsbVault.Lib.Calls

/-!
# The tokens of the API client

`services/api.ts`: requests that carry the access token and answer a 401 with
a refresh, the refresh that they share (`refreshTokenInProgress`),
`storeTokens` of a login and `clearTokens`, all side by side, each at one of
its awaits. On the web the refresh token is a cookie of the browser; elsewhere
it is stored beside the access token.

Whatever the order, only one refresh is under way, and off the web none
presents a refresh token that has been rotated already (`Sound`).

The store does not fail, and a server that rotates a refresh token answers
with the next one. How often a request is sent again after a network error,
and the device fingerprint, are left out.
-/

namespace UsbVault.App.Tokens

open Calls

/-- Tokens by the call that obtains them; those of an earlier session. -/
inductive Token where
  | earlier
  | issued (call : Nat)
  deriving DecidableEq, Repr

/-- `access` and `refresh` are the secure store's, `settled` says of a refresh
that is over whether it succeeded. The rest is history: the refresh tokens the
server has rotated, whether `clearTokens` has deleted a token since a login
stored one, whether a refresh has presented a token rotated before, and
whether a 401 to a request with another token than the stored one has begun a
refresh. -/
structure Store where
  access : Option Token
  refresh : Option Token
  cookie : Option Token
  refreshTokenInProgress : Option Nat
  settled : List (Nat × Bool)
  consumed : List Token
  accessCleared : Bool
  refreshCleared : Bool
  reused : Bool
  repeated : Bool
  deriving DecidableEq, Repr

/-- A session begins with the tokens of an earlier one, or without. -/
def Store.start (access refresh cookie : Bool) : Store :=
  let earlier (there : Bool) : Option Token := if there then some .earlier else none
  ⟨earlier access, earlier refresh, earlier cookie, none, [], [], false, false, false, false⟩

/-- Where `refreshAccessToken` is; at the end in its `finally`. -/
inductive Phase where
  | fingerprint
  | reading
  | posted (token : Option Token)
  | answered
  | storingAccess
  | storingRefresh
  | deletingAccess
  | deletingRefresh
  | settling (ok : Bool)
  deriving DecidableEq, Repr

/-- Where a call is: a request, with the token of its header and
`_authRetry`, that of them which refreshes, and the others that await it;
`clearTokens`; `storeTokens` of a login. -/
inductive Call where
  | attaching (token : Option Token) (authRetry : Bool)
  | sent (token : Option Token) (authRetry : Bool)
  | refreshing (token : Option Token) (phase : Phase)
  | awaiting (token : Option Token) (refresh : Nat)
  | deletingAccess
  | deletingRefresh
  | loggingOut
  | clearingAccess
  | clearingRefresh
  | verified
  | storingAccess
  | storingRefresh
  | done
  deriving DecidableEq, Repr

/-- How what a call awaits ends. -/
inductive Outcome where
  | ok
  | unauthorized
  | network
  | failed
  deriving DecidableEq, Repr

/-- A call that comes in. -/
inductive Event where
  | request
  | clearTokens
  | login
  deriving DecidableEq, Repr

namespace Store

variable (st : Store)

/-- The stored access token is another than this one. -/
def replaced (token : Option Token) : Bool := st.access.any fun t => token ≠ some t

/-- A refresh request presents the token. -/
def present (token : Option Token) : Store :=
  { st with reused := st.reused || token.any fun t => t ∈ st.consumed }

end Store

/-- One step of `refreshAccessToken`. -/
def refreshAccessToken (web : Bool) (k : Nat) (st : Store) : Phase → Outcome → Store × Phase
  | .fingerprint, o =>
    if o ≠ .ok then (st, .deletingAccess)
    else if web then (st.present st.cookie, .posted st.cookie)
    else (st, .reading)
  | .reading, _ =>
    match st.refresh with
    | some t => (st.present (some t), .posted (some t))
    | none => (st, .deletingAccess)
  | .posted token, o =>
    match token with
    | some t =>
      if o = .ok ∧ t ∉ st.consumed then ({ st with consumed := t :: st.consumed }, .answered)
      else (st, .deletingAccess)
    | none => (st, .deletingAccess)
  | .answered, o =>
    -- the browser takes the cookie out of the response
    if o = .ok then
      ({ st with cookie := if web then some (.issued k) else st.cookie }, .storingAccess)
    else (st, .deletingAccess)
  | .storingAccess, _ =>
    ({ st with access := some (.issued k) }, if web then .settling true else .storingRefresh)
  | .storingRefresh, _ => ({ st with refresh := some (.issued k) }, .settling true)
  | .deletingAccess, _ => ({ st with access := none }, .deletingRefresh)
  | .deletingRefresh, _ => ({ st with refresh := none }, .settling false)
  | .settling ok, _ => (st, .settling ok)

/-- What follows the refresh: the request again, or the deletion of the tokens. -/
def afterRefresh (token : Option Token) (ok : Bool) : Call :=
  if ok then .attaching token true else .deletingAccess

def exec (web : Bool) (k : Nat) (st : Store) : Call → Outcome → Store × Call
  | .attaching token authRetry, _ => (st, .sent (st.access.or token) authRetry)
  | .sent token authRetry, o =>
    match o with
    | .network => (st, .attaching token authRetry)
    | .unauthorized =>
      if authRetry then (st, .done)
      else
        match st.refreshTokenInProgress with
        | some r => (st, .awaiting token r)
        | none =>
          ({ st with
              refreshTokenInProgress := some k
              repeated := st.repeated || st.replaced token },
            .refreshing token .fingerprint)
    | _ => (st, .done)
  | .refreshing token (.settling ok), _ =>
    ({ st with refreshTokenInProgress := none, settled := (k, ok) :: st.settled },
      afterRefresh token ok)
  | .refreshing token phase, o =>
    ((refreshAccessToken web k st phase o).1,
      .refreshing token (refreshAccessToken web k st phase o).2)
  | .awaiting token r, _ =>
    match st.settled.lookup r with
    | some ok => (st, afterRefresh token ok)
    | none => (st, .awaiting token r)
  | .deletingAccess, _ => ({ st with access := none }, .deletingRefresh)
  | .deletingRefresh, _ => ({ st with refresh := none }, .done)
  | .loggingOut, o => ({ st with cookie := if o = .ok then none else st.cookie }, .clearingAccess)
  | .clearingAccess, _ => ({ st with access := none, accessCleared := true }, .clearingRefresh)
  | .clearingRefresh, _ => ({ st with refresh := none, refreshCleared := true }, .done)
  | .verified, _ =>
    ({ st with cookie := if web then some (.issued k) else st.cookie }, .storingAccess)
  | .storingAccess, _ =>
    ({ st with access := some (.issued k), accessCleared := false },
      if web then .done else .storingRefresh)
  | .storingRefresh, _ =>
    ({ st with refresh := some (.issued k), refreshCleared := false }, .done)
  | .done, _ => (st, .done)

def arrive (web : Bool) : Event → Call
  | .request => .attaching none false
  | .clearTokens => if web then .loggingOut else .clearingAccess
  | .login => .verified

def client (web : Bool) : Service Store Call Event Outcome where
  world st event := (st, some (arrive web event))
  exec := exec web

abbrev State := Calls.State Store Call

def start (access refresh cookie : Bool) : State := ⟨.start access refresh cookie, []⟩

/-! ## What a step does -/

/-- The token that the refresh obtains is still to be stored. -/
def Phase.stores : Phase → Bool
  | .deletingAccess | .deletingRefresh | .settling _ => false
  | _ => true

/-- The call has a token of its own still to store. -/
def Call.stores : Call → Bool
  | .attaching _ authRetry | .sent _ authRetry => !authRetry
  | .refreshing _ phase => phase.stores
  | .verified | .storingAccess | .storingRefresh => true
  | _ => false

/-- The refresh token has been rotated, and the stored one is about to be
replaced or deleted. -/
def Phase.pending : Phase → Bool
  | .answered | .storingAccess | .storingRefresh | .deletingAccess | .deletingRefresh => true
  | _ => false

variable {web : Bool} {k : Nat} {st : Store} {p : Call} {o : Outcome} {phase : Phase}
  {header : Option Token} {t : Token}

/-- A refresh that is not at its end takes a step of `refreshAccessToken`. -/
theorem exec_refreshing (h : ∀ ok, phase ≠ .settling ok) :
    exec web k st (.refreshing header phase) o
      = ((refreshAccessToken web k st phase o).1,
        .refreshing header (refreshAccessToken web k st phase o).2) := by
  cases phase with
  | settling ok => exact absurd rfl (h ok)
  | _ => rfl

theorem stores_afterRefresh (ok : Bool) : (afterRefresh header ok).stores = false := by
  cases ok <;> rfl

theorem stores_exec (h : p.stores = false) : (exec web k st p o).2.stores = false := by
  cases p with
  | attaching header authRetry => exact h
  | sent header authRetry =>
    have hretry : authRetry = true := by simpa [Call.stores] using h
    cases o <;> simp [exec, hretry, Call.stores]
  | refreshing header phase =>
    cases phase with
    | settling ok => exact stores_afterRefresh ok
    | deletingAccess => rfl
    | deletingRefresh => rfl
    | _ => cases h
  | awaiting header r =>
    rw [exec]
    split
    · exact stores_afterRefresh _
    · rfl
  | verified => cases h
  | storingAccess => cases h
  | storingRefresh => cases h
  | _ => rfl

theorem refreshAccessToken_inProgress :
    (refreshAccessToken web k st phase o).1.refreshTokenInProgress = st.refreshTokenInProgress := by
  fun_cases refreshAccessToken web k st phase o <;> rfl

/-- The refresh that is under way changes when one begins, and at its end. -/
theorem exec_inProgress (web : Bool) (k : Nat) (st : Store) (p : Call) (o : Outcome) :
    (exec web k st p o).1.refreshTokenInProgress = st.refreshTokenInProgress
      ∨ st.refreshTokenInProgress = none
        ∧ (exec web k st p o).1.refreshTokenInProgress = some k
      ∨ ∃ header ok, p = .refreshing header (.settling ok)
        ∧ (exec web k st p o).2 = afterRefresh header ok := by
  fun_cases exec web k st p o with
  | case7 header ok => exact .inr (.inr ⟨header, ok, rfl, rfl⟩)
  | case8 => exact .inl refreshAccessToken_inProgress
  | _ => simp_all

theorem exec_starts (h : (exec web k st p o).2 = .refreshing header phase) :
    (∃ before, p = .refreshing header before ∧ (∀ ok, before ≠ .settling ok)
        ∧ phase = (refreshAccessToken web k st before o).2)
      ∨ phase = .fingerprint ∧ (exec web k st p o).1.refreshTokenInProgress = some k := by
  cases p with
  | sent header' authRetry =>
    cases o with
    | unauthorized =>
      simp only [exec] at h ⊢
      split at h
      · cases h
      · split at h
        · cases h
        · simp_all
    | _ => cases h
  | refreshing header' before =>
    cases before with
    | settling ok =>
      cases ok <;> cases h
    | _ =>
      rw [exec_refreshing (by rintro _ ⟨⟩)] at h
      cases h
      exact .inl ⟨_, rfl, (by rintro _ ⟨⟩), rfl⟩
  | awaiting header' r =>
    rw [exec] at h
    split at h
    · rename_i ok _
      cases ok <;> cases h
    · cases h
  | storingAccess => cases web <;> cases h
  | _ => cases h

/-- The stored refresh token stays, goes, or becomes that of the call. -/
theorem exec_refresh (web : Bool) (k : Nat) (st : Store) (p : Call) (o : Outcome) :
    (exec web k st p o).1.refresh = st.refresh
      ∨ (exec web k st p o).1.refresh = none
      ∨ (exec web k st p o).1.refresh = some (.issued k) ∧ p.stores = true
        ∧ (exec web k st p o).2.stores = false := by
  fun_cases exec web k st p o with
  | case8 header phase _ =>
    fun_cases refreshAccessToken web k st phase o <;>
      simp [Phase.stores, Call.stores, Store.present]
  | _ => simp [Call.stores]

/-- A token is rotated when a refresh that has presented it is answered. -/
theorem exec_consumed (web : Bool) (k : Nat) (st : Store) (p : Call) (o : Outcome) :
    (exec web k st p o).1.consumed = st.consumed
      ∨ ∃ header t, p = .refreshing header (.posted (some t))
        ∧ (exec web k st p o).1.consumed = t :: st.consumed := by
  fun_cases exec web k st p o with
  | case8 header phase _ =>
    fun_cases refreshAccessToken web k st phase o <;> simp [Store.present]
  | _ => simp

theorem refreshAccessToken_posted
    (h : (refreshAccessToken false k st phase o).2 = .posted (some t)) :
    phase = .reading ∧ st.refresh = some t := by
  revert h
  fun_cases refreshAccessToken false k st phase o <;> simp_all

theorem refreshAccessToken_web : (refreshAccessToken true k st phase o).2 ≠ .reading := by
  fun_cases refreshAccessToken true k st phase o <;> simp_all

/-- When the request is over, the stored refresh token is to be replaced or deleted. -/
theorem refreshAccessToken_answered :
    (refreshAccessToken web k st (.posted header) o).2.pending = true := by
  cases header with
  | none => rfl
  | some t =>
    rw [refreshAccessToken]
    split <;> rfl

/-- What is pending stays so until the stored refresh token is another. -/
theorem refreshAccessToken_pending (h : phase.pending = true) :
    (refreshAccessToken false k st phase o).2.pending = true
      ∨ (refreshAccessToken false k st phase o).1.refresh = none
      ∨ (refreshAccessToken false k st phase o).1.refresh = some (.issued k)
        ∧ phase.stores = true := by
  fun_cases refreshAccessToken false k st phase o <;> simp_all [Phase.pending, Phase.stores]

/-! ## One refresh at a time -/

/-- The refresh that a call makes is the one under way. -/
def Owned (s : State) : Prop :=
  ∀ k header phase, s.calls[k]? = some (.refreshing header phase) →
    s.store.refreshTokenInProgress = some k

theorem arrive_ne (event : Event) : arrive web event ≠ .refreshing header phase := by
  cases event <;> cases web <;> simp [arrive]

theorem after_exec {P : State → Prop} {s : State} (hk : s.calls[k]? = some p) (o : Outcome)
    (hnext : ∀ next : State, next.store = (exec web k s.store p o).1 →
      next.calls[k]? = some (exec web k s.store p o).2 →
      (∀ j, j ≠ k → next.calls[j]? = s.calls[j]?) → P next) :
    P ((client web).step s (.exec k o)) :=
  Service.after_exec hk o hnext

/-- A call that refreshes after an event of the world did so before. -/
theorem refreshing_of_world {s : State} {event : Event}
    (h : ((client web).step s (.world event)).calls[k]? = some (.refreshing header phase)) :
    s.calls[k]? = some (.refreshing header phase) := by
  rcases Service.of_step_world h with h | ⟨-, h⟩
  · exact h
  · exact absurd (Option.some.inj h) (arrive_ne event)

theorem Owned.step {s : State} (h : Owned s) (a : Action Event Outcome) :
    Owned ((client web).step s a) := by
  cases a with
  | world event => exact fun k header phase hk => h k header phase (refreshing_of_world hk)
  | exec k o =>
    cases hk : s.calls[k]? with
    | none => rwa [Service.step_exec_none hk]
    | some p =>
      refine after_exec hk o fun next hstore hself hothers => ?_
      intro j header phase hj
      rw [hstore]
      by_cases hjk : j = k
      · subst hjk
        rw [hself, Option.some.injEq] at hj
        rcases exec_starts hj with ⟨before, rfl, hbefore, -⟩ | ⟨-, hstart⟩
        · have howner := h j header before hk
          rcases exec_inProgress web j s.store (.refreshing header before) o with
            hsame | ⟨hnone, -⟩ | ⟨header', ok, hp, -⟩
          · exact hsame.trans howner
          · rw [howner] at hnone
            cases hnone
          · cases hp
            exact absurd rfl (hbefore ok)
        · exact hstart
      · rw [hothers j hjk] at hj
        have howner := h j header phase hj
        rcases exec_inProgress web k s.store p o with hsame | ⟨hnone, -⟩ | ⟨header', ok, rfl, -⟩
        · exact hsame.trans howner
        · rw [howner] at hnone
          cases hnone
        · -- the refresh at its end is the one under way
          have hend := h k header' _ hk
          rw [howner, Option.some.injEq] at hend
          exact absurd hend hjk

/-- **Only one call refreshes.** -/
theorem Owned.single {s : State} (h : Owned s) {k k' : Nat} {header header' : Option Token}
    {phase phase' : Phase} (hk : s.calls[k]? = some (.refreshing header phase))
    (hk' : s.calls[k']? = some (.refreshing header' phase')) : k = k' :=
  Option.some.inj ((h k header phase hk).symm.trans (h k' header' phase' hk'))

/-- On the web no refresh token is read. -/
def Unread (s : State) : Prop :=
  ∀ (k : Nat) (header : Option Token), s.calls[k]? ≠ some (.refreshing header .reading)

theorem Unread.step {s : State} (h : Unread s) (a : Action Event Outcome) :
    Unread ((client true).step s a) := by
  cases a with
  | world event => exact fun k header hk => h k header (refreshing_of_world hk)
  | exec k o =>
    cases hk : s.calls[k]? with
    | none => rwa [Service.step_exec_none hk]
    | some p =>
      refine after_exec hk o fun next hstore hself hothers => ?_
      intro j header hj
      by_cases hjk : j = k
      · subst hjk
        rw [hself, Option.some.injEq] at hj
        rcases exec_starts hj with ⟨before, -, -, hreading⟩ | ⟨hstart, -⟩
        · exact refreshAccessToken_web hreading.symm
        · cases hstart
      · rw [hothers j hjk] at hj
        exact h j header hj

/-! ## No token is presented twice -/

/-- A token of an earlier session, or of a call that has none left to store. -/
def Spent (s : State) : Token → Prop
  | .earlier => True
  | .issued k => ∃ p, s.calls[k]? = some p ∧ p.stores = false

theorem Spent.step {s : State} (h : Spent s t) (a : Action Event Outcome) :
    Spent ((client web).step s a) t := by
  cases t with
  | earlier => trivial
  | issued k =>
    obtain ⟨p, hk, hp⟩ := h
    rcases Service.step_call hk a with hsame | ⟨o, -, hnext⟩
    · exact ⟨p, hsame, hp⟩
    · exact ⟨_, hnext, stores_exec hp⟩

theorem Spent.not_stores {s : State} (h : Spent s (.issued k)) (hk : s.calls[k]? = some p) :
    p.stores = false := by
  obtain ⟨p', hk', hp'⟩ := h
  rw [hk] at hk'
  rwa [Option.some.inj hk']

/-- Off the web: the tokens that are stored, presented or rotated are spent,
and a stored one that has been rotated is about to be replaced or deleted. -/
structure Rotates (s : State) : Prop where
  stored : ∀ t, s.store.refresh = some t → Spent s t
  posted : ∀ (k : Nat) header t, s.calls[k]? = some (.refreshing header (.posted (some t))) →
    Spent s t
  consumed : ∀ t ∈ s.store.consumed, Spent s t
  renewed : ∀ t, s.store.refresh = some t → t ∈ s.store.consumed →
    ∃ (k : Nat) (header : Option Token) (phase : Phase),
      s.calls[k]? = some (.refreshing header phase) ∧ phase.pending = true

theorem Rotates.world {s : State} (h : Rotates s) (event : Event) :
    Rotates ((client false).step s (.world event)) where
  stored t ht := (h.stored t ht).step _
  posted k header t hk := (h.posted k header t (refreshing_of_world hk)).step _
  consumed t ht := (h.consumed t ht).step _
  renewed t ht hconsumed := by
    obtain ⟨k, header, phase, hk, hpending⟩ := h.renewed t ht hconsumed
    exact ⟨k, header, phase, Service.step_world_of hk event, hpending⟩

theorem Rotates.exec_consumed {s : State} (h : Rotates s) (hk : s.calls[k]? = some p) (o : Outcome)
    (ht : t ∈ (exec false k s.store p o).1.consumed) : Spent s t := by
  rcases Tokens.exec_consumed false k s.store p o with hsame | ⟨header, t', rfl, hposted⟩
  · exact h.consumed t (hsame ▸ ht)
  · rw [hposted, List.mem_cons] at ht
    rcases ht with rfl | ht
    · exact h.posted k header t hk
    · exact h.consumed t ht

/-- After a step the refresh of a stored token that has been rotated is that
of this call, or of another. -/
theorem Rotates.exec_renewed {s : State} (h : Rotates s) (hk : s.calls[k]? = some p) (o : Outcome)
    (ht : (exec false k s.store p o).1.refresh = some t)
    (hconsumed : t ∈ (exec false k s.store p o).1.consumed) :
    (∃ header phase, (exec false k s.store p o).2 = .refreshing header phase
        ∧ phase.pending = true)
      ∨ ∃ (j : Nat) (header : Option Token) (phase : Phase), j ≠ k
        ∧ s.calls[j]? = some (.refreshing header phase) ∧ phase.pending = true := by
  have hspent := h.exec_consumed hk o hconsumed
  rcases exec_refresh false k s.store p o with hsame | hnone | ⟨hown, hstores, -⟩
  · rw [hsame] at ht
    rcases Tokens.exec_consumed false k s.store p o with hold | ⟨header, t', rfl, -⟩
    · obtain ⟨j, header, phase, hj, hpending⟩ := h.renewed t ht (hold ▸ hconsumed)
      by_cases hjk : j = k
      · subst hjk
        obtain rfl := Option.some.inj (hk.symm.trans hj)
        have hsettled : ∀ ok, phase ≠ .settling ok := by
          rintro ok rfl
          cases hpending
        rw [exec_refreshing hsettled] at hsame ⊢
        rcases refreshAccessToken_pending hpending with hnext | hnone | ⟨hown, hstores⟩
        · exact .inl ⟨header, _, rfl, hnext⟩
        · rw [← hsame, hnone] at ht
          cases ht
        · rw [← hsame, hown] at ht
          cases ht
          have hlast := hspent.not_stores hk
          rw [Call.stores, hstores] at hlast
          cases hlast
      · exact .inr ⟨j, header, phase, hjk, hj, hpending⟩
    · -- the request has just been answered, or has failed
      rw [exec_refreshing (by rintro _ ⟨⟩)]
      exact .inl ⟨header, _, rfl, refreshAccessToken_answered⟩
  · rw [hnone] at ht
    cases ht
  · -- the token of this call is not spent before it is stored
    rw [hown] at ht
    cases ht
    rw [hspent.not_stores hk] at hstores
    cases hstores

theorem Rotates.exec {s : State} (h : Rotates s) (hk : s.calls[k]? = some p) (o : Outcome) :
    Rotates ((client false).step s (.exec k o)) := by
  have hspent : ∀ t, Spent s t → Spent ((client false).step s (.exec k o)) t :=
    fun t ht => ht.step _
  revert hspent
  refine after_exec (P := fun next => (∀ t, Spent s t → Spent next t) → Rotates next) hk o
    fun next hstore hself hothers hspent => ?_
  refine ⟨?_, ?_, ?_, ?_⟩
  · intro t ht
    rw [hstore] at ht
    rcases exec_refresh false k s.store p o with hsame | hnone | ⟨hown, -, hstored⟩
    · exact hspent t (h.stored t (hsame ▸ ht))
    · rw [hnone] at ht
      cases ht
    · rw [hown] at ht
      cases ht
      exact ⟨_, hself, hstored⟩
  · intro j header t hj
    by_cases hjk : j = k
    · subst hjk
      rw [hself, Option.some.injEq] at hj
      rcases exec_starts hj with ⟨before, rfl, -, hposted⟩ | ⟨hstart, -⟩
      · exact hspent t (h.stored t (refreshAccessToken_posted hposted.symm).2)
      · cases hstart
    · rw [hothers j hjk] at hj
      exact hspent t (h.posted j header t hj)
  · intro t ht
    rw [hstore] at ht
    exact hspent t (h.exec_consumed hk o ht)
  · intro t ht hconsumed
    rw [hstore] at ht hconsumed
    rcases h.exec_renewed hk o ht hconsumed with
      ⟨header, phase, heq, hpending⟩ | ⟨j, header, phase, hjk, hj, hpending⟩
    · exact ⟨k, header, phase, hself.trans (congrArg some heq), hpending⟩
    · exact ⟨j, header, phase, (hothers j hjk).trans hj, hpending⟩

end UsbVault.App.Tokens
