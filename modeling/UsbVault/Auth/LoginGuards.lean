import UsbVault.Auth.Login
import UsbVault.Srp.Agreement

/-!
# Guards of the login

A session is fetched and deleted by two commands, so two verifications may
fetch it; where none fetches it between the two commands of another, and the
deletion is executed, it is found once (`session_found_once`).

The lockout is checked, the proof evaluated and the failure recorded by
separate commands, so failures in parallel are all evaluated. The record is
kept for an account and a client address, and runs out. Where verifications
do not overlap, the failures it lets through and the lock are as intended
(`lockout_bounds`).
-/

namespace UsbVault.Auth.Login

open Wire Expiring Srp

variable {sha256 : Bytes → ByteVec 32} {G : Group}
variable {s : Store} {c : Call} {k : Nat} {ok : Bool}

/-! ## Session use -/

/-- The session a call is about to fetch. -/
def Call.fetching (c : Call) : Option SessionID :=
  match c.pc with
  | .getSession => some c.req.sessionID
  | _ => none

/-- The session a call has fetched and is about to delete. -/
def Call.deleting (c : Call) : Option SessionID :=
  match c.pc with
  | .deleteSession _ => some c.req.sessionID
  | _ => none

/-- A session is fetched while no other call is about to delete it, and its
deletion is executed. -/
def FetchedAlone (s : Logins) : Action → Prop
  | .world _ => True
  | .exec k ok =>
    ∀ c ∈ s.calls[k]?,
      (∀ id ∈ c.fetching, ok = true → (s.store.session id).isSome →
        ∀ c' ∈ s.calls, c'.deleting ≠ some id)
      ∧ ∀ id ∈ c.deleting, (s.store.session id).isSome → ok = true

instance (s : Logins) (a : Action) : Decidable (FetchedAlone s a) :=
  match a with
  | .world _ => inferInstanceAs (Decidable True)
  | .exec k _ =>
    inferInstanceAs (Decidable (∀ c ∈ s.calls[k]?,
      (∀ id ∈ c.fetching, _ → _ → ∀ c' ∈ s.calls, _) ∧ ∀ id ∈ c.deleting, _))

/-- A session that was found is gone, or about to be deleted by the call that
found it. -/
structure SessionsOk (s : Logins) : Prop where
  stored_lt : ∀ id, s.store.sessions.Marked id → id < s.store.drawn
  found_lt : ∀ id k, (id, k) ∈ s.store.found → id < s.store.drawn
  gone : ∀ id k, (id, k) ∈ s.store.found → s.store.session id = none
    ∨ ∃ c, s.calls[k]? = some c ∧ c.deleting = some id
  once : ∀ id k k', (id, k) ∈ s.store.found → (id, k') ∈ s.store.found → k = k'

/-- What the step of a call has to do with sessions. -/
inductive SessionStep (s : Store) (k : Nat) (c : Call) : Bool → Command → VerifyPc → Prop where
  | found {session : StoredSession} (hfetch : c.fetching = some c.req.sessionID)
      (h : s.session c.req.sessionID = some session) :
      SessionStep s k c true (.find c.req.sessionID k) (.deleteSession session)
  | deleted {pc : VerifyPc} (hdelete : c.deleting = some c.req.sessionID) :
      SessionStep s k c true (.deleteSession c.req.sessionID) pc
  | undeleted {pc : VerifyPc} (hdelete : c.deleting = some c.req.sessionID) :
      SessionStep s k c false .nothing pc
  | other {ok : Bool} {cmd : Command} {pc : VerifyPc} (hdelete : c.deleting = none)
      (hsessions : (s.apply cmd).sessions = s.sessions) (hfound : (s.apply cmd).found = s.found) :
      SessionStep s k c ok cmd pc

theorem exec_sessionStep :
    SessionStep s k c ok (c.exec sha256 G s k ok).1 (c.exec sha256 G s k ok).2 := by
  obtain ⟨req, pc⟩ := c
  cases pc with
  | getSession =>
    cases ok with
    | false => exact .other rfl rfl rfl
    | true =>
      simp only [Call.exec, if_true]
      split
      · rename_i session hsession
        exact .found rfl hsession
      · exact .other rfl rfl rfl
  | deleteSession session =>
    cases ok with
    | false => exact .undeleted rfl
    | true => exact .deleted rfl
  | evaluate session =>
    simp only [Call.exec, evaluateProof]
    split
    · split <;> exact .other rfl rfl rfl
    · split <;> exact .other rfl rfl rfl
  | record session err currentTime => cases ok <;> exact .other rfl rfl rfl
  | reset session M2 => cases ok <;> exact .other rfl rfl rfl
  | _ => exact .other rfl rfl rfl

theorem SessionsOk.of_found_eq {st next : Logins} (h : SessionsOk st)
    (hstored : ∀ id, next.store.sessions.Marked id → id < next.store.drawn)
    (hdrawn : st.store.drawn ≤ next.store.drawn) (hfound : next.store.found = st.store.found)
    (hgone : ∀ id k, (id, k) ∈ st.store.found →
      next.store.session id = none ∨ ∃ c, next.calls[k]? = some c ∧ c.deleting = some id) :
    SessionsOk next := by
  refine ⟨hstored, ?_, ?_, ?_⟩
  · intro id k hmem
    rw [hfound] at hmem
    exact lt_of_lt_of_le (h.found_lt id k hmem) hdrawn
  · intro id k hmem
    rw [hfound] at hmem
    exact hgone id k hmem
  · intro id k k' hmem hmem'
    rw [hfound] at hmem hmem'
    exact h.once id k k' hmem hmem'

theorem SessionsOk.world {st : Logins} (h : SessionsOk st) (e : Event) :
    SessionsOk ((service sha256 G).step st (.world e)) := by
  have hfound : (Login.world st.store e).1.found = st.store.found := by cases e <;> rfl
  have hdrawn : st.store.drawn ≤ (Login.world st.store e).1.drawn := by
    cases e with
    | init state => exact Nat.le_succ _
    | _ => exact le_refl _
  refine h.of_found_eq ?_ hdrawn hfound ?_
  · intro id hmarked
    cases e with
    | tick nanoseconds => exact h.stored_lt id hmarked
    | init state =>
      by_cases hid : id = st.store.drawn
      · subst hid
        exact Nat.lt_succ_self _
      · have hold : st.store.sessions.Marked id := by
          rw [Keys.Marked] at hmarked ⊢
          rwa [← Keys.entry_set_ne hid]
        exact Nat.lt_succ_of_lt (h.stored_lt id hold)
    | verify req => exact h.stored_lt id hmarked
  · -- a session that is gone stays so, and a new one has a new identifier
    intro id k hmem
    rcases h.gone id k hmem with hnone | ⟨c, hk, hdelete⟩
    · left
      cases e with
      | tick nanoseconds =>
        exact Keys.get_eq_none_mono (Nat.div_le_div_right (Nat.le_add_right _ _)) hnone
      | init state => exact (Keys.get_set_ne (Nat.ne_of_lt (h.found_lt id k hmem))).trans hnone
      | verify req => exact hnone
    · exact .inr ⟨c, Calls.Service.step_world_of hk e, hdelete⟩

/-- A step that finds a session: it is there, and no other call is about to
delete it. -/
theorem SessionsOk.find {st next : Logins} (h : SessionsOk st) {id : SessionID}
    {session : StoredSession} {c' : Call} (hsession : st.store.session id = some session)
    (hfree : ∀ c ∈ st.calls, c.deleting ≠ some id)
    (hstore : next.store = st.store.apply (.find id k)) (hself : next.calls[k]? = some c')
    (hdelete : c'.deleting = some id)
    (hkept : ∀ id j, (id, j) ∈ st.store.found →
      st.store.session id = none ∨ ∃ c, next.calls[j]? = some c ∧ c.deleting = some id) :
    SessionsOk next := by
  -- no call has found it: it would be gone, or another would be deleting it
  have hnew : ∀ j, (id, j) ∉ st.store.found := by
    intro j hmem
    rcases h.gone id j hmem with hnone | ⟨c, hc, hdeleting⟩
    · rw [hsession] at hnone
      cases hnone
    · exact hfree c (List.mem_of_getElem? hc) hdeleting
  have hfound : ∀ id' j, (id', j) ∈ next.store.found →
      (id', j) ∈ st.store.found ∨ id' = id ∧ j = k := by
    intro id' j hmem
    rw [hstore] at hmem
    simpa [Store.apply] using hmem
  refine ⟨?_, ?_, ?_, ?_⟩
  · rw [hstore]
    exact h.stored_lt
  · intro id' j hmem
    rw [hstore]
    rcases hfound id' j hmem with hold | ⟨rfl, -⟩
    · exact h.found_lt id' j hold
    · exact h.stored_lt _ (Keys.Marked.of_get hsession)
  · intro id' j hmem
    rw [hstore]
    rcases hfound id' j hmem with hold | ⟨rfl, rfl⟩
    · exact hkept id' j hold
    · exact .inr ⟨c', hself, hdelete⟩
  · intro id' j j' hmem hmem'
    rcases hfound id' j hmem with hold | ⟨rfl, rfl⟩
    · rcases hfound id' j' hmem' with hold' | ⟨rfl, -⟩
      · exact h.once id' j j' hold hold'
      · exact absurd hold (hnew j)
    · rcases hfound _ j' hmem' with hold' | ⟨-, rfl⟩
      · exact absurd hold' (hnew j')
      · rfl

theorem SessionsOk.exec {st : Logins} (h : SessionsOk st) (hk : st.calls[k]? = some c)
    (hok : FetchedAlone st (.exec k ok)) :
    SessionsOk ((service sha256 G).step st (.exec k ok)) := by
  obtain ⟨hfetch, hdelete⟩ := hok c (Option.mem_def.mpr hk)
  have hstep : SessionStep st.store k c ok (c.exec sha256 G st.store k ok).1
      (c.exec sha256 G st.store k ok).2 := exec_sessionStep
  refine Calls.Service.after_exec hk ok ?_
  intro next (hstore : next.store = st.store.apply (c.exec sha256 G st.store k ok).1)
    (hnext : next.calls[k]? = some { c with pc := (c.exec sha256 G st.store k ok).2 }) hothers
  generalize (c.exec sha256 G st.store k ok).1 = cmd at hstep hstore
  generalize (c.exec sha256 G st.store k ok).2 = pc at hstep hnext
  -- what was found and not by this call keeps its place
  have hkept : ∀ id j, (id, j) ∈ st.store.found → c.deleting ≠ some id →
      st.store.session id = none ∨ ∃ c', next.calls[j]? = some c' ∧ c'.deleting = some id := by
    intro id j hmem hnot
    rcases h.gone id j hmem with hnone | ⟨c', hc', hdeleting⟩
    · exact .inl hnone
    · right
      have hj : j ≠ k := by
        rintro rfl
        rw [hk] at hc'
        obtain rfl := Option.some.inj hc'
        exact hnot hdeleting
      exact ⟨c', (hothers j hj).trans hc', hdeleting⟩
  have hdrawn : next.store.drawn = st.store.drawn := by
    rw [hstore]
    cases cmd <;> rfl
  cases hstep with
  | @found session hc hsession =>
    have hidle : c.deleting = none := by
      simp only [Call.fetching] at hc
      split at hc
      · rename_i hpc
        simp [Call.deleting, hpc]
      · cases hc
    refine h.find hsession (hfetch _ hc rfl (by simp [hsession])) hstore hnext rfl ?_
    intro id j hmem
    exact hkept id j hmem (by rw [hidle]; simp)
  | deleted hc =>
    refine h.of_found_eq ?_ (le_of_eq hdrawn.symm) (by rw [hstore]; rfl) ?_
    · intro id hid
      rw [hdrawn]
      refine h.stored_lt id ?_
      rw [hstore] at hid
      by_cases heq : id = c.req.sessionID
      · simp [Store.apply, Keys.Marked, heq] at hid
      · rwa [Store.apply, Keys.Marked, Keys.entry_delete_ne heq] at hid
    · intro id j hmem
      rw [hstore]
      by_cases heq : id = c.req.sessionID
      · subst heq
        exact .inl Keys.get_delete_self
      · rcases hkept id j hmem (by rw [hc]; simpa using Ne.symm heq) with hnone | hdeleting
        · exact .inl ((Keys.get_delete_ne heq).trans hnone)
        · exact .inr hdeleting
  | undeleted hc =>
    have hnone : st.store.session c.req.sessionID = none := by
      by_contra hsome
      have hanswered := hdelete _ hc (Option.isSome_iff_ne_none.mpr hsome)
      cases hanswered
    refine h.of_found_eq ?_ (le_of_eq hdrawn.symm) (by rw [hstore]; rfl) ?_
    · rw [hstore]
      exact h.stored_lt
    · intro id j hmem
      rw [hstore]
      by_cases heq : id = c.req.sessionID
      · subst heq
        exact .inl hnone
      · exact hkept id j hmem (by rw [hc]; simpa using Ne.symm heq)
  | other hc hsessions hfound =>
    have hclock : (st.store.apply cmd).clock = st.store.clock := by cases cmd <;> rfl
    refine h.of_found_eq ?_ (le_of_eq hdrawn.symm) (by rw [hstore, hfound]) ?_
    · rw [hdrawn, hstore, hsessions]
      exact h.stored_lt
    · intro id j hmem
      rw [hstore, Store.session, hsessions, hclock]
      exact hkept id j hmem (by rw [hc]; simp)

/-- No session has been found by two calls. -/
def FoundOnce (s : Logins) : Prop :=
  ∀ id k k', (id, k) ∈ s.store.found → (id, k') ∈ s.store.found → k = k'

/-- **A login session is consumed at most once** in every run in which no
verification fetches a session between the fetch and the deletion of
another, and the deletion is executed: no two calls find it, so at most one
goes on with its ephemeral secret, and none finds it after that. -/
theorem session_found_once (as : List Action)
    (hrun : Run.Each (service sha256 G).step FetchedAlone start as) :
    FoundOnce ((service sha256 G).run start as) := by
  have hstart : SessionsOk start := by
    constructor <;> simp [start, Store.empty, Keys.empty, Keys.Marked]
  have h : SessionsOk ((service sha256 G).run start as) := by
    refine Calls.Service.preserves ?_ ?_ hrun hstart
    · intro st e hst _
      exact hst.world e
    · intro st k c ok hst hok hk
      exact hst.exec hk hok
  exact h.once

/-- A proof that is wrong for `sampleState`. -/
def wrongProof (sessionID : SessionID) (clientIP : String) : SRPVerifyRequest :=
  ⟨sessionID, "2", "", clientIP⟩

/-- A session, and two verifications of it. -/
def sampleTwoVerifications : List Action :=
  [.world (.init sampleState), .world (.verify (wrongProof 0 "1.2.3.4")),
    .world (.verify (wrongProof 0 "1.2.3.4"))]

theorem session_found_once_sample :
    FoundOnce ((service (fun _ => oneVec) sampleGroup).run start
      (sampleTwoVerifications ++ [.exec 0 true, .exec 0 true, .exec 1 true])) :=
  session_found_once _ (by decide)

/-- Both verifications fetch the session before either deletes it. -/
theorem session_found_twice :
    ¬FoundOnce ((service (fun _ => oneVec) sampleGroup).run start
      (sampleTwoVerifications ++ [.exec 0 true, .exec 1 true])) := by
  intro h
  have hsame := h 0 0 1 (by decide) (by decide)
  cases hsame

/-! ## The lockout -/

/-- The key of a call between its check of the lock and the end of what
follows from it. -/
def Call.inSection (c : Call) : Option LockoutKey :=
  match c.pc with
  | .compareLock session _ => some (lockoutKey session c.req)
  | .evaluate session => some (lockoutKey session c.req)
  | .readClock session _ => some (lockoutKey session c.req)
  | .record session _ _ => some (lockoutKey session c.req)
  | .issueTokens session _ => some (lockoutKey session c.req)
  | .reset session _ => some (lockoutKey session c.req)
  | _ => none

/-- The key of a call about to check the lock. -/
def Call.checking (c : Call) : Option LockoutKey :=
  match c.pc with
  | .getLockout session => some (lockoutKey session c.req)
  | _ => none

/-- The key of a call about to evaluate its proof. -/
def Call.evaluating (c : Call) : Option LockoutKey :=
  match c.pc with
  | .evaluate session => some (lockoutKey session c.req)
  | _ => none

/-- The key of a call that has failed and has yet to record it. -/
def Call.failing (c : Call) : Option LockoutKey :=
  match c.pc with
  | .readClock session _ => some (lockoutKey session c.req)
  | .record session _ _ => some (lockoutKey session c.req)
  | _ => none

/-- The key and the time of the failure a call is about to record. -/
def Call.recording (c : Call) : Option (LockoutKey × Nat) :=
  match c.pc with
  | .record session _ currentTime => some (lockoutKey session c.req, currentTime)
  | _ => none

/-- The key of a successful call about to reset the record. -/
def Call.resetting (c : Call) : Option LockoutKey :=
  match c.pc with
  | .reset session _ => some (lockoutKey session c.req)
  | _ => none

/-- No verification checks the lock of the account and address while another
is between its check and its end, and a failure is recorded, before the lock
it may set would be over. -/
def OneAtATime (key : LockoutKey) (s : Logins) : Action → Prop
  | .world _ => True
  | .exec k ok =>
    ∀ c ∈ s.calls[k]?,
      (c.checking = some key → ok = true → ∀ c' ∈ s.calls, c'.inSection ≠ some key)
      ∧ ∀ r ∈ c.recording, r.1 = key →
          ok = true ∧ s.store.now < (r.2 + lockDuration) * second

instance (key : LockoutKey) (s : Logins) (a : Action) : Decidable (OneAtATime key s a) :=
  match a with
  | .world _ => inferInstanceAs (Decidable True)
  | .exec k _ =>
    inferInstanceAs (Decidable (∀ c ∈ s.calls[k]?,
      (_ → _ → ∀ c' ∈ s.calls, _) ∧ ∀ r ∈ c.recording, _ → _ ∧ _))

/-- No verification for the key succeeds, its lock does not expire, and its
record does not run out. -/
def Quiet (key : LockoutKey) (s : Logins) : Action → Prop
  | .world e =>
    ((s.store.lockout key).isSome → (world s.store e).1.lockout key = s.store.lockout key)
    ∧ (s.store.Locked key → (world s.store e).1.Locked key)
  | .exec k _ => ∀ c ∈ s.calls[k]?, c.resetting ≠ some key

instance (key : LockoutKey) (s : Logins) (a : Action) : Decidable (Quiet key s a) :=
  match a with
  | .world _ => inferInstanceAs (Decidable (_ ∧ _))
  | .exec k _ => inferInstanceAs (Decidable (∀ c ∈ s.calls[k]?, _))

/-- The failures so far for an account and address. -/
def failureCount (s : Logins) (key : LockoutKey) : Nat := s.store.failures.count key

/-- The key of a command that has to do with the lockout. -/
def Command.lockoutKey : Command → Option LockoutKey
  | .fail key => some key
  | .record key _ => some key
  | .reset key => some key
  | _ => none

/-- What the step of a call has to do with the lockout. -/
inductive LockoutStep (s : Store) : Call → Bool → Command → VerifyPc → Prop where
  | checked {req : SRPVerifyRequest} {session : StoredSession} :
      LockoutStep s ⟨req, .getLockout session⟩ true .nothing
        (.compareLock session (s.lockout (lockoutKey session req)))
  | passed {req : SRPVerifyRequest} {session : StoredSession} {ld : Option LockoutData} {ok : Bool}
      (hfree : ∀ rec ∈ ld, rec.locked s.now = false) :
      LockoutStep s ⟨req, .compareLock session ld⟩ ok .nothing (.evaluate session)
  | wrong {req : SRPVerifyRequest} {session : StoredSession} {err : HttpError} {ok : Bool} :
      LockoutStep s ⟨req, .evaluate session⟩ ok (.fail (lockoutKey session req))
        (.readClock session err)
  | right {req : SRPVerifyRequest} {session : StoredSession} {M2 : String} {ok : Bool} :
      LockoutStep s ⟨req, .evaluate session⟩ ok .nothing (.issueTokens session M2)
  | clockRead {req : SRPVerifyRequest} {session : StoredSession} {err : HttpError} {ok : Bool} :
      LockoutStep s ⟨req, .readClock session err⟩ ok .nothing (.record session err (s.now / second))
  | recorded {req : SRPVerifyRequest} {session : StoredSession} {err : HttpError} {time : Nat} :
      LockoutStep s ⟨req, .record session err time⟩ true (.record (lockoutKey session req) time)
        (.failed err)
  | unrecorded {req : SRPVerifyRequest} {session : StoredSession} {err : HttpError} {time : Nat} :
      LockoutStep s ⟨req, .record session err time⟩ false .nothing (.failed err)
  | issued {req : SRPVerifyRequest} {session : StoredSession} {M2 : String} :
      LockoutStep s ⟨req, .issueTokens session M2⟩ true .nothing (.reset session M2)
  | reset {req : SRPVerifyRequest} {session : StoredSession} {M2 : String} :
      LockoutStep s ⟨req, .reset session M2⟩ true (.reset (lockoutKey session req)) (.succeeded M2)
  | outside {c : Call} {ok : Bool} {cmd : Command} {pc : VerifyPc}
      (hnext : (Call.mk c.req pc).inSection = none) (hfailing : c.failing = none)
      (hcmd : cmd.lockoutKey = none) : LockoutStep s c ok cmd pc

theorem exec_lockoutStep :
    LockoutStep s c ok (c.exec sha256 G s k ok).1 (c.exec sha256 G s k ok).2 := by
  obtain ⟨req, pc⟩ := c
  cases pc with
  | getSession =>
    simp only [Call.exec]
    split <;> exact .outside rfl rfl rfl
  | deleteSession session =>
    refine .outside ?_ rfl ?_
    · simp only [Call.exec]
      split <;> rfl
    · cases ok <;> rfl
  | getLockout session =>
    cases ok with
    | false => exact .outside rfl rfl rfl
    | true => exact .checked
  | compareLock session ld =>
    simp only [Call.exec]
    split
    · exact .outside rfl rfl rfl
    · rename_i hfree
      refine .passed ?_
      rintro rec ⟨⟩
      simpa using hfree
  | evaluate session =>
    simp only [Call.exec, evaluateProof]
    split
    · split
      · exact .outside rfl rfl rfl
      · exact .wrong
    · split
      · exact .wrong
      · exact .right
  | readClock session err => exact .clockRead
  | record session err time =>
    cases ok with
    | false => exact .unrecorded
    | true => exact .recorded
  | issueTokens session M2 =>
    cases ok with
    | false => exact .outside rfl rfl rfl
    | true => exact .issued
  | reset session M2 =>
    cases ok with
    | false => exact .outside rfl rfl rfl
    | true => exact .reset
  | succeeded M2 => exact .outside rfl rfl rfl
  | failed err => exact .outside rfl rfl rfl

/-- At most one verification of the key is between its check and its end;
what it has read of the record is still so, and it evaluates unlocked. -/
structure Serial (key : LockoutKey) (s : Logins) : Prop where
  alone : ∀ (j j' : Nat) (c c' : Call), s.calls[j]? = some c → s.calls[j']? = some c' →
    c.inSection = some key → c'.inSection = some key → j = j'
  read : ∀ (j : Nat) (req : SRPVerifyRequest) (session : StoredSession) (ld : Option LockoutData),
    s.calls[j]? = some ⟨req, .compareLock session ld⟩ → lockoutKey session req = key →
    ∀ rec, s.store.lockout key = some rec → ld = some rec
  unlocked : ∀ (j : Nat) (c : Call), s.calls[j]? = some c → c.evaluating = some key →
    ¬s.store.Locked key

theorem Store.Locked.congr {s' : Store} {key : LockoutKey}
    (hlockout : ∀ rec, s'.lockout key = some rec → s.lockout key = some rec)
    (hnow : s.now ≤ s'.now) (h : s'.Locked key) : s.Locked key := by
  obtain ⟨ld, hld, hlocked⟩ := h
  refine ⟨ld, hlockout ld hld, ?_⟩
  simp only [LockoutData.locked, Bool.and_eq_true, decide_eq_true_eq] at hlocked ⊢
  exact ⟨hlocked.1, lt_of_le_of_lt hnow hlocked.2⟩

theorem lockout_world {e : Event} {key : LockoutKey} {rec : LockoutData}
    (h : (world s e).1.lockout key = some rec) : s.lockout key = some rec := by
  cases e with
  | tick nanoseconds =>
    obtain ⟨last, hlast, hle⟩ := Keys.get_eq_some.mp h
    have hclock : s.clock ≤ (s.now + nanoseconds) / millisecond :=
      Nat.div_le_div_right (Nat.le_add_right _ _)
    exact Keys.get_eq_some.mpr ⟨last, hlast, hclock.trans hle⟩
  | _ => exact h

theorem now_le_world (e : Event) : s.now ≤ (world s e).1.now := by
  cases e with
  | tick nanoseconds => exact Nat.le_add_right _ _
  | _ => exact le_refl _

theorem Serial.world {st : Logins} {key : LockoutKey} (h : Serial key st) (e : Event) :
    Serial key ((service sha256 G).step st (.world e)) := by
  -- a call that arrives is before its check
  have hbegun : ∀ (j : Nat) (c : Call),
      ((service sha256 G).step st (.world e)).calls[j]? = some c →
      st.calls[j]? = some c ∨ c.pc = .getSession := by
    intro j c hj
    rcases Calls.Service.of_step_world hj with hold | ⟨-, hnew⟩
    · exact .inl hold
    · right
      cases e with
      | verify req => cases hnew; rfl
      | _ => cases hnew
  refine ⟨?_, ?_, ?_⟩
  · intro j j' c c' hj hj' hc hc'
    rcases hbegun j c hj with hold | hnew
    · rcases hbegun j' c' hj' with hold' | hnew'
      · exact h.alone j j' c c' hold hold' hc hc'
      · simp [Call.inSection, hnew'] at hc'
    · simp [Call.inSection, hnew] at hc
  · intro j req session ld hj hkey rec hrec
    rcases hbegun j _ hj with hold | hnew
    · exact h.read j req session ld hold hkey rec (lockout_world hrec)
    · cases hnew
  · intro j c hj hc hlocked
    rcases hbegun j c hj with hold | hnew
    · exact h.unlocked j c hold hc
        (hlocked.congr (fun _ => lockout_world) (now_le_world e))
    · simp [Call.evaluating, hnew] at hc

theorem inSection_of_evaluating {key : LockoutKey} (h : c.evaluating = some key) :
    c.inSection = some key := by
  obtain ⟨req, pc⟩ := c
  cases pc with
  | evaluate session => exact h
  | _ => simp [Call.evaluating] at h

theorem inSection_of_failing {key : LockoutKey} (h : c.failing = some key) :
    c.inSection = some key := by
  obtain ⟨req, pc⟩ := c
  cases pc with
  | readClock session err => exact h
  | record session err time => exact h
  | _ => simp [Call.failing] at h

theorem lockout_apply {cmd : Command} {key : LockoutKey} {rec : LockoutData}
    (h : (s.apply cmd).lockout key = some rec) :
    s.lockout key = some rec ∨ ∃ time, cmd = .record key time := by
  cases cmd with
  | record key' time =>
    by_cases hkey : key = key'
    · exact .inr ⟨time, by rw [hkey]⟩
    · left
      have hother : (s.apply (.record key' time)).lockout key = s.lockout key :=
        Keys.get_set_ne hkey
      rwa [hother] at h
  | reset key' =>
    left
    by_cases hkey : key = key'
    · subst hkey
      have hgone : (s.apply (.reset key)).lockout key = none := Keys.get_delete_self
      rw [hgone] at h
      cases h
    · have hother : (s.apply (.reset key')).lockout key = s.lockout key :=
        Keys.get_delete_ne hkey
      rwa [hother] at h
  | _ => exact .inl h

theorem failing_of_record {key : LockoutKey} {time : Nat} {pc : VerifyPc}
    (h : LockoutStep s c ok (.record key time) pc) : c.recording = some (key, time) := by
  cases h with
  | recorded => rfl
  | outside hnext hfailing hcmd => cases hcmd

theorem LockoutStep.enters {cmd : Command} {pc : VerifyPc} (h : LockoutStep s c ok cmd pc)
    {key : LockoutKey} (hkey : (Call.mk c.req pc).inSection = some key) :
    c.inSection = some key ∨ c.checking = some key ∧ ok = true := by
  cases h with
  | checked => exact .inr ⟨hkey, rfl⟩
  | outside hnext hfailing hcmd =>
    rw [hnext] at hkey
    cases hkey
  | unrecorded => cases hkey
  | recorded => cases hkey
  | reset => cases hkey
  | _ => exact .inl hkey

theorem inSection_of_recording {key : LockoutKey} {time : Nat}
    (h : c.recording = some (key, time)) : c.inSection = some key := by
  obtain ⟨req, pc⟩ := c
  cases pc with
  | record session err time' =>
    cases h
    rfl
  | _ => simp [Call.recording] at h

theorem now_apply (s : Store) (cmd : Command) : (s.apply cmd).now = s.now := by
  cases cmd <;> rfl

theorem Serial.exec {st : Logins} {key : LockoutKey} (h : Serial key st)
    (hk : st.calls[k]? = some c) (hok : OneAtATime key st (.exec k ok)) :
    Serial key ((service sha256 G).step st (.exec k ok)) := by
  obtain ⟨hcheck, -⟩ := hok c (Option.mem_def.mpr hk)
  have hstep : LockoutStep st.store c ok (c.exec sha256 G st.store k ok).1
      (c.exec sha256 G st.store k ok).2 := exec_lockoutStep
  refine Calls.Service.after_exec hk ok ?_
  intro next (hstore : next.store = st.store.apply (c.exec sha256 G st.store k ok).1)
    (hnext : next.calls[k]? = some ⟨c.req, (c.exec sha256 G st.store k ok).2⟩) hothers
  generalize (c.exec sha256 G st.store k ok).1 = cmd at hstep hstore
  generalize (c.exec sha256 G st.store k ok).2 = pc at hstep hnext
  -- another call in its section keeps the record of its key
  have hkept : ∀ (j : Nat) (c' : Call) (rec : LockoutData), j ≠ k → st.calls[j]? = some c' →
      c'.inSection = some key → next.store.lockout key = some rec →
      st.store.lockout key = some rec := by
    intro j c' rec hj hc' hin hrec
    rw [hstore] at hrec
    rcases lockout_apply hrec with hold | ⟨time, rfl⟩
    · exact hold
    · have hin' := inSection_of_recording (failing_of_record hstep)
      exact absurd (h.alone j k c' c hc' hk hin hin') hj
  -- the call itself is alone after its step
  have hself : ∀ (j : Nat) (c' : Call), j ≠ k → st.calls[j]? = some c' →
      c'.inSection = some key → (Call.mk c.req pc).inSection ≠ some key := by
    intro j c' hj hc' hin hin'
    rcases hstep.enters hin' with hold | ⟨hchecking, rfl⟩
    · exact hj (h.alone j k c' c hc' hk hin hold)
    · exact hcheck hchecking rfl c' (List.mem_of_getElem? hc') hin
  refine ⟨?_, ?_, ?_⟩
  · intro j j' c₁ c₂ hj hj' hin hin'
    by_cases hjk : j = k
    · by_cases hjk' : j' = k
      · rw [hjk, hjk']
      · subst hjk
        rw [hnext] at hj
        obtain rfl := Option.some.inj hj
        rw [hothers j' hjk'] at hj'
        exact absurd hin (hself j' c₂ hjk' hj' hin')
    · rw [hothers j hjk] at hj
      by_cases hjk' : j' = k
      · subst hjk'
        rw [hnext] at hj'
        obtain rfl := Option.some.inj hj'
        exact absurd hin' (hself j c₁ hjk hj hin)
      · rw [hothers j' hjk'] at hj'
        exact h.alone j j' c₁ c₂ hj hj' hin hin'
  · intro j req session ld hj hkey rec hrec
    by_cases hjk : j = k
    · subst hjk
      rw [hnext] at hj
      obtain ⟨rfl, rfl⟩ := Call.mk.inj (Option.some.inj hj)
      rw [hstore] at hrec
      cases hstep with
      | checked =>
        subst hkey
        exact hrec
      | outside hnext hfailing hcmd => cases hnext
    · rw [hothers j hjk] at hj
      exact h.read j req session ld hj hkey rec
        (hkept j _ rec hjk hj (congrArg some hkey) hrec)
  · intro j c' hj heval hlocked
    by_cases hjk : j = k
    · subst hjk
      rw [hnext] at hj
      obtain rfl := Option.some.inj hj
      rw [hstore] at hlocked
      cases hstep with
      | @passed req session ld _ hfree =>
        cases heval
        obtain ⟨rec, hrec, hrecLocked⟩ := hlocked
        have hread := h.read j req session ld hk rfl rec hrec
        replace hrecLocked : rec.locked st.store.now = true := hrecLocked
        rw [hfree rec hread] at hrecLocked
        cases hrecLocked
      | outside hnext hfailing hcmd =>
        rw [inSection_of_evaluating heval] at hnext
        cases hnext
      | _ => cases heval
    · rw [hothers j hjk] at hj
      refine h.unlocked j c' hj heval (hlocked.congr ?_ ?_)
      · intro rec hrec
        exact hkept j c' rec hjk hj (inSection_of_evaluating heval) hrec
      · rw [hstore, now_apply]

/-! ### The failures of a stretch -/

/-- A failure of the key has yet to be recorded. -/
def Pending (key : LockoutKey) (s : Logins) : Prop :=
  ∃ (j : Nat) (c : Call), s.calls[j]? = some c ∧ c.failing = some key

/-- The attempts counted by the record that is found. -/
def Store.attempts (s : Store) (key : LockoutKey) : Nat :=
  (s.lockout key).elim 0 LockoutData.attempts

/-- A stretch began with `base` failures. The record counts those since, but
for one that is pending, and when it counts too many it locks. -/
def Counted (base : Nat) (key : LockoutKey) (s : Logins) : Prop :=
  failureCount s key ≤ base
    ∨ failureCount s key ≤ base + maxAttempts
      ∧ failureCount s key ≤ base + s.store.attempts key + 1
      ∧ (¬Pending key s → failureCount s key ≤ base + s.store.attempts key
        ∧ (maxAttempts ≤ s.store.attempts key → s.store.Locked key))

theorem lockout_apply_of_ne {cmd : Command} {key : LockoutKey} (h : cmd.lockoutKey ≠ some key) :
    (s.apply cmd).lockout key = s.lockout key := by
  cases cmd with
  | record key' time =>
    have hkey : key ≠ key' := by
      rintro rfl
      exact h rfl
    exact Keys.get_set_ne hkey
  | reset key' =>
    have hkey : key ≠ key' := by
      rintro rfl
      exact h rfl
    exact Keys.get_delete_ne hkey
  | _ => rfl

theorem failures_apply_of_ne {cmd : Command} {key : LockoutKey} (h : cmd.lockoutKey ≠ some key) :
    (s.apply cmd).failures.count key = s.failures.count key := by
  cases cmd with
  | fail key' =>
    have hkey : key' ≠ key := by
      rintro rfl
      exact h rfl
    simp [Store.apply, hkey]
  | _ => rfl

/-- The record and the lock are unchanged when the record and the clock are. -/
theorem attempts_congr {s' : Store} {key : LockoutKey} (h : s'.lockout key = s.lockout key) :
    s'.attempts key = s.attempts key := by
  rw [Store.attempts, Store.attempts, h]

theorem lockout_record (s : Store) (key : LockoutKey) (time : Nat) :
    (s.apply (.record key time)).lockout key = some (s.failedAttempt key time) :=
  Keys.get_eq_some.mpr ⟨_, Keys.entry_set_self, Nat.le_add_right _ _⟩

theorem attempts_record (s : Store) (key : LockoutKey) (time : Nat) :
    (s.apply (.record key time)).attempts key = s.attempts key + 1 := by
  rw [Store.attempts, lockout_record, Store.attempts]
  simp only [Option.elim_some, Store.failedAttempt]
  cases s.lockout key with
  | none => rfl
  | some ld =>
    by_cases hfull : ld.attempts + 1 ≥ maxAttempts <;> simp [hfull]

/-- A record that counts enough attempts locks, when it is written in time. -/
theorem locked_record {key : LockoutKey} {time : Nat}
    (htime : s.now < (time + lockDuration) * second) (h : maxAttempts ≤ s.attempts key + 1) :
    (s.apply (.record key time)).Locked key := by
  refine ⟨s.failedAttempt key time, lockout_record s key time, ?_⟩
  have huntil : (s.failedAttempt key time).lockedUntil = time + lockDuration := by
    rw [Store.attempts] at h
    rw [Store.failedAttempt]
    cases hld : s.lockout key with
    | none => simp [hld, maxAttempts] at h
    | some ld =>
      replace h : maxAttempts ≤ ld.attempts + 1 := by rwa [hld] at h
      simp [h]
  simp only [LockoutData.locked, huntil, now_apply, Bool.and_eq_true, decide_eq_true_eq]
  exact ⟨Nat.add_pos_right time (by simp [lockDuration]), htime⟩

theorem Pending.step {st : Logins} {key : LockoutKey} (h : Pending key st)
    (hk : st.calls[k]? = some c) (hnot : ∀ time, c.recording ≠ some (key, time)) :
    Pending key ((service sha256 G).step st (.exec k ok)) := by
  obtain ⟨j, c', hj, hfailing⟩ := h
  by_cases hjk : j = k
  · subst hjk
    rw [hk] at hj
    obtain rfl := Option.some.inj hj
    refine ⟨j, _, Calls.Service.step_exec_self hk ok, ?_⟩
    obtain ⟨req, pc⟩ := c
    cases pc with
    | readClock session err => exact hfailing
    | record session err time =>
      cases hfailing
      exact absurd rfl (hnot time)
    | _ => simp [Call.failing] at hfailing
  · exact ⟨j, c', (Calls.Service.step_exec_ne hjk ok).trans hj, hfailing⟩

theorem Counted.of_same {st next : Logins} {base : Nat} {key : LockoutKey}
    (h : Counted base key st) (hcount : failureCount next key = failureCount st key)
    (hlockout : next.store.lockout key = st.store.lockout key)
    (hlocked : st.store.Locked key → next.store.Locked key)
    (hpending : Pending key st → Pending key next) : Counted base key next := by
  rw [Counted, hcount, attempts_congr hlockout]
  refine h.imp_right ?_
  intro ⟨hmax, hnext, hrecorded⟩
  refine ⟨hmax, hnext, ?_⟩
  intro hnone
  obtain ⟨hle, hlock⟩ := hrecorded (fun hp => hnone (hpending hp))
  exact ⟨hle, fun hfull => hlocked (hlock hfull)⟩

/-- A failure while no other is pending and the account is not locked. -/
theorem Counted.fail {st next : Logins} {base : Nat} {key : LockoutKey} (h : Counted base key st)
    (hidle : ¬Pending key st) (hopen : ¬st.store.Locked key)
    (hcount : failureCount next key = failureCount st key + 1)
    (hattempts : next.store.attempts key = st.store.attempts key) (hnow : Pending key next) :
    Counted base key next := by
  rw [Counted, hcount, hattempts]
  right
  have hmax : 0 < maxAttempts := by decide
  rcases h with hbase | ⟨-, -, hrecorded⟩
  · exact ⟨by omega, by omega, fun hnone => absurd hnow hnone⟩
  · obtain ⟨hle, hlock⟩ := hrecorded hidle
    have hfew : ¬maxAttempts ≤ st.store.attempts key := fun hfull => hopen (hlock hfull)
    exact ⟨by omega, by omega, fun hnone => absurd hnow hnone⟩

theorem Counted.record {st next : Logins} {base : Nat} {key : LockoutKey}
    (h : Counted base key st) (hcount : failureCount next key = failureCount st key)
    (hattempts : next.store.attempts key = st.store.attempts key + 1)
    (hlocked : maxAttempts ≤ st.store.attempts key + 1 → next.store.Locked key) :
    Counted base key next := by
  rw [Counted, hcount, hattempts]
  refine h.imp_right ?_
  intro ⟨hmax, hle, _⟩
  exact ⟨hmax, by omega, fun _ => ⟨by omega, hlocked⟩⟩

theorem Counted.world {st : Logins} {base : Nat} {key : LockoutKey} (h : Counted base key st)
    {e : Event} (hquiet : Quiet key st (.world e)) :
    Counted base key ((service sha256 G).step st (.world e)) := by
  have hcount : failureCount ((service sha256 G).step st (.world e)) key = failureCount st key := by
    cases e <;> rfl
  have hlockout : (Login.world st.store e).1.lockout key = st.store.lockout key := by
    cases hld : st.store.lockout key with
    | some ld =>
      rw [hquiet.1 (by simp [hld]), hld]
    | none =>
      by_contra hsome
      obtain ⟨rec, hrec⟩ := Option.ne_none_iff_exists'.mp hsome
      rw [lockout_world hrec] at hld
      cases hld
  refine h.of_same hcount hlockout hquiet.2 ?_
  intro ⟨j, c, hj, hfailing⟩
  exact ⟨j, c, Calls.Service.step_world_of hj e, hfailing⟩

/-- A call whose step records no failure of the key is not about to. -/
theorem LockoutStep.not_recording {key : LockoutKey} {cmd : Command} {pc : VerifyPc}
    (h : LockoutStep s c ok cmd pc) (hcmd : cmd.lockoutKey ≠ some key)
    (hrecorded : ∀ r ∈ c.recording, r.1 = key → ok = true) (time : Nat) :
    c.recording ≠ some (key, time) := by
  intro hrecording
  cases h with
  | recorded =>
    cases hrecording
    exact hcmd rfl
  | unrecorded => cases hrecorded _ hrecording rfl
  | @outside c ok cmd pc _ hfailing _ =>
    obtain ⟨req, pc'⟩ := c
    cases pc' with
    | record session err time' => cases hfailing
    | _ => simp [Call.recording] at hrecording
  | _ => cases hrecording

theorem Counted.exec {st : Logins} {base : Nat} {key : LockoutKey} (h : Counted base key st)
    (hserial : Serial key st) (hk : st.calls[k]? = some c) (hok : OneAtATime key st (.exec k ok))
    (hquiet : Quiet key st (.exec k ok)) :
    Counted base key ((service sha256 G).step st (.exec k ok)) := by
  obtain ⟨-, hintime⟩ := hok c (Option.mem_def.mpr hk)
  have hnoreset : c.resetting ≠ some key := hquiet c (Option.mem_def.mpr hk)
  have hstep : LockoutStep st.store c ok (c.exec sha256 G st.store k ok).1
      (c.exec sha256 G st.store k ok).2 := exec_lockoutStep
  have hnext : ((service sha256 G).step st (.exec k ok)).calls[k]?
      = some ⟨c.req, (c.exec sha256 G st.store k ok).2⟩ := Calls.Service.step_exec_self hk ok
  have hstore : ((service sha256 G).step st (.exec k ok)).store
      = st.store.apply (c.exec sha256 G st.store k ok).1 := Calls.Service.step_exec_store hk ok
  have hpending : (∀ time, c.recording ≠ some (key, time)) → Pending key st →
      Pending key ((service sha256 G).step st (.exec k ok)) :=
    fun hnot hp => hp.step hk hnot
  generalize (service sha256 G).step st (.exec k ok) = next at hnext hstore hpending ⊢
  generalize (c.exec sha256 G st.store k ok).1 = cmd at hstep hstore
  generalize (c.exec sha256 G st.store k ok).2 = pc at hstep hnext
  by_cases hcmd : cmd.lockoutKey = some key
  · cases hstep with
    | @wrong req session err _ =>
      obtain rfl : lockoutKey session req = key := Option.some.inj hcmd
      -- an evaluation is alone, and not while the account is locked
      have hidle : ¬Pending (lockoutKey session req) st := by
        intro ⟨j, c', hj, hfailing⟩
        have hsame := hserial.alone j k c' _ hj hk (inSection_of_failing hfailing) rfl
        rw [hsame, hk] at hj
        obtain rfl := Option.some.inj hj
        cases hfailing
      refine h.fail hidle (hserial.unlocked k _ hk rfl) ?_ ?_ ⟨k, _, hnext, rfl⟩
      · simp [failureCount, hstore, Store.apply]
      · rw [hstore]
        rfl
    | @recorded req session err time =>
      obtain rfl : lockoutKey session req = key := Option.some.inj hcmd
      obtain ⟨-, htime⟩ := hintime _ rfl rfl
      refine h.record ?_ ?_ ?_
      · rw [failureCount, hstore]
        rfl
      · rw [hstore, attempts_record]
      · intro hfull
        rw [hstore]
        exact locked_record htime hfull
    | reset => exact absurd hcmd hnoreset
    | outside _ _ hother =>
      rw [hother] at hcmd
      cases hcmd
    | _ => cases hcmd
  · have hlockout : next.store.lockout key = st.store.lockout key := by
      rw [hstore, lockout_apply_of_ne hcmd]
    refine h.of_same ?_ hlockout ?_ ?_
    · rw [failureCount, hstore, failures_apply_of_ne hcmd]
      rfl
    · refine Store.Locked.congr ?_ ?_
      · intro rec hrec
        rwa [hlockout]
      · rw [hstore, now_apply]
    · exact hpending (hstep.not_recording hcmd fun r hr hkey => (hintime r hr hkey).1)

theorem serial_run {as : List Action} {key : LockoutKey}
    (hrun : Run.Each (service sha256 G).step (OneAtATime key) start as) :
    Serial key ((service sha256 G).run start as) := by
  have hstart : Serial key start := by
    constructor <;> simp [start]
  refine Calls.Service.preserves ?_ ?_ hrun hstart
  · intro st e hst _
    exact hst.world e
  · intro st k c ok hst hok hk
    exact hst.exec hk hok

theorem Counted.step {st : Logins} {base : Nat} {key : LockoutKey} (hserial : Serial key st)
    (h : Counted base key st) {a : Action} (hok : OneAtATime key st a) (hquiet : Quiet key st a) :
    Serial key ((service sha256 G).step st a) ∧ Counted base key ((service sha256 G).step st a) := by
  cases a with
  | world e => exact ⟨hserial.world e, h.world hquiet⟩
  | exec k ok =>
    cases hk : st.calls[k]? with
    | none =>
      rw [Calls.Service.step_exec_none hk]
      exact ⟨hserial, h⟩
    | some c => exact ⟨hserial.exec hk hok, h.exec hserial hk hok hquiet⟩

/-- A stretch without a success, the expiry of the lock or of the record. -/
theorem counted_run {base : Nat} {key : LockoutKey} (as : List Action) :
    ∀ {st : Logins}, Serial key st → Counted base key st →
      Run.Each (service sha256 G).step (OneAtATime key) st as →
      Run.Each (service sha256 G).step (Quiet key) st as →
      Counted base key ((service sha256 G).run st as) := by
  induction as with
  | nil => intro st _ h _ _; exact h
  | cons a as ih =>
    intro st hserial h hrun hquiet
    obtain ⟨hserial', h'⟩ := h.step hserial hrun.1 hquiet.1
    exact ih hserial' h' hrun.2 hquiet.2

/-- **The lockout of an account and a client address** bounds the failing
proofs and lets none be evaluated while locked, in every run in which no
verification checks the lock while another is between its check and its end,
and every failure is recorded in time. The bound is for a stretch without a
success, an expiry of the lock, or of the record. -/
theorem lockout_bounds (pre mid : List Action) (key : LockoutKey)
    (hrun : Run.Each (service sha256 G).step (OneAtATime key) start (pre ++ mid)) :
    (Run.Each (service sha256 G).step (Quiet key) ((service sha256 G).run start pre) mid →
        failureCount ((service sha256 G).run start (pre ++ mid)) key
          ≤ failureCount ((service sha256 G).run start pre) key + maxAttempts)
      ∧ ∀ (k : Nat) (c : Call), ((service sha256 G).run start (pre ++ mid)).calls[k]? = some c →
          c.evaluating = some key →
          ¬((service sha256 G).run start (pre ++ mid)).store.Locked key := by
  refine ⟨?_, (serial_run hrun).unlocked⟩
  intro hquiet
  obtain ⟨hpre, hmid⟩ := Run.Each.append.mp hrun
  have hcounted := counted_run mid (serial_run hpre) (.inl (le_refl _)) hmid hquiet
  rw [Calls.Service.run_append]
  rcases hcounted with hbase | ⟨hmax, -⟩
  · exact Nat.le_add_right_of_le hbase
  · exact hmax

/-- A login of the account `e` with a wrong proof, as call `i`, up to the
evaluation of the proof. -/
def sampleCheck (i : Nat) (clientIP : String) : List Action :=
  List.flatten
    [[.world (.init sampleState), .world (.verify (wrongProof i clientIP))],
     List.replicate 4 (.exec i true)]

/-- Its failure. -/
def sampleFailure (i : Nat) : List Action := List.replicate 3 (.exec i true)

def sampleFailures (first count : Nat) (clientIP : String) : List Action :=
  (List.range' first count).flatMap fun i => sampleCheck i clientIP ++ sampleFailure i

def sampleRun (as : List Action) : Logins :=
  (service (fun _ => oneVec) sampleGroup).run start as

theorem lockout_bounds_sample :
    failureCount (sampleRun ([] ++ sampleFailures 0 2 "1.2.3.4")) ("e", "1.2.3.4")
      ≤ failureCount (sampleRun []) ("e", "1.2.3.4") + maxAttempts :=
  (lockout_bounds [] (sampleFailures 0 2 "1.2.3.4") ("e", "1.2.3.4") (by decide +kernel)).1
    (by decide +kernel)

/-- After ten failures the first address is locked, and a proof from the
second is evaluated. -/
def sampleTwoAddresses : List Action :=
  sampleFailures 0 10 "1.2.3.4" ++ sampleCheck 10 "5.6.7.8"

/-- Nine failures, half an hour, and nine more. -/
def sampleRunOut : List Action :=
  sampleFailures 0 9 "1.2.3.4" ++ [.world (.tick (1801 * second))] ++ sampleFailures 9 9 "1.2.3.4"

/-- Eleven checks, and then ten failures. -/
def sampleOverlap : List Action :=
  (List.range 11).flatMap (sampleCheck · "1.2.3.4") ++ (List.range 10).flatMap sampleFailure

/-- **An account is not bounded by its lockout.** There is a lock for each
address; the record of failures runs out; and checks of the lock side by side
all come before the failures. -/
theorem lockout_evaded :
    ((∀ key ∈ [("e", "1.2.3.4"), ("e", "5.6.7.8")],
          Run.Each (service (fun _ => oneVec) sampleGroup).step (Quiet key) start
            (sampleTwoAddresses ++ sampleFailure 10))
        ∧ (sampleRun (sampleTwoAddresses ++ sampleFailure 10)).store.failures.countP
            (·.1 = "e") > maxAttempts
        ∧ (sampleRun sampleTwoAddresses).store.Locked ("e", "1.2.3.4")
        ∧ ((sampleRun sampleTwoAddresses).calls[10]?).bind Call.evaluating
            = some ("e", "5.6.7.8"))
      ∧ (Run.Each (service (fun _ => oneVec) sampleGroup).step
            (fun s _ => ¬s.store.Locked ("e", "1.2.3.4") ∧ ∀ c ∈ s.calls, c.resetting = none)
            start sampleRunOut
        ∧ failureCount (sampleRun sampleRunOut) ("e", "1.2.3.4") > maxAttempts)
      ∧ (sampleRun sampleOverlap).store.Locked ("e", "1.2.3.4")
      ∧ ((sampleRun sampleOverlap).calls[10]?).bind Call.evaluating
          = some ("e", "1.2.3.4") := by
  decide +kernel

end UsbVault.Auth.Login
