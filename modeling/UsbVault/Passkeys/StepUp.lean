import UsbVault.Passkeys.Challenges

/-!
# Step-up before enrolment

Without a recent login, a challenge for a further passkey is refused. A
challenge for the first is exempt, and stays good after the account has one:
of two that are open, both may be completed. Where an exempt challenge is
completed only while the account has no passkey, and no other enrolment is
about to be written, none is added to an account that has one
(`step_up_holds`).
-/

namespace UsbVault.Passkeys

open Expiring Tables Calls

variable {s : Store} {c : Call} {k : Nat} {o : Outcome} {userID : UserID}

/-- The account whose new credential a call is about to write. -/
def Call.enrolling : Call → Option UserID
  | .registerVerify userID _ (.update _ _ _) => some userID
  | _ => none

/-- The user's exempt challenge, and a response to it that is accepted. -/
def Call.CompletesExempt (userID : UserID) (o : Outcome) : Call → Prop
  | .registerVerify v _ (.finish session _) =>
    v = userID ∧ session.userID = some userID ∧ session.exempt ∧ o.credential.isSome
  | _ => False

instance (c : Call) : Decidable (c.CompletesExempt userID o) :=
  match c with
  | .registerVerify _ _ (.finish _ _) => inferInstanceAs (Decidable (_ ∧ _ ∧ _ ∧ _))
  | .registerVerify _ _ .getSession => isFalse id
  | .registerVerify _ _ (.deleteSession _) => isFalse id
  | .registerVerify _ _ (.readCredentials _) => isFalse id
  | .registerVerify _ _ (.update _ _ _) => isFalse id
  | .registerVerify _ _ (.succeeded _) => isFalse id
  | .registerVerify _ _ (.failed _) => isFalse id
  | .registerChallenge _ _ => isFalse id
  | .loginVerify _ _ => isFalse id
  | .deleteCredential _ _ _ => isFalse id

/-- The user asks for challenges and verifies them only: no login, and no
deletion. -/
def EnrolsOnly (userID : UserID) : Action → Prop
  | .world (.passwordLogin v) => v ≠ userID
  | .world (.request (.loginVerify req)) => req.userHandle ≠ userID
  | .world (.request (.deleteCredential v _)) => v ≠ userID
  | _ => True

instance : (a : Action) → Decidable (EnrolsOnly userID a)
  | .world (.passwordLogin _) => inferInstanceAs (Decidable (_ ≠ _))
  | .world (.request (.loginVerify _)) => inferInstanceAs (Decidable (_ ≠ _))
  | .world (.request (.deleteCredential _ _)) => inferInstanceAs (Decidable (_ ≠ _))
  | .world (.request (.registerChallenge _)) => isTrue trivial
  | .world (.request (.registerVerify _ _)) => isTrue trivial
  | .world (.tick _) => isTrue trivial
  | .world .loginChallenge => isTrue trivial
  | .exec _ _ => isTrue trivial

/-- An exempt challenge is completed only while the account has no passkey,
and no other enrolment of the user is about to be written. -/
def FirstOnly (userID : UserID) (s : State) : Action → Prop
  | .world _ => True
  | .exec k o => ∀ c ∈ s.calls[k]?, c.CompletesExempt userID o →
      s.store.credentials userID = [] ∧ ∀ c' ∈ s.calls, c'.enrolling ≠ some userID

instance (s : State) (a : Action) : Decidable (FirstOnly userID s a) :=
  match a with
  | .world _ => isTrue trivial
  | .exec k _ => inferInstanceAs (Decidable (∀ c ∈ s.calls[k]?, _ → _ ∧ ∀ c' ∈ s.calls, _))

/-! ## Statements -/

/-- The user has no marker of a recent login, and the challenges issued are
exempt. -/
structure NoStepUp (userID : UserID) (s : Store) : Prop where
  unmarked : s.reauth.entry userID = none
  exempt : ∀ key data last, s.sessions.entry key = some (data, last) →
    data.userID = some userID → data.exempt = true

/-- The challenges that a call issues or holds for the user are exempt; it is
none of the user's logins and deletions. -/
def Call.Unstepped (userID : UserID) : Call → Prop
  | .registerChallenge v (.setSession exempt) => v = userID → exempt = true
  | .registerChallenge _ _ => True
  | .registerVerify _ _ (.deleteSession session) => session.userID = some userID → session.exempt
  | .registerVerify _ _ (.readCredentials session) => session.userID = some userID → session.exempt
  | .registerVerify _ _ (.finish session _) => session.userID = some userID → session.exempt
  | .registerVerify _ _ _ => True
  | .loginVerify req _ => req.userHandle ≠ userID
  | .deleteCredential v _ _ => v ≠ userID

/-- Commands that leave the user's passkeys and marker alone, and issue
exempt challenges only. -/
def Command.Unstepped (userID : UserID) : Command → Prop
  | .setSession _ data => data.userID = some userID → data.exempt = true
  | .update v _ _ => v ≠ userID
  | .mark v => v ≠ userID
  | _ => True

theorem credentials_update_ne {v : UserID} {column : Option (List Credential)}
    {reported : Option Change} (h : v ≠ userID) :
    (s.update v column reported).credentials userID = s.credentials userID := by
  unfold Store.update
  split
  · simp [Store.credentials, Ne.symm h]
  · rfl

theorem NoStepUp.update {v : UserID} {column : Option (List Credential)}
    {reported : Option Change} (h : NoStepUp userID s) :
    NoStepUp userID (s.update v column reported) := by
  unfold Store.update
  split <;> exact ⟨h.unmarked, h.exempt⟩

theorem NoStepUp.apply {cmd : Command} (h : NoStepUp userID s) (hcmd : cmd.Unstepped userID) :
    NoStepUp userID (s.apply cmd) ∧ (s.apply cmd).credentials userID = s.credentials userID := by
  cases cmd with
  | nothing => exact ⟨h, rfl⟩
  | setSession kind data =>
    refine ⟨⟨h.unmarked, ?_⟩, rfl⟩
    intro key data' last hkey
    by_cases hne : key = ⟨kind, s.drawn⟩
    · subst hne
      simp only [Store.apply, Keys.entry_set_self, Option.some.injEq, Prod.mk.injEq] at hkey
      rw [← hkey.1]
      exact hcmd
    · simp only [Store.apply, ne_eq, hne, not_false_eq_true, Keys.entry_set_ne] at hkey
      exact h.exempt key data' last hkey
  | find key call => exact ⟨⟨h.unmarked, h.exempt⟩, rfl⟩
  | deleteSession key =>
    refine ⟨⟨h.unmarked, ?_⟩, rfl⟩
    intro key' data last hkey
    by_cases hne : key' = key
    · subst hne
      simp [Store.apply] at hkey
    · simp only [Store.apply, ne_eq, hne, not_false_eq_true, Keys.entry_delete_ne] at hkey
      exact h.exempt key' data last hkey
  | check key call => exact ⟨⟨h.unmarked, h.exempt⟩, rfl⟩
  | update v column reported => exact ⟨h.update, credentials_update_ne hcmd⟩
  | mark v =>
    refine ⟨⟨?_, h.exempt⟩, rfl⟩
    show (s.reauth.set s.now recentReauthTTL v ()).entry userID = none
    rw [Keys.entry_set_ne (Ne.symm hcmd)]
    exact h.unmarked

/-- What a statement of the call may be: it leaves the user's passkeys alone,
or writes an enrolment; and an enrolment begins when an exempt challenge is
completed. -/
def Call.Steps (userID : UserID) (c : Call) (o : Outcome) (next : Command × Call) : Prop :=
  next.2.Unstepped userID
    ∧ (next.1.Unstepped userID ∨ c.enrolling = some userID ∧ ∃ column reported,
        next.1 = .update userID column reported)
    ∧ (next.2.enrolling = some userID → c.CompletesExempt userID o)

theorem not_enrolling {next : Call} {P : Prop} (hnone : next.enrolling = none)
    (h : next.enrolling = some userID) : P := by
  rw [hnone] at h
  cases h

/-- A step that begins no enrolment and leaves the user's passkeys alone. -/
theorem Call.Steps.quiet {next : Command × Call} (hcmd : next.1.Unstepped userID)
    (hc' : next.2.Unstepped userID) (henrolling : next.2.enrolling = none) :
    c.Steps userID o next :=
  ⟨hc', .inl hcmd, not_enrolling henrolling⟩

theorem registerChallenge_steps {v : UserID} {pc : ChallengePc} (h : NoStepUp userID s)
    (hc : (Call.registerChallenge v pc).Unstepped userID) :
    (Call.registerChallenge v pc).Steps userID o
      ((Call.registerChallenge v pc).exec s k o) := by
  cases pc with
  | lookUpUser =>
    simp only [Call.exec, registerChallenge]
    split <;> exact .quiet trivial trivial rfl
  | readCredentials =>
    simp only [Call.exec, registerChallenge]
    generalize (if o.e = .done then s.credentials v else []) = credentials
    split
    · exact .quiet trivial trivial rfl
    · exact .quiet trivial (fun _ => rfl) rfl
  | checkReauth =>
    simp only [Call.exec, registerChallenge]
    split
    · exact .quiet trivial trivial rfl
    split
    · next hrecent =>
        -- not the user's: there is no marker
        refine .quiet trivial ?_ rfl
        rintro rfl
        simp [Store.recentReauth, Keys.get, h.unmarked] at hrecent
    · exact .quiet trivial trivial rfl
  | setSession exempt =>
    have hexempt : v = userID → exempt = true := hc
    simp only [Call.exec, registerChallenge]
    refine ⟨?_, .inl ?_, ?_⟩ <;> dsimp only
    · split <;> trivial
    · split
      · intro huser
        exact hexempt (Option.some.inj huser)
      · trivial
    · split <;> exact not_enrolling rfl
  | succeeded => exact .quiet trivial trivial rfl
  | failed err => exact .quiet trivial trivial rfl

theorem registerVerify_steps {v : UserID} {sessionID : Nat} {pc : RegisterPc}
    (h : NoStepUp userID s) (hc : (Call.registerVerify v sessionID pc).Unstepped userID) :
    (Call.registerVerify v sessionID pc).Steps userID o
      ((Call.registerVerify v sessionID pc).exec s k o) := by
  cases pc with
  | getSession =>
    simp only [Call.exec, registerVerify]
    split
    · next session hsession =>
        refine .quiet trivial ?_ rfl
        split at hsession
        · obtain ⟨last, hentry, -⟩ := Keys.get_eq_some.mp hsession
          exact h.exempt _ session last hentry
        · cases hsession
    · exact .quiet trivial trivial rfl
  | deleteSession session =>
    simp only [Call.exec, registerVerify]
    refine ⟨hc, .inl ?_, not_enrolling rfl⟩
    split <;> trivial
  | readCredentials session =>
    simp only [Call.exec, registerVerify]
    split
    · exact .quiet trivial trivial rfl
    · split
      · exact .quiet trivial trivial rfl
      · exact .quiet trivial hc rfl
  | finish session credentials =>
    simp only [Call.exec, registerVerify]
    split
    · next credential hcredential =>
        refine ⟨trivial, .inl trivial, ?_⟩
        intro henrolling
        obtain rfl : v = userID := Option.some.inj henrolling
        split at hcredential
        · next huser => exact ⟨rfl, huser, hc huser, by simp [hcredential]⟩
        · cases hcredential
    · exact .quiet trivial trivial rfl
  | update session credentials credential =>
    simp only [Call.exec, registerVerify]
    refine ⟨?_, ?_, ?_⟩ <;> dsimp only
    · split <;> trivial
    · by_cases hv : v = userID
      · subst hv
        split
        · exact .inr ⟨rfl, _, _, rfl⟩
        · exact .inl trivial
      · left
        split
        · exact hv
        · trivial
    · split <;> exact not_enrolling rfl
  | succeeded id => exact .quiet trivial trivial rfl
  | failed err => exact .quiet trivial trivial rfl

theorem loginVerify_steps {req : LoginRequest} {pc : LoginPc}
    (hc : (Call.loginVerify req pc).Unstepped userID) :
    (Call.loginVerify req pc).Steps userID o ((Call.loginVerify req pc).exec s k o) := by
  have hother : req.userHandle ≠ userID := hc
  refine ⟨hc, .inl ?_, not_enrolling rfl⟩
  cases pc with
  | getSession =>
    simp only [Call.exec, loginVerify]
    split <;> trivial
  | deleteSession =>
    simp only [Call.exec, loginVerify]
    split <;> trivial
  | resolve =>
    simp only [Call.exec, loginVerify]
    split
    · trivial
    · split <;> trivial
  | update credentials count =>
    simp only [Call.exec, loginVerify]
    split
    · exact hother
    · trivial
  | mark =>
    simp only [Call.exec, loginVerify]
    split
    · exact hother
    · trivial
  | _ => trivial

theorem deleteCredential_steps {v : UserID} {credentialID : CredentialID} {pc : DeletePc}
    (hc : (Call.deleteCredential v credentialID pc).Unstepped userID) :
    (Call.deleteCredential v credentialID pc).Steps userID o
      ((Call.deleteCredential v credentialID pc).exec s k o) := by
  have hother : v ≠ userID := hc
  refine ⟨hc, .inl ?_, not_enrolling rfl⟩
  cases pc with
  | readCredentials =>
    simp only [Call.exec, deleteCredential]
    split
    · trivial
    · split <;> trivial
  | update credentials =>
    simp only [Call.exec, deleteCredential]
    split
    · exact hother
    · trivial
  | _ => trivial

/-- **A statement of a call.** -/
theorem Call.exec_steps (h : NoStepUp userID s) (hc : c.Unstepped userID) :
    c.Steps userID o (c.exec s k o) := by
  cases c with
  | registerChallenge v pc => exact registerChallenge_steps h hc
  | registerVerify v sessionID pc => exact registerVerify_steps h hc
  | loginVerify req pc => exact loginVerify_steps hc
  | deleteCredential v credentialID pc => exact deleteCredential_steps hc

/-! ## Runs -/

/-- At most one enrolment of the user is about to be written, and then the
account has no passkey. -/
structure Guarded (userID : UserID) (st : State) : Prop where
  store : NoStepUp userID st.store
  call : ∀ (k : Nat) (c : Call), st.calls[k]? = some c → c.Unstepped userID
  empty : ∀ (k : Nat) (c : Call), st.calls[k]? = some c → c.enrolling = some userID →
    st.store.credentials userID = []
  alone : ∀ (j k : Nat) (c c' : Call), st.calls[j]? = some c → st.calls[k]? = some c' →
    c.enrolling = some userID → c'.enrolling = some userID → j = k

theorem NoStepUp.world {e : Event} (h : NoStepUp userID s)
    (hdomain : EnrolsOnly userID (.world e)) :
    NoStepUp userID (world s e).1 ∧ (world s e).1.credentials userID = s.credentials userID := by
  cases e with
  | tick milliseconds => exact ⟨⟨h.unmarked, h.exempt⟩, rfl⟩
  | loginChallenge =>
    have hcmd : (Command.setSession .login ⟨none, false⟩).Unstepped userID := nofun
    exact h.apply hcmd
  | passwordLogin v =>
    have hcmd : (Command.mark v).Unstepped userID := hdomain
    exact h.apply hcmd
  | request req => exact ⟨h, rfl⟩

theorem Request.call_unstepped {req : Request}
    (hdomain : EnrolsOnly userID (.world (.request req))) :
    req.call.Unstepped userID ∧ req.call.enrolling = none := by
  cases req with
  | registerChallenge v => exact ⟨trivial, rfl⟩
  | registerVerify v sessionID => exact ⟨trivial, rfl⟩
  | loginVerify req => exact ⟨hdomain, rfl⟩
  | deleteCredential v credentialID => exact ⟨hdomain, rfl⟩

theorem Guarded.world {st : State} {e : Event} (h : Guarded userID st)
    (hdomain : EnrolsOnly userID (.world e)) :
    Guarded userID (service.step st (.world e))
      ∧ (service.step st (.world e)).store.credentials userID = st.store.credentials userID := by
  obtain ⟨hstore, hsame⟩ := h.store.world hdomain
  have hold : ∀ (k : Nat) (c : Call), (service.step st (.world e)).calls[k]? = some c →
      st.calls[k]? = some c ∨ c.Unstepped userID ∧ c.enrolling = none := by
    intro k c hk
    rcases Service.of_step_world hk with hbefore | ⟨-, hcall⟩
    · exact .inl hbefore
    · right
      cases e with
      | request req =>
        obtain rfl := Option.some.inj hcall
        exact Request.call_unstepped hdomain
      | _ => cases hcall
  refine ⟨⟨hstore, ?_, ?_, ?_⟩, hsame⟩
  · intro k c hk
    rcases hold k c hk with hbefore | ⟨hnew, -⟩
    · exact h.call k c hbefore
    · exact hnew
  · intro k c hk henrolling
    rcases hold k c hk with hbefore | ⟨-, hnone⟩
    · exact hsame.trans (h.empty k c hbefore henrolling)
    · rw [hnone] at henrolling
      cases henrolling
  · intro j k c c' hj hk hc hc'
    rcases hold j c hj with hbefore | ⟨-, hnone⟩
    · rcases hold k c' hk with hbefore' | ⟨-, hnone'⟩
      · exact h.alone j k c c' hbefore hbefore' hc hc'
      · rw [hnone'] at hc'
        cases hc'
    · rw [hnone] at hc
      cases hc

theorem not_completes_of_enrolling (h : c.enrolling = some userID) :
    ¬c.CompletesExempt userID o := by
  cases c with
  | registerVerify v sessionID pc => cases pc <;> first | exact id | cases h
  | _ => exact id

/-- **A statement** keeps the guard, and the passkeys of an account that has
one. -/
theorem Guarded.exec {st : State} (h : Guarded userID st) (hk : st.calls[k]? = some c)
    (hok : FirstOnly userID st (.exec k o)) :
    Guarded userID (service.step st (.exec k o))
      ∧ (st.store.credentials userID ≠ [] →
        (service.step st (.exec k o)).store.credentials userID
          = st.store.credentials userID) := by
  have hfirst := hok c (Option.mem_def.mpr hk)
  obtain ⟨hself', heffect, hbegins⟩ :=
    Call.exec_steps (k := k) (o := o) h.store (h.call k c hk)
  refine Service.after_exec (P := fun next => Guarded userID next ∧
    (st.store.credentials userID ≠ [] →
      next.store.credentials userID = st.store.credentials userID)) hk o ?_
  intro next (hstore : next.store = st.store.apply (c.exec st.store k o).1)
    (hself : next.calls[k]? = some (c.exec st.store k o).2) hothers
  generalize (c.exec st.store k o).1 = cmd at hstore heffect
  generalize (c.exec st.store k o).2 = c' at hself hself' hbegins
  -- an enrolment that is about to be written was so before, or begins here
  have hold : ∀ (j : Nat) (d : Call), next.calls[j]? = some d →
      (j ≠ k ∧ st.calls[j]? = some d) ∨ j = k ∧ d = c' := by
    intro j d hj
    by_cases hjk : j = k
    · subst hjk
      exact .inr ⟨rfl, Option.some.inj (hj.symm.trans hself)⟩
    · exact .inl ⟨hjk, (hothers j hjk).symm.trans hj⟩
  have hcalls : ∀ (j : Nat) (d : Call), next.calls[j]? = some d → d.Unstepped userID := by
    intro j d hj
    rcases hold j d hj with ⟨-, hbefore⟩ | ⟨-, rfl⟩
    · exact h.call j d hbefore
    · exact hself'
  rcases heffect with hcmd | ⟨henrolling, column, reported, rfl⟩
  · obtain ⟨hnext, hsame⟩ := h.store.apply hcmd
    rw [← hstore] at hnext hsame
    refine ⟨⟨hnext, hcalls, ?_, ?_⟩, fun _ => hsame⟩
    · intro j d hj hd
      rw [hsame]
      rcases hold j d hj with ⟨-, hbefore⟩ | ⟨-, rfl⟩
      · exact h.empty j d hbefore hd
      · exact (hfirst (hbegins hd)).1
    · intro i j d d' hi hj hd hd'
      rcases hold i d hi with ⟨-, hbefore⟩ | ⟨rfl, rfl⟩
      · rcases hold j d' hj with ⟨-, hbefore'⟩ | ⟨rfl, rfl⟩
        · exact h.alone i j d d' hbefore hbefore' hd hd'
        · exact absurd hd ((hfirst (hbegins hd')).2 d (List.mem_of_getElem? hbefore))
      · rcases hold j d' hj with ⟨-, hbefore'⟩ | ⟨rfl, -⟩
        · exact absurd hd' ((hfirst (hbegins hd)).2 d' (List.mem_of_getElem? hbefore'))
        · rfl
  · -- the one enrolment is written
    have hempty := h.empty k c hk henrolling
    have hnone : ∀ (j : Nat) (d : Call), next.calls[j]? = some d →
        d.enrolling ≠ some userID := by
      intro j d hj hd
      rcases hold j d hj with ⟨hne, hbefore⟩ | ⟨rfl, rfl⟩
      · exact hne (h.alone j k d c hbefore hk hd henrolling)
      · exact not_completes_of_enrolling henrolling (hbegins hd)
    refine ⟨⟨?_, hcalls, ?_, ?_⟩, fun hne => absurd hempty hne⟩
    · rw [hstore]
      exact h.store.update
    · intro j d hj hd
      exact absurd hd (hnone j d hj)
    · intro i j d d' hi _ hd _
      exact absurd hd (hnone i d hi)

/-- The guard, and the user's passkeys as given. -/
def Still (userID : UserID) (credentials : List Credential) (st : State) : Prop :=
  Guarded userID st ∧ st.store.credentials userID = credentials

theorem guarded_start (users : UserID → Option UserRow) : Guarded userID (start users) := by
  constructor
  · constructor <;> simp [start, Keys.empty]
  · intro k c hk
    simp [start] at hk
  · intro k c hk
    simp [start] at hk
  · intro j k c c' hj
    simp [start] at hj

/-- **No further passkey without a step-up** in every run of the user's
challenges and verifications, with any requests of others beside them, in
which an exempt challenge is completed only while the account has no passkey
and no other enrolment is about to be written: once the account has one, its
passkeys stay as they are. -/
theorem step_up_holds {users : UserID → Option UserRow} {pre post : List Action}
    (hdomain : ∀ a ∈ pre ++ post, EnrolsOnly userID a)
    (hrun : Run.Each service.step (FirstOnly userID) (start users) (pre ++ post))
    (hone : (service.run (start users) pre).store.credentials userID ≠ []) :
    (service.run (start users) (pre ++ post)).store.credentials userID
      = (service.run (start users) pre).store.credentials userID := by
  have hboth := hrun.and_forall hdomain
  obtain ⟨hpre, hpost⟩ := Run.Each.append.mp hboth
  have hmid : Guarded userID (service.run (start users) pre) := by
    refine Service.preserves ?_ ?_ hpre (guarded_start users)
    · intro st e h hok
      exact (h.world hok.2).1
    · intro st k c o h hok hk
      exact (h.exec hk hok.1).1
  change Run.Each service.step _ (service.run (start users) pre) post at hpost
  rw [Service.run_append]
  generalize service.run (start users) pre = mid at hone hpost hmid ⊢
  have hend : Still userID (mid.store.credentials userID) (service.run mid post) := by
    refine Service.preserves ?_ ?_ hpost ⟨hmid, rfl⟩
    · rintro st e ⟨h, hsame⟩ hok
      obtain ⟨hnext, hkept⟩ := h.world hok.2
      exact ⟨hnext, hkept.trans hsame⟩
    · rintro st k c o ⟨h, hsame⟩ hok hk
      obtain ⟨hnext, hkept⟩ := h.exec hk hok.1
      exact ⟨hnext, (hkept (by rwa [hsame])).trans hsame⟩
  exact hend.2

/-- An account without passkeys. -/
def newUsers (userID : UserID) : Option UserRow :=
  if userID = "u" then some ⟨none, true⟩ else none

/-- A statement that is answered, where the library accepts the attestation. -/
def attested (id : CredentialID) : Outcome := ⟨.done, some ⟨id, 0⟩, none, false⟩

/-- Two challenges at once, each of which is exempt. -/
def sampleChallenges : List Action :=
  List.flatten
    [[.world (.request (.registerChallenge "u")), .world (.request (.registerChallenge "u"))],
     List.replicate 3 (.exec 0 (attested "a")), List.replicate 3 (.exec 1 (attested "b"))]

/-- The first challenge is completed. -/
def sampleFirst : List Action :=
  List.flatten
    [sampleChallenges, [.world (.request (.registerVerify "u" 0))],
     List.replicate 5 (.exec 2 (attested "a"))]

/-- A challenge afterwards, and a verification whose attestation is refused. -/
def sampleRefused : List Action :=
  List.flatten
    [[.world (.request (.registerChallenge "u"))], List.replicate 3 (.exec 3 (attested "c")),
     [.world (.request (.registerVerify "u" 1))],
     List.replicate 4 (.exec 4 ⟨.done, none, none, false⟩)]

theorem step_up_holds_sample :
    (service.run (start newUsers) (sampleFirst ++ sampleRefused)).store.credentials "u"
      = (service.run (start newUsers) sampleFirst).store.credentials "u" :=
  step_up_holds (by decide) (by decide) (by decide)

/-- The second challenge is completed too. -/
theorem step_up_bypassed :
    ¬∀ (userID : UserID) (users : UserID → Option UserRow) (pre post : List Action),
      (∀ a ∈ pre ++ post, EnrolsOnly userID a) →
      (service.run (start users) pre).store.credentials userID ≠ [] →
      (service.run (start users) (pre ++ post)).store.credentials userID
        = (service.run (start users) pre).store.credentials userID := by
  intro h
  have hsame := h "u" newUsers sampleFirst
    ([.world (.request (.registerVerify "u" 1))] ++ List.replicate 5 (.exec 3 (attested "b")))
    (by decide) (by decide)
  revert hsame
  decide

end UsbVault.Passkeys
