import UsbVault.Passkeys.Credentials

/-!
# Challenges are used once

A verification fetches its session and deletes it by two commands, and the
deletion's error is not looked at. Where no verification fetches a session
between the two commands of another, and the deletion is executed, no two
responses are checked against one challenge (`challenge_used_once`).
-/

namespace UsbVault.Passkeys

open Expiring Tables Calls

variable {s : Store} {c : Call} {k : Nat} {o : Outcome}

/-- The session a call is about to fetch. -/
def Call.fetching : Call → Option SessionKey
  | .registerVerify _ sessionID .getSession => some ⟨.register, sessionID⟩
  | .loginVerify req .getSession => some ⟨.login, req.sessionID⟩
  | _ => none

/-- The session a call has fetched and is about to delete. -/
def Call.deleting : Call → Option SessionKey
  | .registerVerify _ sessionID (.deleteSession _) => some ⟨.register, sessionID⟩
  | .loginVerify req .deleteSession => some ⟨.login, req.sessionID⟩
  | _ => none

/-- The session a call has fetched and not yet checked its response against. -/
def Call.holding : Call → Option SessionKey
  | .registerVerify _ sessionID (.deleteSession _) => some ⟨.register, sessionID⟩
  | .registerVerify _ sessionID (.readCredentials _) => some ⟨.register, sessionID⟩
  | .registerVerify _ sessionID (.finish _ _) => some ⟨.register, sessionID⟩
  | .loginVerify req .deleteSession => some ⟨.login, req.sessionID⟩
  | .loginVerify req .resolve => some ⟨.login, req.sessionID⟩
  | _ => none

/-- The sessions as one-time keys. -/
def challenges : OneTime.View Store Call Outcome SessionKey SessionData where
  keys s := s.sessions
  clock s := s.now
  issued s key := key.id < s.drawn
  found s := s.found.map fun f => (f.key, f.call)
  fetching := Call.fetching
  deleting := Call.deleting
  executed o := decide o.e.Took

/-! ## A statement -/

/-- Commands that neither fetch, delete nor check. -/
def Command.Apart : Command → Prop
  | .nothing => True
  | .setSession _ _ => True
  | .update _ _ _ => True
  | .mark _ => True
  | .find _ _ => False
  | .deleteSession _ => False
  | .check _ _ => False

/-- What the step of a call has to do with sessions. -/
inductive SessionStep (s : Store) (k : Nat) (c : Call) (o : Outcome) : Command → Call → Prop where
  | finds {key : SessionKey} {session : SessionData} {c' : Call} (hfetching : c.fetching = some key)
      (hidle : c.deleting = none) (he : o.e = .done) (h : s.session key = some session)
      (hdeleting : c'.deleting = some key) (hholding : c'.holding = some key) : SessionStep s k c o (.find key k) c'
  | deletes {key : SessionKey} {c' : Call} (hdeleting : c.deleting = some key)
      (hholding : c'.holding = c.holding) (hdone : c'.deleting = none) :
      SessionStep s k c o (if o.e.Took then .deleteSession key else .nothing) c'
  | checks {key : SessionKey} {c' : Call} (hholding : c.holding = some key)
      (hdeleting : c.deleting = none) (hdone : c'.holding = none) (hdone' : c'.deleting = none) :
      SessionStep s k c o (.check key k) c'
  | apart {cmd : Command} {c' : Call} (hdeleting : c.deleting = none) (hapart : cmd.Apart)
      (hdone : c'.deleting = none) (hholding : c'.holding = none ∨ c'.holding = c.holding) : SessionStep s k c o cmd c'

theorem registerChallenge_step {userID : UserID} {pc : ChallengePc} :
    SessionStep s k (.registerChallenge userID pc) o
      ((Call.registerChallenge userID pc).exec s k o).1
      ((Call.registerChallenge userID pc).exec s k o).2 := by
  refine .apart rfl ?_ rfl (.inl rfl)
  cases pc with
  | setSession exempt =>
    simp only [Call.exec, registerChallenge]
    split <;> trivial
  | _ => trivial

theorem registerVerify_step {userID : UserID} {sessionID : Nat} {pc : RegisterPc} :
    SessionStep s k (.registerVerify userID sessionID pc) o
      ((Call.registerVerify userID sessionID pc).exec s k o).1
      ((Call.registerVerify userID sessionID pc).exec s k o).2 := by
  cases pc with
  | getSession =>
    simp only [Call.exec, registerVerify]
    split
    · next session h =>
        split at h
        · next he => exact .finds rfl rfl he h rfl rfl
        · cases h
    · exact .apart rfl trivial rfl (.inl rfl)
  | deleteSession session => exact .deletes rfl rfl rfl
  | readCredentials session =>
    simp only [Call.exec, registerVerify]
    split
    · exact .apart rfl trivial rfl (.inl rfl)
    · split
      · exact .apart rfl trivial rfl (.inl rfl)
      · exact .apart rfl trivial rfl (.inr rfl)
  | finish session credentials =>
    simp only [Call.exec, registerVerify]
    split <;> exact .checks rfl rfl rfl rfl
  | update session credentials credential =>
    simp only [Call.exec, registerVerify]
    refine .apart rfl ?_ ?_ (.inl ?_)
    · split <;> trivial
    · split <;> rfl
    · split <;> rfl
  | succeeded id => exact .apart rfl trivial rfl (.inl rfl)
  | failed err => exact .apart rfl trivial rfl (.inl rfl)

theorem loginVerify_step {req : LoginRequest} {pc : LoginPc} :
    SessionStep s k (.loginVerify req pc) o ((Call.loginVerify req pc).exec s k o).1
      ((Call.loginVerify req pc).exec s k o).2 := by
  cases pc with
  | getSession =>
    simp only [Call.exec, loginVerify]
    split
    · next session h =>
        split at h
        · next he => exact .finds rfl rfl he h rfl rfl
        · cases h
    · exact .apart rfl trivial rfl (.inl rfl)
  | deleteSession => exact .deletes rfl rfl rfl
  | resolve =>
    simp only [Call.exec, loginVerify]
    split
    · exact .checks rfl rfl rfl rfl
    · split <;> exact .checks rfl rfl rfl rfl
  | checkFlag credentials count =>
    simp only [Call.exec, loginVerify]
    refine .apart rfl trivial ?_ (.inl ?_)
    · split_ifs <;> rfl
    · split_ifs <;> rfl
  | update credentials count =>
    simp only [Call.exec, loginVerify]
    refine .apart rfl ?_ rfl (.inl rfl)
    split <;> trivial
  | issueTokens =>
    simp only [Call.exec, loginVerify]
    refine .apart rfl trivial ?_ (.inl ?_)
    · split <;> rfl
    · split <;> rfl
  | mark =>
    simp only [Call.exec, loginVerify]
    refine .apart rfl ?_ rfl (.inl rfl)
    split <;> trivial
  | succeeded => exact .apart rfl trivial rfl (.inl rfl)
  | failed err => exact .apart rfl trivial rfl (.inl rfl)

theorem deleteCredential_step {userID : UserID} {credentialID : CredentialID} {pc : DeletePc} :
    SessionStep s k (.deleteCredential userID credentialID pc) o
      ((Call.deleteCredential userID credentialID pc).exec s k o).1
      ((Call.deleteCredential userID credentialID pc).exec s k o).2 := by
  refine .apart rfl ?_ rfl (.inl rfl)
  cases pc with
  | readCredentials =>
    simp only [Call.exec, deleteCredential]
    split
    · trivial
    · split <;> trivial
  | update credentials =>
    simp only [Call.exec, deleteCredential]
    split <;> trivial
  | _ => trivial

theorem exec_sessionStep : SessionStep s k c o (c.exec s k o).1 (c.exec s k o).2 := by
  cases c with
  | registerChallenge userID pc => exact registerChallenge_step
  | registerVerify userID sessionID pc => exact registerVerify_step
  | loginVerify req pc => exact loginVerify_step
  | deleteCredential userID credentialID pc => exact deleteCredential_step

/-! ## Found once -/

theorem users_update (s : Store) (userID : UserID) (column : Option (List Credential))
    (reported : Option Change) :
    (s.update userID column reported).sessions = s.sessions
      ∧ (s.update userID column reported).now = s.now
      ∧ (s.update userID column reported).drawn = s.drawn
      ∧ (s.update userID column reported).stored = s.stored
      ∧ (s.update userID column reported).found = s.found
      ∧ (s.update userID column reported).checked = s.checked := by
  unfold Store.update
  split <;> exact ⟨rfl, rfl, rfl, rfl, rfl, rfl⟩

theorem idle_setSession {kind : Kind} {data : SessionData} :
    challenges.Idle s (s.apply (.setSession kind data)) where
  found := rfl
  issued key h := Nat.lt_succ_of_lt h
  stored key h := by
    by_cases hkey : key = ⟨kind, s.drawn⟩
    · right
      rw [hkey]
      exact Nat.lt_succ_self _
    · left
      simpa [challenges, Store.apply, Keys.Marked, hkey] using h
  gone key h hnone := by
    have hne : key ≠ ⟨kind, s.drawn⟩ := by
      rintro rfl
      exact Nat.lt_irrefl _ h
    exact (Keys.get_set_ne hne).trans hnone

theorem idle_of_same {s' : Store} (hsessions : s'.sessions = s.sessions) (hnow : s.now ≤ s'.now)
    (hdrawn : s'.drawn = s.drawn) (hfound : s'.found = s.found) : challenges.Idle s s' where
  found := by simp only [challenges, hfound]
  issued key h := by simpa only [challenges, hdrawn] using h
  stored key h := by
    left
    simpa only [challenges, hsessions] using h
  gone key _ hnone := by
    show s'.sessions.get s'.now key = none
    rw [hsessions]
    exact Keys.get_eq_none_mono hnow hnone

theorem idle_apart {cmd : Command} (h : cmd.Apart) : challenges.Idle s (s.apply cmd) := by
  cases cmd with
  | nothing => exact idle_of_same rfl (Nat.le_refl _) rfl rfl
  | setSession kind data => exact idle_setSession
  | update userID column reported =>
    obtain ⟨hsessions, hnow, hdrawn, -, hfound, -⟩ :=
      users_update s userID column reported
    exact idle_of_same hsessions (le_of_eq hnow.symm) hdrawn hfound
  | mark userID => exact idle_of_same rfl (Nat.le_refl _) rfl rfl
  | find key call => exact absurd h id
  | deleteSession key => exact absurd h id
  | check key call => exact absurd h id

theorem idle_deleteSession {key : SessionKey} :
    challenges.Idle s (s.apply (.deleteSession key)) where
  found := rfl
  issued _ h := h
  stored key' h := by
    left
    by_cases hkey : key' = key
    · simp [challenges, Store.apply, Keys.Marked, hkey] at h
    · simpa [challenges, Store.apply, Keys.Marked, hkey] using h
  gone key' _ hnone := by
    by_cases hkey : key' = key
    · subst hkey
      exact Keys.get_delete_self
    · exact (Keys.get_delete_ne hkey).trans hnone

theorem idle_world {e : Event} : challenges.Idle s (world s e).1 := by
  cases e with
  | tick milliseconds => exact idle_of_same rfl (Nat.le_add_right _ _) rfl rfl
  | loginChallenge => exact idle_setSession
  | passwordLogin userID => exact idle_of_same rfl (Nat.le_refl _) rfl rfl
  | request req => exact idle_of_same rfl (Nat.le_refl _) rfl rfl

theorem exec_viewStep :
    challenges.Step k s c o (s.apply (c.exec s k o).1) (c.exec s k o).2 := by
  have hstep : SessionStep s k c o (c.exec s k o).1 (c.exec s k o).2 := exec_sessionStep
  generalize (c.exec s k o).1 = cmd at hstep
  generalize (c.exec s k o).2 = c' at hstep
  cases hstep with
  | @finds key session c' hfetching hidle he h hdeleting hholding =>
    refine .finds key hfetching hidle ?_ ?_ hdeleting ⟨?_, rfl, rfl, rfl⟩
    · simp [challenges, he]
    · show (s.session key).isSome
      rw [h]
      rfl
    · simp [challenges, Store.apply]
  | @deletes key c' hdeleting hholding hdone =>
    by_cases htook : o.e.Took
    · rw [if_pos htook]
      refine .idle idle_deleteSession ?_
      intro key' hkey
      obtain rfl : key = key' := Option.some.inj (hdeleting.symm.trans hkey)
      exact .inr fun _ => Keys.get_delete_self
    · rw [if_neg htook]
      refine .idle (idle_of_same rfl (Nat.le_refl _) rfl rfl) ?_
      intro key' _
      exact .inr fun hexecuted => absurd (of_decide_eq_true hexecuted) htook
  | checks hholding hdeleting hdone hdone' =>
    refine .idle (idle_of_same rfl (Nat.le_refl _) rfl rfl) ?_
    intro key' hkey
    rw [show challenges.deleting c = c.deleting from rfl, hdeleting] at hkey
    cases hkey
  | apart hdeleting hapart hdone hholding =>
    refine .idle (idle_apart hapart) ?_
    intro key' hkey
    rw [show challenges.deleting c = c.deleting from rfl, hdeleting] at hkey
    cases hkey

/-! ## Checked in time -/

/-- Sessions are found within their lifetime, and checked by a call that has
found them. -/
structure Recorded (s : Store) : Prop where
  entry : ∀ key data last, s.sessions.entry key = some (data, last) →
    ∃ time, s.stored key = some time ∧ last = time + challengeTTL
  drawn : ∀ key time, s.stored key = some time → key.id < s.drawn
  found : ∀ f ∈ s.found, ∃ time, s.stored f.key = some time ∧ f.time ≤ time + challengeTTL
  checked : ∀ key k, (key, k) ∈ s.checked → ∃ f ∈ s.found, f.key = key ∧ f.call = k

/-- The call has found the session that it holds. -/
def Holder (s : Store) (k : Nat) (c : Call) : Prop :=
  ∀ key ∈ c.holding, ∃ f ∈ s.found, f.key = key ∧ f.call = k

theorem Holder.mono {s' : Store} (h : Holder s k c) (hfound : ∀ f ∈ s.found, f ∈ s'.found) :
    Holder s' k c := by
  intro key hkey
  obtain ⟨f, hf, heq⟩ := h key hkey
  exact ⟨f, hfound f hf, heq⟩

theorem Recorded.of_same {s' : Store} (h : Recorded s)
    (hentry : ∀ key e, s'.sessions.entry key = some e → s.sessions.entry key = some e)
    (hstored : s'.stored = s.stored) (hdrawn : s'.drawn = s.drawn) (hfound : s'.found = s.found)
    (hchecked : s'.checked = s.checked) : Recorded s' where
  entry key data last hkey := by
    rw [hstored]
    exact h.entry key data last (hentry key _ hkey)
  drawn := by
    rw [hstored, hdrawn]
    exact h.drawn
  found := by
    rw [hstored, hfound]
    exact h.found
  checked := by
    rw [hfound, hchecked]
    exact h.checked

theorem Recorded.setSession {kind : Kind} {data : SessionData} (h : Recorded s) :
    Recorded (s.apply (.setSession kind data)) := by
  have hold : ∀ key time, s.stored key = some time →
      (s.apply (.setSession kind data)).stored key = some time := by
    intro key time hkey
    have hne : key ≠ ⟨kind, s.drawn⟩ := by
      rintro rfl
      exact Nat.lt_irrefl _ (h.drawn _ time hkey)
    simpa [Store.apply, hne] using hkey
  refine ⟨?_, ?_, ?_, h.checked⟩
  · intro key data' last hkey
    by_cases hne : key = ⟨kind, s.drawn⟩
    · subst hne
      simp only [Store.apply, Keys.entry_set_self, Option.some.injEq, Prod.mk.injEq] at hkey
      exact ⟨s.now, by simp [Store.apply], hkey.2.symm⟩
    · simp only [Store.apply, ne_eq, hne, not_false_eq_true, Keys.entry_set_ne] at hkey
      obtain ⟨time, htime, hlast⟩ := h.entry key data' last hkey
      exact ⟨time, hold key time htime, hlast⟩
  · intro key time hkey
    by_cases hne : key = ⟨kind, s.drawn⟩
    · rw [hne]
      exact Nat.lt_succ_self _
    · have hkey' : s.stored key = some time := by simpa [Store.apply, hne] using hkey
      exact Nat.lt_succ_of_lt (h.drawn key time hkey')
  · intro f hf
    obtain ⟨time, htime, hle⟩ := h.found f hf
    exact ⟨time, hold _ time htime, hle⟩

theorem Recorded.find {key : SessionKey} {session : SessionData} (h : Recorded s)
    (hsession : s.session key = some session) : Recorded (s.apply (.find key k)) where
  entry := h.entry
  drawn := h.drawn
  found f hf := by
    have hcases : f ∈ s.found ∨ f = ⟨key, k, s.now⟩ := by simpa [Store.apply] using hf
    rcases hcases with hold | rfl
    · exact h.found f hold
    · obtain ⟨last, hentry, hle⟩ := Keys.get_eq_some.mp hsession
      obtain ⟨time, htime, rfl⟩ := h.entry key session last hentry
      exact ⟨time, htime, hle⟩
  checked key' k' hmem := by
    obtain ⟨f, hf, heq⟩ := h.checked key' k' hmem
    exact ⟨f, List.mem_append_left _ hf, heq⟩

theorem Recorded.check {key : SessionKey} (h : Recorded s)
    (hfinder : ∃ f ∈ s.found, f.key = key ∧ f.call = k) : Recorded (s.apply (.check key k)) where
  entry := h.entry
  drawn := h.drawn
  found := h.found
  checked key' k' hmem := by
    have hcases : (key', k') ∈ s.checked ∨ key' = key ∧ k' = k := by
      simpa [Store.apply] using hmem
    rcases hcases with hold | ⟨rfl, rfl⟩
    · exact h.checked key' k' hold
    · exact hfinder

theorem Recorded.apart {cmd : Command} (h : Recorded s) (hapart : cmd.Apart) :
    Recorded (s.apply cmd) := by
  cases cmd with
  | nothing => exact h
  | setSession kind data => exact h.setSession
  | update userID column reported =>
    obtain ⟨hsessions, -, hdrawn, hstored, hfound, hchecked⟩ :=
      users_update s userID column reported
    refine h.of_same ?_ hstored hdrawn hfound hchecked
    intro key e hkey
    rw [← hsessions]
    exact hkey
  | mark userID => exact h.of_same (fun _ _ hkey => hkey) rfl rfl rfl rfl
  | find key call => exact absurd hapart id
  | deleteSession key => exact absurd hapart id
  | check key call => exact absurd hapart id

theorem Recorded.deleteSession {key : SessionKey} (h : Recorded s) :
    Recorded (s.apply (.deleteSession key)) := by
  refine h.of_same ?_ rfl rfl rfl rfl
  intro key' e hkey
  by_cases hne : key' = key
  · subst hne
    simp [Store.apply] at hkey
  · simpa [Store.apply, hne] using hkey

theorem found_apart {cmd : Command} (hapart : cmd.Apart) : (s.apply cmd).found = s.found := by
  cases cmd with
  | update userID column reported => exact (users_update s userID column reported).2.2.2.2.1
  | find key call => exact absurd hapart id
  | deleteSession key => exact absurd hapart id
  | check key call => exact absurd hapart id
  | _ => rfl

/-- **A statement**: what is found is recorded, and what is checked was found. -/
theorem Recorded.exec (h : Recorded s) (hc : Holder s k c) :
    Recorded (s.apply (c.exec s k o).1) ∧ Holder (s.apply (c.exec s k o).1) k (c.exec s k o).2
      ∧ ∀ f ∈ s.found, f ∈ (s.apply (c.exec s k o).1).found := by
  have hstep : SessionStep s k c o (c.exec s k o).1 (c.exec s k o).2 := exec_sessionStep
  generalize (c.exec s k o).1 = cmd at hstep
  generalize (c.exec s k o).2 = c' at hstep
  cases hstep with
  | @finds key session c' hfetching hidle he hsession hdeleting hholding =>
    refine ⟨h.find hsession, ?_, fun f hf => List.mem_append_left _ hf⟩
    intro key' hkey
    rw [hholding, Option.mem_some_iff] at hkey
    subst hkey
    exact ⟨⟨key, k, s.now⟩, by simp [Store.apply], rfl, rfl⟩
  | @deletes key c' hdeleting hholding hdone =>
    have hfound : (s.apply (if o.e.Took then .deleteSession key else .nothing)).found
        = s.found := by
      split <;> rfl
    refine ⟨?_, ?_, ?_⟩
    · split
      · exact h.deleteSession
      · exact h
    · intro key' hkey
      rw [hfound]
      exact hc key' (by rwa [← hholding])
    · rw [hfound]
      exact fun f hf => hf
  | @checks key c' hholding hdeleting hdone hdone' =>
    refine ⟨h.check (hc key hholding), ?_, fun f hf => hf⟩
    intro key' hkey
    rw [hdone] at hkey
    cases hkey
  | @apart cmd c' hdeleting hapart hdone hholding =>
    refine ⟨h.apart hapart, ?_, by rw [found_apart hapart]; exact fun f hf => hf⟩
    intro key' hkey
    rw [found_apart hapart]
    rcases hholding with hnone | hsame
    · rw [hnone] at hkey
      cases hkey
    · exact hc key' (by rwa [← hsame])

theorem Recorded.world {e : Event} (h : Recorded s) : Recorded (world s e).1 := by
  cases e with
  | tick milliseconds => exact h.of_same (fun _ _ hkey => hkey) rfl rfl rfl rfl
  | loginChallenge => exact h.setSession
  | passwordLogin userID => exact h.of_same (fun _ _ hkey => hkey) rfl rfl rfl rfl
  | request req => exact h

theorem recorded_run (users : UserID → Option UserRow) (actions : List Action) :
    Recorded (service.run (start users) actions).store := by
  have hfree : Run.Each service.step (fun _ _ => True) (start users) actions :=
    each_of_free (fun _ _ => trivial) actions _
  have hstart : Recorded (start users).store := by
    constructor <;> simp [start, Keys.empty]
  have h : Holds Recorded Holder (service.run (start users) actions) := by
    refine Holds.run ?_ ?_ hfree (.initial hstart)
    · intro s e hs _
      have hfound : (service.world s.store e).1.found = s.store.found := by cases e <;> rfl
      refine ⟨hs.store.world, ?_, ?_⟩
      · intro k c _ hc
        refine hc.mono ?_
        rw [hfound]
        exact fun f hf => hf
      · intro c hcall key hkey
        cases e with
        | request req =>
          obtain rfl := Option.some.inj hcall
          cases req <;> cases hkey
        | _ => cases hcall
    · intro s k c o hs _ hk
      obtain ⟨hnext, hself, hgrows⟩ := hs.store.exec (o := o) (hs.call k c hk)
      exact ⟨hnext, hself, fun j c' _ _ hc' => hc'.mono hgrows⟩
  exact h.store

/-! ## Runs -/

/-- No two calls have checked a response against one challenge, and each that
has done so found the session before its lifetime ended. -/
def UsedOnce (s : Store) : Prop :=
  (∀ key k k', (key, k) ∈ s.checked → (key, k') ∈ s.checked → k = k')
  ∧ ∀ key k, (key, k) ∈ s.checked → ∃ f ∈ s.found, f.key = key ∧ f.call = k
      ∧ ∃ time, s.stored key = some time ∧ f.time ≤ time + challengeTTL

/-- **A challenge is used at most once** in every run in which no verification
fetches a session between the fetch and the deletion of another, and the
deletion is executed. -/
theorem challenge_used_once {users : UserID → Option UserRow} {actions : List Action}
    (hrun : Run.Each service.step challenges.FetchedAlone (start users) actions) :
    UsedOnce (service.run (start users) actions).store := by
  have hrecorded := recorded_run users actions
  have hstart : challenges.Sound (start users) := by
    constructor <;> simp [challenges, start, Keys.empty, Keys.Marked, OneTime.View.FoundOnce]
  have honce := OneTime.View.found_once (fun _ _ => idle_world) (fun _ _ _ _ => exec_viewStep)
    hrun hstart
  constructor
  · intro key k k' hk hk'
    obtain ⟨f, hf, rfl, rfl⟩ := hrecorded.checked key k hk
    obtain ⟨f', hf', hkey, rfl⟩ := hrecorded.checked f.key k' hk'
    refine honce f.key f.call f'.call ?_ ?_
    · exact List.mem_map.mpr ⟨f, hf, rfl⟩
    · exact List.mem_map.mpr ⟨f', hf', by rw [hkey]⟩
  · intro key k hk
    obtain ⟨f, hf, rfl, hcall⟩ := hrecorded.checked key k hk
    exact ⟨f, hf, rfl, hcall, hrecorded.found f hf⟩

/-- A user with one passkey. -/
def sampleUsers (userID : UserID) : Option UserRow :=
  if userID = "u" then some ⟨some [⟨"key", 0⟩], false⟩ else none

/-- A login challenge, and two verifications that name it. -/
def sampleLogins : List Action :=
  let req : LoginRequest := ⟨0, "u", "key"⟩
  [.world .loginChallenge, .world (.request (.loginVerify req)),
    .world (.request (.loginVerify req))]

/-- The assertion of an authenticator that does not count. -/
def asserted : Outcome := ⟨.done, none, some 0, false⟩

theorem challenge_used_once_sample :
    UsedOnce (service.run (start sampleUsers) (sampleLogins
      ++ ([.exec 0 asserted, .exec 0 asserted, .exec 1 asserted, .exec 0 asserted]
        : List Action))).store :=
  challenge_used_once (by decide)

/-- Both fetch the session before either deletes it. -/
theorem challenge_used_twice :
    ¬∀ (users : UserID → Option UserRow) (actions : List Action),
      UsedOnce (service.run (start users) actions).store := by
  intro h
  let inTurn : List Action := [.exec 0 asserted, .exec 1 asserted, .exec 0 asserted,
    .exec 1 asserted, .exec 0 asserted, .exec 1 asserted]
  have hsame := (h sampleUsers (sampleLogins ++ inTurn)).1 ⟨.login, 0⟩ 0 1 (by decide) (by decide)
  cases hsame

end UsbVault.Passkeys
