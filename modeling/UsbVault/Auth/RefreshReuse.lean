import UsbVault.Auth.SessionSteps

/-!
# Reuse of refresh tokens

The marker of a used token lives for the whole seconds the token has left,
so it may run out before the token does, and a second call that measured
the token's life before that is let through. Where a marker is never met so
(`MarkerInTime`), a token is refreshed once (`refresh_single_use`).

A reuse detection revokes what it finds in the user's set. A rotation that
has claimed its token and not yet added the new ones is passed over, and so
is a token claimed after the enumeration. Where the detection finds
everything (`DetectionComplete`), no token of the family is let through
after it has returned (`reuse_kills_family`).
-/

namespace UsbVault.Auth

open Wire Expiring

/-- The token of a refresh about to run the script, and its remaining life. -/
def Call.scriptRun : Call → Option (Claims × Nat)
  | .refresh token (.script _ remainingTTL) => some (token, remainingTTL)
  | _ => none

/-- The token of a refresh the script has let through. -/
def Call.claim : Call → Option Claims
  | .refresh token (.generate _) => some token
  | .refresh token (.addAccess _ _) => some token
  | .refresh token (.addRefresh _ _) => some token
  | .refresh token (.succeeded _ _) => some token
  | _ => none

theorem claimed_world {s : Store} (e : Event) : (world s e).1.claimed = s.claimed := by
  cases e with
  | register userID =>
    rw [world]
    split <;> rfl
  | _ => rfl

theorem revoked_world {s : Store} {e : Event} (he : e ≠ .cacheLoss) :
    (world s e).1.revoked = s.revoked := by
  cases e with
  | register userID =>
    rw [world]
    split <;> rfl
  | cacheLoss => exact absurd rfl he
  | _ => rfl

theorem request_of_world {s : Store} {e : Event} {c : Call} (h : (world s e).2 = some c) :
    ∃ request : Request, c = request.call := by
  cases e with
  | request request =>
    simp only [world, Option.some.injEq] at h
    exact ⟨request, h.symm⟩
  | _ => simp [world] at h

/-! ## Single use -/

/-- The script, for a token that was let through before, does not come with
a second of life left after the token's marker has run out. -/
def Call.MarkerInTime (s : Store) (c : Call) (ok : Bool) : Prop :=
  ∀ run ∈ c.scriptRun, ok = true → run.2 / second ≠ 0 →
    (∃ claim ∈ s.claimed, claim.1.jti = run.1.jti) → ¬s.revoked.RunOut s.clock run.1.jti

/-- Redis keeps its keys, and a marker is met in its time. -/
def MarkersInTime (s : Sessions) : Action → Prop
  | .world e => e ≠ .cacheLoss
  | .exec k ok => ∀ c ∈ s.calls[k]?, c.MarkerInTime s.store ok

instance (s : Store) (c : Call) (ok : Bool) : Decidable (c.MarkerInTime s ok) :=
  inferInstanceAs (Decidable (∀ run ∈ c.scriptRun, _))

instance (s : Sessions) (a : Action) : Decidable (MarkersInTime s a) :=
  match a with
  | .world e => inferInstanceAs (Decidable (e ≠ .cacheLoss))
  | .exec k _ => inferInstanceAs (Decidable (∀ c ∈ s.calls[k]?, _))

/-- A token was let through for one call, and is marked. -/
structure ClaimsSound (s : Store) : Prop where
  single : ∀ t k t' k', (t, k) ∈ s.claimed → (t', k') ∈ s.claimed → t.jti = t'.jti → k = k'
  marked : ∀ t k, (t, k) ∈ s.claimed → s.revoked.Marked t.jti

/-- What a call has claimed is in the history. -/
def ClaimRecorded (s : Store) (k : Nat) (c : Call) : Prop :=
  ∀ token, c.claim = some token → (token, k) ∈ s.claimed

theorem ClaimsSound.exec {s : Store} {c : Call} {k : Nat} {ok : Bool} (h : ClaimsSound s)
    (hmarker : c.MarkerInTime s ok) : ClaimsSound (s.apply (c.exec s k ok).1) := by
  have hstatement : Statement s k c ok (c.exec s k ok).1 := exec_statement c
  generalize (c.exec s k ok).1 = cmd at hstatement
  -- a token that is let through was not before: its marker would be met
  have hfresh : ∀ t j ttl, cmd = .consume t j ttl →
      j = k ∧ ∀ t' k', (t', k') ∈ s.claimed → t'.jti ≠ t.jti := by
    intro t j ttl hcmd
    subst hcmd
    cases hstatement with
    | consume hnew httl =>
      refine ⟨rfl, ?_⟩
      intro t' k' hmem heq
      have hmarked : s.revoked.Marked t.jti := heq ▸ h.marked t' k' hmem
      exact hmarker (t, _) rfl rfl httl ⟨_, hmem, heq⟩ (Keys.runOut_of_get hmarked hnew)
  constructor
  · intro t j t' j' hmem hmem' heq
    rcases Store.mem_claimed_apply.mp hmem with hold | ⟨ttl, hnew⟩
    · rcases Store.mem_claimed_apply.mp hmem' with hold' | ⟨ttl, hnew'⟩
      · exact h.single t j t' j' hold hold' heq
      · exact absurd heq ((hfresh t' j' ttl hnew').2 t j hold)
    · rcases Store.mem_claimed_apply.mp hmem' with hold' | ⟨ttl', hnew'⟩
      · exact absurd heq.symm ((hfresh t j ttl hnew).2 t' j' hold')
      · rw [(hfresh t j ttl hnew).1, (hfresh t' j' ttl' hnew').1]
  · intro t j hmem
    rcases Store.mem_claimed_apply.mp hmem with hold | ⟨ttl, hnew⟩
    · exact Store.marked_apply (h.marked t j hold)
    · rw [hnew]
      exact Keys.marked_set_self

theorem execRefresh_consume {s : Store} {k : Nat} {token : Claims} {epoch : Int}
    {remainingTTL : Nat} (hnew : s.revoked.get s.clock token.jti = none)
    (httl : remainingTTL / second ≠ 0) :
    (execRefresh s k token (.script epoch remainingTTL) true).1
      = .consume token k (remainingTTL / second) := by
  rw [execRefresh, hnew]
  simp [httl]

theorem ClaimRecorded.exec {s : Store} {c : Call} {k : Nat} {ok : Bool}
    (h : ClaimRecorded s k c) : ClaimRecorded (s.apply (c.exec s k ok).1) k (c.exec s k ok).2 := by
  cases c with
  | refresh token pc =>
    intro t hclaim
    rw [Store.mem_claimed_apply]
    have hmove : RefreshMove s token pc ok (execRefresh s k token pc ok).2 := execRefresh_move pc
    show (t, k) ∈ s.claimed ∨ ∃ ttl, (execRefresh s k token pc ok).1 = .consume t k ttl
    replace hclaim : (Call.refresh token (execRefresh s k token pc ok).2).claim = some t := hclaim
    generalize hnext : (execRefresh s k token pc ok).2 = next at hmove hclaim
    cases hmove with
    | ended hend => exact .inl (h t hclaim)
    | claimed hnew httl =>
      right
      simp only [Call.claim, Option.some.injEq] at hclaim
      subst hclaim
      exact ⟨_, execRefresh_consume hnew httl⟩
    | issued => exact .inl (h t hclaim)
    | addedAccess => exact .inl (h t hclaim)
    | addedRefresh => exact .inl (h t hclaim)
    | _ => simp [Call.claim] at hclaim
  | _ => intro t hclaim; simp [Call.exec, Call.claim] at hclaim

/-- No two calls have succeeded with one token. -/
def SingleUse (s : Sessions) : Prop :=
  ∀ (token : Claims) (k k' : Nat) (access refresh access' refresh' : Claims),
    s.calls[k]? = some (Call.refresh token (.succeeded access refresh)) →
    s.calls[k']? = some (Call.refresh token (.succeeded access' refresh')) → k = k'

/-- **A refresh token is single-use** in every run in which Redis keeps its
keys and no call reaches the script with a second of life measured after the
token's marker has run out. -/
theorem refresh_single_use (as : List Action)
    (hrun : Run.Each service.step MarkersInTime start as) : SingleUse (service.run start as) := by
  have hstart : Calls.Holds ClaimsSound ClaimRecorded start :=
    .initial ⟨by simp [Store.empty], by simp [Store.empty]⟩
  have h : Calls.Holds ClaimsSound ClaimRecorded (service.run start as) := by
    refine Calls.Holds.run ?_ ?_ hrun hstart
    · intro s e h he
      have hclaimed : (service.world s.store e).1.claimed = s.store.claimed := claimed_world e
      have hrevoked : (service.world s.store e).1.revoked = s.store.revoked := revoked_world he
      refine ⟨⟨?_, ?_⟩, ?_, ?_⟩
      · rw [hclaimed]
        exact h.store.single
      · rw [hclaimed, hrevoked]
        exact h.store.marked
      · intro k c _ hc token hclaim
        rw [hclaimed]
        exact hc token hclaim
      · intro c hc token hclaim
        obtain ⟨request, rfl⟩ := request_of_world hc
        cases request <;> simp [Request.call, Call.claim] at hclaim
    · intro s k c ok h hok hk
      refine ⟨h.store.exec (hok c (Option.mem_def.mpr hk)), (h.call k c hk).exec, ?_⟩
      intro j c' _ _ hc' token hclaim
      exact Store.mem_claimed_apply.mpr (.inl (hc' token hclaim))
  intro token k k' access refresh access' refresh' hk hk'
  have hmem := h.call k _ hk token rfl
  have hmem' := h.call k' _ hk' token rfl
  exact h.store.single token k token k' hmem hmem' rfl

/-- The refresh token of a login at the beginning of time. -/
def loginRefresh : Claims := ⟨7, [], .refresh, 2, 1, [], 0, refreshTokenTTL⟩

/-- A login; 1.9 s before the refresh token's end, two refreshes measure its
remaining life, and the first is done. -/
def sampleLateRefresh : List Action :=
  List.flatten
    [[.world (.register 7), .world (.request (.login 7 []))], List.replicate 4 (.exec 0 true),
     [.world (.tick (refreshTokenTTL - 1900 * millisecond))],
     [.world (.request (.refresh loginRefresh)), .world (.request (.refresh loginRefresh))],
     List.replicate 3 (.exec 1 true), List.replicate 3 (.exec 2 true),
     List.replicate 4 (.exec 1 true)]

theorem refresh_single_use_sample :
    SingleUse (service.run start (sampleLateRefresh ++ [.exec 2 true])) :=
  refresh_single_use _ (by decide)

/-- The second call reaches Redis when the marker, set for one second, has
run out. -/
theorem marker_runs_out :
    ¬SingleUse (service.run start
      (sampleLateRefresh ++ .world (.tick (1001 * millisecond)) :: List.replicate 4 (.exec 2 true))) := by
  intro h
  have hsame := h loginRefresh 1 2 _ _ _ _ rfl rfl
  cases hsame

/-! ## Reuse detection -/

/-- The token of a detection about to enumerate the user's tokens. -/
def Call.enumerating : Call → Option Claims
  | .refresh token (.members _) => some token
  | _ => none

/-- The token of a refresh about to issue new ones. -/
def Call.generating : Call → Option Claims
  | .refresh token (.generate _) => some token
  | _ => none

/-- The token of a detection, and the identifier it is about to revoke. -/
def Call.revokingNext : Call → Option (Claims × JTI)
  | .refresh token (.revoking _ (jti :: _)) => some (token, jti)
  | _ => none

/-- Every refresh token of the family is revoked, or one of these. -/
def Store.RevokedBut (s : Store) (familyID : FamilyID) (jtis : List JTI) : Prop :=
  ∀ t ∈ s.signed, t.type = .refresh → t.familyID = familyID →
    s.revoked.Marked t.jti ∨ t.jti ∈ jtis

/-- The enumeration is answered and finds every refresh token of the family
that is not revoked, and no call is about to issue another. -/
def Call.EnumeratesAll (s : Sessions) (c : Call) (ok : Bool) : Prop :=
  ∀ token ∈ c.enumerating, ok = true
    ∧ s.store.RevokedBut token.familyID (s.store.userTokens token.userID)
    ∧ ∀ c' ∈ s.calls, ∀ t ∈ c'.generating, t.familyID ≠ token.familyID

/-- A revocation that is needed is written. -/
def Call.Revokes (s : Store) (c : Call) (ok : Bool) : Prop :=
  ∀ next ∈ c.revokingNext,
    (∃ t ∈ s.signed, t.type = .refresh ∧ t.familyID = next.1.familyID ∧ t.jti = next.2) →
    ¬s.revoked.Marked next.2 → ok = true

/-- The script is not run for a token that is yet to be revoked, nor for one
of an enumerated family after its marker has run out, while it has a second
of life left. -/
def Call.RunsOutside (s : Store) (c : Call) (ok : Bool) : Prop :=
  ∀ run ∈ c.scriptRun, ok = true → run.2 / second ≠ 0 →
    (run.1.familyID ∈ s.revoking → s.revoked.Marked run.1.jti)
    ∧ (run.1.familyID ∈ s.enumerated → ¬s.revoked.RunOut s.clock run.1.jti)

/-- Redis keeps its keys, and every detection revokes the whole family
before any of its tokens is let through. -/
def DetectionComplete (s : Sessions) : Action → Prop
  | .world e => e ≠ .cacheLoss
  | .exec k ok =>
    ∀ c ∈ s.calls[k]?, c.EnumeratesAll s ok ∧ c.Revokes s.store ok ∧ c.RunsOutside s.store ok

instance (s : Store) (familyID : FamilyID) (jtis : List JTI) :
    Decidable (s.RevokedBut familyID jtis) :=
  inferInstanceAs (Decidable (∀ t ∈ s.signed, _))

instance (s : Sessions) (c : Call) (ok : Bool) : Decidable (c.EnumeratesAll s ok) :=
  inferInstanceAs (Decidable (∀ token ∈ c.enumerating, _ ∧ _ ∧ ∀ c' ∈ s.calls, _))

instance (s : Store) (c : Call) (ok : Bool) : Decidable (c.Revokes s ok) :=
  inferInstanceAs (Decidable (∀ next ∈ c.revokingNext, (∃ t ∈ s.signed, _) → _))

instance (s : Store) (c : Call) (ok : Bool) : Decidable (c.RunsOutside s ok) :=
  inferInstanceAs (Decidable (∀ run ∈ c.scriptRun, _))

instance (s : Sessions) (a : Action) : Decidable (DetectionComplete s a) :=
  match a with
  | .world e => inferInstanceAs (Decidable (e ≠ .cacheLoss))
  | .exec k _ => inferInstanceAs (Decidable (∀ c ∈ s.calls[k]?, _ ∧ _ ∧ _))

/-- The token of a refresh that has passed the validation. -/
def Call.checked : Call → Option Claims
  | .refresh token .loadUser => some token
  | .refresh token (.untilExpiry _) => some token
  | .refresh token (.script _ _) => some token
  | .refresh token (.generate _) => some token
  | .refresh token (.members _) => some token
  | _ => none

/-- The token of a detection, and the identifiers it has still to revoke. -/
def Call.revoking : Call → Option (Claims × List JTI)
  | .refresh token (.revoking _ jtis) => some (token, jtis)
  | _ => none

/-- The token of a call that has detected reuse and returned. -/
def Call.detected : Call → Option Claims
  | .refresh token (.failed err) => if err.isReuse then some token else none
  | _ => none

/-- An enumerated family is revoked when its revocation is over, and family
identifiers are drawn in order. -/
structure FamilySound (s : Store) : Prop where
  revoked : ∀ familyID ∈ s.enumerated, familyID ∉ s.revoking → s.RevokedBut familyID []
  signed_lt : ∀ t ∈ s.signed, t.familyID < s.drawn
  enumerated_lt : ∀ familyID ∈ s.enumerated, familyID < s.drawn

/-- A call's part in the detection. -/
structure FamilyCall (s : Store) (c : Call) : Prop where
  checked : ∀ token ∈ c.checked, token ∈ s.signed ∧ token.type = .refresh
  generating : ∀ token ∈ c.generating, token.familyID ∉ s.enumerated
  revoking : ∀ next ∈ c.revoking,
    next.1.familyID ∈ s.enumerated ∧ s.RevokedBut next.1.familyID next.2
  detected : ∀ token ∈ c.detected,
    token.familyID ∈ s.enumerated ∧ s.RevokedBut token.familyID []

/-- What the other calls keep of a family. -/
structure KeepsFamilies (s s' : Store) : Prop where
  signed : ∀ t ∈ s.signed, t ∈ s'.signed
  unsigned : ∀ t ∈ s'.signed, t ∈ s.signed ∨ t.familyID ∉ s.enumerated
  enumerated : ∀ familyID ∈ s.enumerated, familyID ∈ s'.enumerated
  marked : ∀ jti, s.revoked.Marked jti → s'.revoked.Marked jti

variable {s s' : Store} {c : Call} {k : Nat} {ok : Bool}

theorem KeepsFamilies.revokedBut (h : KeepsFamilies s s') {familyID : FamilyID} {jtis : List JTI}
    (hmem : familyID ∈ s.enumerated) (hrevoked : s.RevokedBut familyID jtis) :
    s'.RevokedBut familyID jtis := by
  intro t ht htype hfamily
  rcases h.unsigned t ht with hold | hnew
  · rcases hrevoked t hold htype hfamily with hmarked | hin
    · exact .inl (h.marked t.jti hmarked)
    · exact .inr hin
  · exact absurd (hfamily ▸ hmem) hnew

theorem FamilyCall.mono (h : FamilyCall s c) (hkeeps : KeepsFamilies s s')
    (hgenerating : ∀ token ∈ c.generating, token.familyID ∉ s'.enumerated) : FamilyCall s' c := by
  constructor
  · intro token hc
    obtain ⟨hsigned, htype⟩ := h.checked token hc
    exact ⟨hkeeps.signed token hsigned, htype⟩
  · exact hgenerating
  · intro next hc
    obtain ⟨hmem, hrevoked⟩ := h.revoking next hc
    exact ⟨hkeeps.enumerated _ hmem, hkeeps.revokedBut hmem hrevoked⟩
  · intro token hc
    obtain ⟨hmem, hrevoked⟩ := h.detected token hc
    exact ⟨hkeeps.enumerated _ hmem, hkeeps.revokedBut hmem hrevoked⟩

/-- The tokens a call issues are of a family that is not enumerated, and
their identifiers are new. -/
theorem issue_family (hs : FamilySound s) (hc : FamilyCall s c) {p : Option Claims}
    {access refresh : Claims} (h : Statement s k c ok (.issue p access refresh)) :
    ∀ t, t = access ∨ t = refresh → t.familyID < s.drawn + 3 ∧ t.familyID ∉ s.enumerated := by
  cases h with
  | login hpair =>
    simp only [Store.generateTokenPairWithEpoch, Option.getD_none, Prod.mk.injEq] at hpair
    obtain ⟨rfl, rfl⟩ := hpair
    have hnew : s.drawn + 1 ∉ s.enumerated := by
      intro hmem
      exact absurd (hs.enumerated_lt _ hmem) (Nat.not_lt.mpr (Nat.le_succ s.drawn))
    rintro t (rfl | rfl)
    · exact ⟨by simp, hnew⟩
    · exact ⟨by simp, hnew⟩
  | @rotate token epoch _ _ hpair =>
    have hgenerating := hc.generating token rfl
    have hlt := hs.signed_lt token (hc.checked token rfl).1
    simp only [Store.generateTokenPairWithEpoch, Option.getD_some, Prod.mk.injEq] at hpair
    obtain ⟨rfl, rfl⟩ := hpair
    rintro t (rfl | rfl)
    · exact ⟨Nat.lt_add_right 3 hlt, hgenerating⟩
    · exact ⟨Nat.lt_add_right 3 hlt, hgenerating⟩

theorem keepsFamilies_exec (hs : FamilySound s) (hc : FamilyCall s c) :
    KeepsFamilies s (s.apply (c.exec s k ok).1) := by
  have hstatement : Statement s k c ok (c.exec s k ok).1 := exec_statement c
  generalize (c.exec s k ok).1 = cmd at hstatement
  constructor
  · intro t ht
    exact Store.mem_signed_apply.mpr (.inl ht)
  · intro t ht
    rcases Store.mem_signed_apply.mp ht with hold | ⟨p, access, refresh, rfl, hnew⟩
    · exact .inl hold
    · exact .inr (issue_family hs hc hstatement t hnew).2
  · intro familyID hmem
    exact Store.mem_enumerated_apply.mpr (.inl hmem)
  · intro jti hmarked
    exact Store.marked_apply hmarked

theorem drawn_apply (s : Store) (cmd : Command) : s.drawn ≤ (s.apply cmd).drawn := by
  cases cmd <;> simp [Store.apply, Store.updateUser]

theorem FamilySound.exec (hs : FamilySound s) (hc : FamilyCall s c) :
    FamilySound (s.apply (c.exec s k ok).1) := by
  have hkeeps : KeepsFamilies s (s.apply (c.exec s k ok).1) := keepsFamilies_exec hs hc
  have hstatement : Statement s k c ok (c.exec s k ok).1 := exec_statement c
  generalize (c.exec s k ok).1 = cmd at hstatement hkeeps
  have hdrawn := drawn_apply s cmd
  constructor
  · intro familyID hmem hover
    cases hstatement with
    | enumerate =>
      rcases Store.mem_enumerated_apply.mp hmem with hold | hnew
      · exact hkeeps.revokedBut hold
          (hs.revoked familyID hold fun h => hover (List.mem_cons_of_mem _ h))
      · simp only [Command.enumerate.injEq] at hnew
        exact absurd (hnew ▸ List.mem_cons_self) hover
    | @endRevocation token err _ =>
      by_cases hin : familyID ∈ s.revoking
      · -- this detection was the last one
        have heq : familyID = token.familyID := by
          by_contra hne
          exact hover ((List.mem_erase_of_ne hne).mpr hin)
        rw [heq]
        exact (hc.revoking (token, []) rfl).2
      · exact hs.revoked familyID hmem hin
    | _ =>
      exact hkeeps.revokedBut hmem (hs.revoked familyID hmem hover)
  · intro t ht
    rcases Store.mem_signed_apply.mp ht with hold | ⟨p, access, refresh, rfl, hnew⟩
    · exact lt_of_lt_of_le (hs.signed_lt t hold) hdrawn
    · exact (issue_family hs hc hstatement t hnew).1
  · intro familyID hmem
    rcases Store.mem_enumerated_apply.mp hmem with hold | hnew
    · exact lt_of_lt_of_le (hs.enumerated_lt familyID hold) hdrawn
    · subst hnew
      cases hstatement with
      | enumerate =>
        exact lt_of_lt_of_le (hs.signed_lt _ (hc.checked _ rfl).1) hdrawn

/-- The script lets no token of a family through once it is enumerated. -/
theorem claimed_not_enumerated (hs : FamilySound s) {token : Claims} {epoch : Int}
    {remainingTTL : Nat} (hc : FamilyCall s (.refresh token (.script epoch remainingTTL)))
    (hruns : (Call.refresh token (.script epoch remainingTTL)).RunsOutside s true)
    (hnew : s.revoked.get s.clock token.jti = none) (httl : remainingTTL / second ≠ 0) :
    token.familyID ∉ s.enumerated := by
  intro hmem
  obtain ⟨hsigned, htype⟩ := hc.checked token rfl
  obtain ⟨hunder, hlive⟩ := hruns (token, remainingTTL) rfl rfl httl
  have hmarked : s.revoked.Marked token.jti := by
    by_cases hin : token.familyID ∈ s.revoking
    · exact hunder hin
    · rcases hs.revoked _ hmem hin token hsigned htype rfl with hmarked | hnil
      · exact hmarked
      · exact absurd hnil List.not_mem_nil
  exact hlive hmem (Keys.runOut_of_get hmarked hnew)

theorem FamilyCall.request (request : Request) : FamilyCall s request.call := by
  constructor <;> intro x hx <;> cases request <;> simp [Request.call, Call.checked,
    Call.generating, Call.revoking, Call.detected] at hx

theorem mem_signed_of_validate {token : Claims} (h : s.validateToken token = true) :
    token ∈ s.signed := by
  simp only [Store.validateToken, Bool.and_eq_true, decide_eq_true_eq] at h
  exact h.1

theorem FamilyCall.plain
    (hchecked : ∀ token ∈ c.checked, token ∈ s.signed ∧ token.type = .refresh)
    (hgenerating : c.generating = none) (hrevoking : c.revoking = none)
    (hdetected : c.detected = none) : FamilyCall s c := by
  refine ⟨hchecked, ?_, ?_, ?_⟩
  · intro token h
    rw [hgenerating] at h
    cases h
  · intro next h
    rw [hrevoking] at h
    cases h
  · intro token h
    rw [hdetected] at h
    cases h

theorem revokedBut_tail {token : Claims} {err : RefreshError} {jti : JTI} {jtis : List JTI}
    (hrevokes : (Call.refresh token (.revoking err (jti :: jtis))).Revokes s ok)
    (h : s.RevokedBut token.familyID (jti :: jtis)) :
    (s.apply (execRefresh s k token (.revoking err (jti :: jtis)) ok).1).RevokedBut
      token.familyID jtis := by
  cases ok with
  | false =>
    intro t ht htype hfamily
    rcases h t ht htype hfamily with hmarked | hin
    · exact .inl hmarked
    · rcases List.mem_cons.mp hin with heq | hrest
      · -- it failed, so it was not needed
        left
        by_contra hunmarked
        have hneeded := hrevokes (token, jti) rfl ⟨t, ht, htype, hfamily, heq⟩
          (heq ▸ hunmarked)
        cases hneeded
      · exact .inr hrest
  | true =>
    intro t ht htype hfamily
    rcases h t ht htype hfamily with hmarked | hin
    · exact .inl hmarked.set
    · rcases List.mem_cons.mp hin with heq | hrest
      · rw [heq]
        exact .inl Keys.marked_set_self
      · exact .inr hrest

/-- **A refresh keeps its part**, the enumeration, the revocations and the
script meeting their conditions. -/
theorem FamilyCall.exec_refresh {st : Sessions} {token : Claims} {pc : RefreshPc}
    (hs : FamilySound st.store) (hc : FamilyCall st.store (.refresh token pc))
    (henumerates : (Call.refresh token pc).EnumeratesAll st ok)
    (hrevokes : (Call.refresh token pc).Revokes st.store ok)
    (hruns : (Call.refresh token pc).RunsOutside st.store ok) :
    FamilyCall (st.store.apply (execRefresh st.store k token pc ok).1)
      (.refresh token (execRefresh st.store k token pc ok).2) := by
  have hkeeps : KeepsFamilies st.store (st.store.apply (execRefresh st.store k token pc ok).1) :=
    keepsFamilies_exec hs hc
  have hmove : RefreshMove st.store token pc ok (execRefresh st.store k token pc ok).2 :=
    execRefresh_move pc
  -- a validated token stays one
  have hstays : ∀ t ∈ (Call.refresh token pc).checked,
      t ∈ (st.store.apply (execRefresh st.store k token pc ok).1).signed ∧ t.type = .refresh := by
    intro t ht
    obtain ⟨hsigned, htype⟩ := hc.checked t ht
    exact ⟨hkeeps.signed t hsigned, htype⟩
  generalize (execRefresh st.store k token pc ok).2 = next at hmove
  cases hmove with
  | ended hend =>
    refine hc.mono hkeeps ?_
    intro t ht
    rcases hend with ⟨err, rfl⟩ | ⟨access, refresh, rfl⟩ <;> cases ht
  | refused hnot => exact .plain (by simp [Call.checked]) rfl rfl (by simp [Call.detected, hnot])
  | checked hvalid htype =>
    refine .plain ?_ rfl rfl rfl
    rintro t ⟨⟩
    exact ⟨hkeeps.signed _ (mem_signed_of_validate hvalid), htype⟩
  | stale hrow h => exact .plain (by simp [Call.checked]) rfl rfl rfl
  | current hrow h => exact .plain hstays rfl rfl rfl
  | unexpired h => exact .plain hstays rfl rfl rfl
  | claimed hnew httl =>
    refine ⟨hstays, ?_, by simp [Call.revoking], by simp [Call.detected]⟩
    rintro t ⟨⟩
    rw [Store.mem_enumerated_apply, execRefresh_consume hnew httl]
    have hnot := claimed_not_enumerated hs hc hruns hnew httl
    simp [hnot]
  | reused h => exact .plain hstays rfl rfl rfl
  | issued => exact .plain (by simp [Call.checked]) rfl rfl rfl
  | addedAccess => exact .plain (by simp [Call.checked]) rfl rfl rfl
  | addedRefresh => exact .plain (by simp [Call.checked]) rfl rfl rfl
  | enumerated =>
    refine ⟨by simp [Call.checked], by simp [Call.generating], ?_, by simp [Call.detected]⟩
    rintro next ⟨⟩
    obtain ⟨-, hrevoked, -⟩ := henumerates token rfl
    exact ⟨Store.mem_enumerated_apply.mpr (.inr rfl), hrevoked⟩
  | unanswered =>
    obtain ⟨hanswered, -⟩ := henumerates token rfl
    cases hanswered
  | revoked =>
    refine ⟨by simp [Call.checked], by simp [Call.generating], ?_, by simp [Call.detected]⟩
    rintro next ⟨⟩
    obtain ⟨hmem, hrevoked⟩ := hc.revoking _ rfl
    exact ⟨hkeeps.enumerated _ hmem, revokedBut_tail hrevokes hrevoked⟩
  | @killed err _ =>
    refine ⟨by simp [Call.checked], by simp [Call.generating], by simp [Call.revoking], ?_⟩
    intro t ht
    obtain ⟨hmem, hrevoked⟩ := hc.revoking _ rfl
    have heq : token = t := by
      simp only [Call.detected] at ht
      split at ht
      · exact Option.some.inj ht
      · cases ht
    subst heq
    exact ⟨hkeeps.enumerated _ hmem, hkeeps.revokedBut hmem hrevoked⟩

theorem FamilyCall.exec {st : Sessions} (hs : FamilySound st.store) (hc : FamilyCall st.store c)
    (henumerates : c.EnumeratesAll st ok) (hrevokes : c.Revokes st.store ok)
    (hruns : c.RunsOutside st.store ok) :
    FamilyCall (st.store.apply (c.exec st.store k ok).1) (c.exec st.store k ok).2 := by
  cases c with
  | refresh token pc => exact hc.exec_refresh hs henumerates hrevokes hruns
  | _ => exact .plain (by simp [Call.exec, Call.checked]) rfl rfl rfl

theorem FamilyCall.other {st : Sessions} {c' : Call} (hs : FamilySound st.store)
    (hc : FamilyCall st.store c) (henumerates : c.EnumeratesAll st ok) (hmem : c' ∈ st.calls)
    (hc' : FamilyCall st.store c') :
    FamilyCall (st.store.apply (c.exec st.store k ok).1) c' := by
  refine hc'.mono (keepsFamilies_exec hs hc) ?_
  intro t ht hin
  rcases Store.mem_enumerated_apply.mp hin with hold | hnew
  · exact hc'.generating t ht hold
  · have hstatement : Statement st.store k c ok (c.exec st.store k ok).1 := exec_statement c
    rw [hnew] at hstatement
    generalize hf : t.familyID = familyID at hstatement
    cases hstatement with
    | enumerate =>
      obtain ⟨-, -, hnone⟩ := henumerates _ rfl
      exact hnone c' hmem t ht hf

theorem family_exec {st : Sessions}
    (h : Calls.Holds FamilySound (fun s _ c => FamilyCall s c) st)
    (hok : DetectionComplete st (.exec k ok)) (hk : st.calls[k]? = some c) :
    FamilySound (st.store.apply (c.exec st.store k ok).1)
      ∧ FamilyCall (st.store.apply (c.exec st.store k ok).1) (c.exec st.store k ok).2
      ∧ ∀ (j : Nat) (c' : Call), j ≠ k → st.calls[j]? = some c' → FamilyCall st.store c' →
          FamilyCall (st.store.apply (c.exec st.store k ok).1) c' := by
  obtain ⟨henumerates, hrevokes, hruns⟩ := hok c (Option.mem_def.mpr hk)
  have hc : FamilyCall st.store c := h.call k c hk
  exact ⟨h.store.exec hc, hc.exec h.store henumerates hrevokes hruns,
    fun j c' _ hj => FamilyCall.other h.store hc henumerates (List.mem_of_getElem? hj)⟩

theorem family_world {e : Event} (he : e ≠ .cacheLoss) (h : FamilySound s) :
    FamilySound (world s e).1 ∧ KeepsFamilies s (world s e).1
      ∧ (world s e).1.enumerated = s.enumerated := by
  cases e with
  | register userID =>
    rw [world]
    split
    · exact ⟨h, ⟨fun _ h => h, fun _ h => .inl h, fun _ h => h, fun _ h => h⟩, rfl⟩
    · exact ⟨⟨h.revoked, h.signed_lt, h.enumerated_lt⟩,
        ⟨fun _ h => h, fun _ h => .inl h, fun _ h => h, fun _ h => h⟩, rfl⟩
  | cacheLoss => exact absurd rfl he
  | _ =>
    exact ⟨⟨h.revoked, h.signed_lt, h.enumerated_lt⟩,
      ⟨fun _ h => h, fun _ h => .inl h, fun _ h => h, fun _ h => h⟩, rfl⟩

theorem family_arrives {e : Event} {calls : List Call} (he : e ≠ .cacheLoss)
    (hs : FamilySound s) :
    (∀ (k : Nat) c, calls[k]? = some c → FamilyCall s c → FamilyCall (world s e).1 c)
      ∧ ∀ c, (world s e).2 = some c → FamilyCall (world s e).1 c := by
  obtain ⟨-, hkeeps, henumerated⟩ := family_world he hs
  constructor
  · intro k c _ hc
    refine hc.mono hkeeps ?_
    rw [henumerated]
    exact hc.generating
  · intro c hc
    obtain ⟨request, rfl⟩ := request_of_world hc
    exact .request request

/-- **In every run with complete detections** the families are sound. -/
theorem run_familySound {as : List Action}
    (hrun : Run.Each service.step DetectionComplete start as) :
    Calls.Holds FamilySound (fun s _ c => FamilyCall s c) (service.run start as) := by
  have hstart : Calls.Holds FamilySound (fun s _ c => FamilyCall s c) start :=
    .initial ⟨by simp [Store.empty], by simp [Store.empty], by simp [Store.empty]⟩
  refine Calls.Holds.run ?_ ?_ hrun hstart
  · intro s e h he
    exact ⟨(family_world he h.store).1, family_arrives he h.store⟩
  · intro s k c ok h hok hk
    exact family_exec h hok hk

/-- A family whose reuse detection has returned: revoked, and let through no
more than `before`. -/
structure FamilyDead (before : Store) (familyID : FamilyID) (s : Store) : Prop where
  enumerated : familyID ∈ s.enumerated
  revoked : s.RevokedBut familyID []
  claimed : ∀ t j, (t, j) ∈ s.claimed → t.familyID = familyID → (t, j) ∈ before.claimed

theorem FamilyDead.exec {before : Store} {familyID : FamilyID} (h : FamilyDead before familyID s)
    (hs : FamilySound s) (hc : FamilyCall s c) (hruns : c.RunsOutside s ok) :
    FamilyDead before familyID (s.apply (c.exec s k ok).1) := by
  have hkeeps : KeepsFamilies s (s.apply (c.exec s k ok).1) := keepsFamilies_exec hs hc
  have hstatement : Statement s k c ok (c.exec s k ok).1 := exec_statement c
  generalize (c.exec s k ok).1 = cmd at hstatement hkeeps
  refine ⟨hkeeps.enumerated _ h.enumerated, hkeeps.revokedBut h.enumerated h.revoked, ?_⟩
  intro t j hmem hfamily
  rcases Store.mem_claimed_apply.mp hmem with hold | ⟨ttl, rfl⟩
  · exact h.claimed t j hold hfamily
  · cases hstatement with
    | consume hnew httl =>
      have hnot := claimed_not_enumerated hs hc hruns hnew httl
      exact absurd (hfamily ▸ h.enumerated) hnot

/-- No token of the family of a call that has detected reuse and returned is
let through afterwards. -/
def FamilyKilled (pre post : List Action) : Prop :=
  ∀ (k : Nat) (c : Call) (token : Claims),
    (service.run start pre).calls[k]? = some c → token ∈ c.detected →
    ∀ t j, (t, j) ∈ (service.run start (pre ++ post)).store.claimed →
      t.familyID = token.familyID → (t, j) ∈ (service.run start pre).store.claimed

/-- **Reuse detection kills the family** in every run in which Redis keeps
its keys and every detection revokes the whole family before any of its
tokens is let through. -/
theorem reuse_kills_family (pre post : List Action)
    (hrun : Run.Each service.step DetectionComplete start (pre ++ post)) :
    FamilyKilled pre post := by
  intro k c token hk hdetected
  obtain ⟨hpre, hpost⟩ := Run.Each.append.mp hrun
  have hsound := run_familySound hpre
  obtain ⟨hmem, hrevoked⟩ := (hsound.call k c hk).detected token hdetected
  have hdead : Calls.Holds
      (fun s => FamilySound s
        ∧ FamilyDead (service.run start pre).store token.familyID s)
      (fun s _ c => FamilyCall s c) (service.run start pre) :=
    ⟨⟨hsound.store, hmem, hrevoked, fun _ _ h _ => h⟩, hsound.call⟩
  have hlater : Calls.Holds
      (fun s => FamilySound s
        ∧ FamilyDead (service.run start pre).store token.familyID s)
      (fun s _ c => FamilyCall s c) (service.run (service.run start pre) post) := by
    refine Calls.Holds.run ?_ ?_ hpost hdead
    · intro s e h he
      obtain ⟨hnext, hkeeps, -⟩ := family_world he h.store.1
      refine ⟨⟨hnext, hkeeps.enumerated _ h.store.2.enumerated,
        hkeeps.revokedBut h.store.2.enumerated h.store.2.revoked, ?_⟩,
        family_arrives he h.store.1⟩
      show ∀ t j, (t, j) ∈ (world s.store e).1.claimed → _
      rw [claimed_world]
      exact h.store.2.claimed
    · intro s k c ok h hok hk
      obtain ⟨hnext, hself, hothers⟩ := family_exec ⟨h.store.1, h.call⟩ hok hk
      have hruns := (hok c (Option.mem_def.mpr hk)).2.2
      exact ⟨⟨hnext, h.store.2.exec h.store.1 (h.call k c hk) hruns⟩, hself, hothers⟩
  intro t j hclaimed hfamily
  rw [Calls.Service.run_append] at hclaimed
  exact hlater.store.2.claimed t j hclaimed hfamily

/-- The token `loginRefresh` is rotated to. -/
def rotatedRefresh : Claims := ⟨7, [], .refresh, 5, 1, [], 0, refreshTokenTTL⟩

/-- A login, and a refresh of its token up to and including the script. -/
def sampleClaim : List Action :=
  List.flatten
    [[.world (.register 7), .world (.request (.login 7 []))], List.replicate 4 (.exec 0 true),
     [.world (.request (.refresh loginRefresh))], List.replicate 4 (.exec 1 true)]

/-- The refresh completes; then the token comes again and reuse is detected,
with three tokens to revoke. -/
def sampleDetection : List Action :=
  List.flatten
    [sampleClaim, List.replicate 3 (.exec 1 true), [.world (.request (.refresh loginRefresh))],
     List.replicate 9 (.exec 2 true)]

theorem reuse_kills_family_sample :
    FamilyKilled sampleDetection
      (.world (.request (.refresh rotatedRefresh)) :: List.replicate 9 (.exec 3 true)) :=
  reuse_kills_family _ _ (by decide)

/-- Reuse is detected while the refresh that claimed the token has yet to
issue the new ones. -/
def earlyDetection : List Action :=
  List.flatten
    [sampleClaim, [.world (.request (.refresh loginRefresh))], List.replicate 7 (.exec 2 true)]

/-- The token it then issues is let through. -/
theorem rotation_survives_detection :
    ¬FamilyKilled earlyDetection
      ((List.replicate 3 (.exec 1 true) : List Action)
        ++ ([.world (.request (.refresh rotatedRefresh))] : List Action)
        ++ (List.replicate 4 (.exec 3 true) : List Action)) := by
  intro h
  have hbefore := h 2 _ loginRefresh rfl (by decide) rotatedRefresh 3 (by decide) rfl
  revert hbefore
  decide

end UsbVault.Auth
