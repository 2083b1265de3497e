import UsbVault.Auth.SessionSteps
import Mathlib.Logic.Relation

/-!
# The token epoch

What a raised epoch is worth: durably, on the refresh path that reads the
database (`superseded_never_refreshed`), and on the hot path that reads the
mirror in Redis. There a fill of the mirror with an epoch read before the
bump may be written after it; in runs without such a write, without loss of
keys and with the mirror answering in its time, the mirror never decreases
(`mirror_never_decreases`). Writes that do not overlap are such a run
(`inOrder_of_setsApart`).
-/

namespace UsbVault.Auth

open Wire Expiring

/-! ## The durable epoch -/

/-- The user whose epoch the call has raised in the database, and to what. -/
def Call.bumped : Call → Option (UserID × Int)
  | .logout userID (.fillMirror newEpoch) => some (userID, newEpoch)
  | .logout userID (.done (some newEpoch)) => some (userID, newEpoch)
  | .deleteAccount userID _ (.fillMirror newEpoch) => some (userID, newEpoch)
  | .deleteAccount userID _ (.sweep newEpoch _) => some (userID, newEpoch)
  | _ => none

/-- Some call has raised the user's epoch to `epoch`. -/
def Bumped (s : Sessions) (userID : UserID) (epoch : Int) : Prop :=
  ∃ c ∈ s.calls, c.bumped = some (userID, epoch)

/-- The epoch a refresh has read for its new tokens. -/
def Call.carries : Call → Option (Claims × Int)
  | .refresh token (.untilExpiry epoch) => some (token, epoch)
  | .refresh token (.script epoch _) => some (token, epoch)
  | .refresh token (.generate epoch) => some (token, epoch)
  | _ => none

/-- `descendant` came out of refreshes that began with `token`. -/
def Descends (s : Store) (token descendant : Claims) : Prop :=
  Relation.ReflTransGen (fun t t' => (t, t') ∈ s.rotations) token descendant

/-- A call's epochs against its token and the users' rows. -/
structure EpochSound (s : Store) (c : Call) : Prop where
  carries : ∀ token epoch, c.carries = some (token, epoch) → epoch ≤ token.tokenEpoch
  bumped : ∀ userID epoch, c.bumped = some (userID, epoch) →
    ∃ row, s.users userID = some row ∧ epoch ≤ row.tokenEpoch

/-- No refresh has issued a token with a newer epoch than the one presented. -/
def RotationsFall (s : Store) : Prop :=
  ∀ token newToken, (token, newToken) ∈ s.rotations → newToken.tokenEpoch ≤ token.tokenEpoch

theorem EpochSound.mono {s s' : Store} {c : Call} (h : EpochSound s c) (hrows : s.RowsGrow s') :
    EpochSound s' c := by
  refine ⟨h.carries, ?_⟩
  intro userID epoch hbumped
  obtain ⟨row, hrow, hle⟩ := h.bumped userID epoch hbumped
  obtain ⟨row', hrow', hle'⟩ := hrows userID row hrow
  exact ⟨row', hrow', hle.trans hle'⟩

theorem EpochSound.request {s : Store} (request : Request) : EpochSound s request.call := by
  constructor
  · intro token epoch h
    cases request <;> simp [Request.call, Call.carries] at h
  · intro userID epoch h
    cases request <;> simp [Request.call, Call.bumped] at h

theorem carries_refresh {s : Store} {k : Nat} {token : Claims} {pc : RefreshPc} {ok : Bool}
    (h : EpochSound s (.refresh token pc)) :
    ∀ t epoch, (Call.refresh token (execRefresh s k token pc ok).2).carries = some (t, epoch) →
      epoch ≤ t.tokenEpoch := by
  intro t epoch hcarries
  have hmove : RefreshMove s token pc ok (execRefresh s k token pc ok).2 := execRefresh_move pc
  generalize (execRefresh s k token pc ok).2 = next at hmove hcarries
  cases hmove with
  | ended hend => exact h.carries t epoch hcarries
  | current hrow hle =>
    simp only [Call.carries, Option.some.injEq, Prod.mk.injEq] at hcarries
    obtain ⟨rfl, rfl⟩ := hcarries
    exact hle
  | unexpired hlive => exact h.carries t epoch hcarries
  | claimed hnew httl => exact h.carries t epoch hcarries
  | _ => simp [Call.carries] at hcarries

theorem row_of_bumpedEpoch {s : Store} {userID : UserID} {newEpoch : Int} {ok : Bool}
    {cmd : Command} (h : s.bumpedEpoch userID ok = some newEpoch)
    (hcmd : cmd = .bumpEpoch userID ∨ cmd = .softDelete userID) :
    ∃ row, (s.apply cmd).users userID = some row ∧ row.tokenEpoch = newEpoch := by
  obtain ⟨-, row, hrow, rfl⟩ := ok_of_bumpedEpoch h
  rcases hcmd with rfl | rfl
  · simp [Store.apply, Store.updateUser, hrow]
  · simp [Store.apply, Store.updateUser, hrow]

theorem bumped_exec {s : Store} {c : Call} {k : Nat} {ok : Bool} {userID : UserID} {epoch : Int}
    (h : (c.exec s k ok).2.bumped = some (userID, epoch)) :
    c.bumped = some (userID, epoch) ∧ (c.exec s k ok).2.mirrorWrite = none
      ∨ ∃ row, (s.apply (c.exec s k ok).1).users userID = some row ∧ row.tokenEpoch = epoch := by
  cases c with
  | login userID' deviceID pc => simp [Call.exec, Call.bumped] at h
  | refresh token pc => simp [Call.exec, Call.bumped] at h
  | validate token pc => simp [Call.exec, Call.bumped] at h
  | logout userID' pc =>
    cases pc with
    | sweep pc => cases pc <;> simp [Call.exec, execLogout, Call.bumped] at h
    | bump =>
      right
      cases hbumped : s.bumpedEpoch userID' ok with
      | none => simp [Call.exec, execLogout, hbumped, Call.bumped] at h
      | some newEpoch =>
        simp [Call.exec, execLogout, hbumped, Call.bumped] at h
        obtain ⟨rfl, rfl⟩ := h
        simp only [Call.exec, execLogout, hbumped]
        exact row_of_bumpedEpoch hbumped (.inl rfl)
    | fillMirror newEpoch => exact .inl ⟨h, rfl⟩
    | done newEpoch => exact .inl ⟨h, rfl⟩
  | deleteAccount userID' tokens pc =>
    cases pc with
    | transaction =>
      right
      cases hbumped : s.bumpedEpoch userID' ok with
      | none => simp [Call.exec, execDeletion, hbumped, Call.bumped] at h
      | some newEpoch =>
        simp [Call.exec, execDeletion, hbumped, Call.bumped] at h
        obtain ⟨rfl, rfl⟩ := h
        simp only [Call.exec, execDeletion, hbumped]
        exact row_of_bumpedEpoch hbumped (.inr rfl)
    | fillMirror newEpoch => exact .inl ⟨h, rfl⟩
    | sweep newEpoch pc => exact .inl ⟨h, rfl⟩
    | failed => simp [Call.exec, execDeletion, Call.bumped] at h

theorem EpochSound.exec {s : Store} {c : Call} {k : Nat} {ok : Bool} (h : EpochSound s c) :
    EpochSound (s.apply (c.exec s k ok).1) (c.exec s k ok).2 := by
  constructor
  · cases c with
    | refresh token pc => exact carries_refresh h
    | _ => intro token epoch hcarries; simp [Call.exec, Call.carries] at hcarries
  · intro userID epoch hbumped
    rcases bumped_exec hbumped with ⟨hold, -⟩ | ⟨row, hrow, hepoch⟩
    · exact (h.mono Store.rowsGrow_apply).bumped userID epoch hold
    · exact ⟨row, hrow, hepoch.ge⟩

theorem RotationsFall.exec {s : Store} {c : Call} {k : Nat} {ok : Bool} (h : RotationsFall s)
    (hc : EpochSound s c) : RotationsFall (s.apply (c.exec s k ok).1) := by
  intro token newToken hmem
  rcases Store.mem_rotations_apply.mp hmem with hold | ⟨access, refresh, hissue, hnew⟩
  · exact h token newToken hold
  · have hstatement : Statement s k c ok (c.exec s k ok).1 := exec_statement c
    rw [hissue] at hstatement
    cases hstatement with
    | rotate hpair =>
      have hle := hc.carries _ _ rfl
      simp only [Store.generateTokenPairWithEpoch, Prod.mk.injEq] at hpair
      obtain ⟨rfl, rfl⟩ := hpair
      rcases hnew with rfl | rfl
      · exact hle
      · exact hle

/-- **In every run** the epochs are in order. -/
theorem run_epochSound (as : List Action) :
    Calls.Holds RotationsFall (fun s _ c => EpochSound s c) (service.run start as) := by
  have hfree : Run.Each service.step (fun _ _ => True) start as :=
    Calls.each_of_free (fun _ _ => trivial) as start
  have hstart : Calls.Holds RotationsFall (fun s _ c => EpochSound s c) start :=
    Calls.Holds.initial (by intro token newToken h; simp [Store.empty] at h)
  refine Calls.Holds.run ?_ ?_ hfree hstart
  · intro s e h _
    refine ⟨?_, fun _ c _ hc => hc.mono (Store.rowsGrow_world e), ?_⟩
    · cases e with
      | register userID =>
        show RotationsFall (world s.store (.register userID)).1
        rw [world]
        split <;> exact h.store
      | _ => exact h.store
    · intro c hc
      cases e with
      | request request =>
        obtain rfl : request.call = c := by simpa [service, world] using hc
        exact .request request
      | _ => simp [service, world] at hc
  · intro s k c ok h _ hk
    exact ⟨h.store.exec (h.call k c hk), (h.call k c hk).exec,
      fun j c' _ _ hc' => hc'.mono Store.rowsGrow_apply⟩

/-- Once refused, a refresh does not succeed. -/
def RefusedStale (token : Claims) (c : Call) : Prop :=
  ∃ pc, c = .refresh token pc ∧ ((∃ dbEpoch, pc = .refuseStale dbEpoch) ∨ ∃ err, pc = .failed err)

theorem RefusedStale.exec {s : Store} {k : Nat} {token : Claims} {c : Call} {ok : Bool}
    (h : RefusedStale token c) : RefusedStale token (c.exec s k ok).2 := by
  obtain ⟨pc, rfl, ⟨dbEpoch, rfl⟩ | ⟨err, rfl⟩⟩ := h
  · exact ⟨.failed .tokenEpochStale, rfl, .inr ⟨_, rfl⟩⟩
  · exact ⟨.failed err, rfl, .inr ⟨err, rfl⟩⟩

theorem loadUser_refuses {s : Store} {k : Nat} {token : Claims} {ok : Bool} {row : UserRow}
    (hrow : s.users token.userID = some row) (hold : token.tokenEpoch < row.tokenEpoch) :
    RefusedStale token ((Call.refresh token .loadUser).exec s k ok).2 := by
  refine ⟨(execRefresh s k token .loadUser ok).2, rfl, ?_⟩
  have hmove : RefreshMove s token .loadUser ok (execRefresh s k token .loadUser ok).2 :=
    execRefresh_move .loadUser
  generalize (execRefresh s k token .loadUser ok).2 = next at hmove
  cases hmove with
  | ended hend => rcases hend with ⟨err, h⟩ | ⟨access, refresh, h⟩ <;> cases h
  | refused h => exact .inr ⟨_, rfl⟩
  | stale hrow' h => exact .inl ⟨_, rfl⟩
  | current hrow' hle =>
    rw [hrow] at hrow'
    obtain rfl := Option.some.inj hrow'
    omega

theorem Descends.epoch_le {s : Store} (h : RotationsFall s) {token descendant : Claims}
    (hdesc : Descends s token descendant) : descendant.tokenEpoch ≤ token.tokenEpoch := by
  induction hdesc with
  | refl => exact le_refl _
  | tail _ hlast ih => exact (h _ _ hlast).trans ih

/-- **A superseded token is not refreshed.** In every run, a refresh that
reads the database after some call has raised the user's epoch past the
token's does not succeed, whatever happens to Redis; and no token that came
out of refreshes beginning with a token of an older epoch reaches the newer
one. -/
theorem superseded_never_refreshed (as : List Action) (newEpoch : Int) :
    (∀ pre k ok post token access refresh, as = pre ++ .exec k ok :: post →
      (service.run start pre).calls[k]? = some (.refresh token .loadUser) →
      Bumped (service.run start pre) token.userID newEpoch →
      token.tokenEpoch < newEpoch →
      (service.run start as).calls[k]? ≠ some (.refresh token (.succeeded access refresh)))
    ∧ ∀ token descendant, token.tokenEpoch < newEpoch →
      Descends (service.run start as).store token descendant →
      descendant.tokenEpoch < newEpoch := by
  constructor
  · intro pre k ok post token access refresh has hk hbumped hold hsucceeded
    have hsound := run_epochSound pre
    obtain ⟨c, hc, hraised⟩ := hbumped
    obtain ⟨j, hj⟩ := List.getElem?_of_mem hc
    obtain ⟨row, hrow, hle⟩ := (hsound.call j c hj).bumped _ _ hraised
    have hrefused : RefusedStale token
        ((Call.refresh token .loadUser).exec (service.run start pre).store k ok).2 :=
      loadUser_refuses hrow (by omega)
    have hnext : (service.step (service.run start pre) (.exec k ok)).calls[k]?
        = some ((Call.refresh token .loadUser).exec (service.run start pre).store k ok).2 :=
      Calls.Service.step_exec_self hk ok
    have hdone : ∀ st c o, RefusedStale token c → RefusedStale token (service.exec k st c o).2 :=
      fun _ _ _ h => h.exec
    obtain ⟨c', hc', pc, rfl, hpc⟩ := Calls.Service.stays hdone post hnext hrefused
    rw [has, Calls.Service.run_append, Calls.Service.run_cons, hc'] at hsucceeded
    rcases hpc with ⟨dbEpoch, rfl⟩ | ⟨err, rfl⟩ <;> cases hsucceeded
  · intro token descendant hold hdesc
    have hle := hdesc.epoch_le (run_epochSound as).store
    omega

/-- The refresh token of the first login, and the one it is rotated to. -/
def sampleRefresh : Claims := ⟨7, [], .refresh, 2, 1, [], 0, refreshTokenTTL⟩
def sampleRotated : Claims := ⟨7, [], .refresh, 5, 1, [], 0, refreshTokenTTL⟩

/-- A login of user 7, a refresh, a logout, and the refresh of the rotated
token up to its database read. -/
def sampleLoggedOut : List Action :=
  List.flatten
    [[.world (.register 7), .world (.request (.login 7 []))], List.replicate 4 (.exec 0 true),
     [.world (.request (.refresh sampleRefresh))], List.replicate 7 (.exec 1 true),
     [.world (.request (.logout 7 []))], List.replicate 10 (.exec 2 true),
     [.world (.request (.refresh sampleRotated)), .exec 3 true]]

theorem superseded_never_refreshed_sample :
    (∀ access refresh, (service.run start (sampleLoggedOut ++ [.exec 3 true])).calls[3]?
      ≠ some (.refresh sampleRotated (.succeeded access refresh)))
    ∧ sampleRotated.tokenEpoch < 1 := by
  constructor
  · intro access refresh
    exact (superseded_never_refreshed _ 1).1 sampleLoggedOut 3 true [] sampleRotated access refresh
      rfl (by decide) ⟨.logout 7 (.done (some 1)), by decide, rfl⟩ (by decide)
  · exact (superseded_never_refreshed (sampleLoggedOut ++ [.exec 3 true]) 1).2
      sampleRefresh sampleRotated (by decide) (.single (by decide))

/-! ## The mirror -/

/-- The state of a logout or deletion that has yet to mirror its epoch. -/
def Call.bumpWrite : Call → Option (UserID × Int)
  | .logout userID (.fillMirror newEpoch) => some (userID, newEpoch)
  | .deleteAccount userID _ (.fillMirror newEpoch) => some (userID, newEpoch)
  | _ => none

/-- The token of a validation that is about to read the mirror. -/
def Call.epochCheck : Call → Option Claims
  | .validate token .checkEpoch => some token
  | _ => none

/-- A newer epoch than the token's was written to the mirror. -/
def Superseded (s : Store) (token : Claims) : Prop :=
  ∃ written ∈ s.mirrored, written.1 = token.userID ∧ token.tokenEpoch < written.2

/-- Nothing newer than what the call writes was written before. -/
def Call.WritesInOrder (s : Store) (c : Call) : Prop :=
  ∀ write ∈ c.mirrorWrite, ∀ written ∈ s.mirrored, written.1 = write.1 → written.2 ≤ write.2

/-- The mirror answers the check of a superseded token, and its key has not
run out. -/
def Call.ReadsInTime (s : Store) (c : Call) (ok : Bool) : Prop :=
  ∀ token ∈ c.epochCheck, Superseded s token →
    ok = true ∧ ¬s.mirror.RunOut s.clock token.userID

/-- Redis keeps its keys, an epoch is mirrored only while no newer one has
been, and the mirror is there when it is read for a superseded token. -/
def MirrorInOrder (s : Sessions) : Action → Prop
  | .world e => e ≠ .cacheLoss
  | .exec k ok =>
    ∀ c ∈ s.calls[k]?, (ok = true → c.WritesInOrder s.store) ∧ c.ReadsInTime s.store ok

instance (s : Store) (token : Claims) : Decidable (Superseded s token) :=
  inferInstanceAs (Decidable (∃ written ∈ s.mirrored, _))

instance (s : Store) (c : Call) : Decidable (c.WritesInOrder s) :=
  inferInstanceAs (Decidable (∀ write ∈ c.mirrorWrite, ∀ written ∈ s.mirrored, _))

instance (s : Store) (c : Call) (ok : Bool) : Decidable (c.ReadsInTime s ok) :=
  inferInstanceAs (Decidable (∀ token ∈ c.epochCheck, _))

instance (s : Sessions) (a : Action) : Decidable (MirrorInOrder s a) :=
  match a with
  | .world e => inferInstanceAs (Decidable (e ≠ .cacheLoss))
  | .exec k _ => inferInstanceAs (Decidable (∀ c ∈ s.calls[k]?, _ ∧ _))

/-- The mirror holds the newest epoch written to it. -/
structure MirrorSound (s : Store) : Prop where
  newest : ∀ userID epoch, (userID, epoch) ∈ s.mirrored →
    ∃ top last, s.mirror.entry userID = some (top, last) ∧ epoch ≤ top
  written : ∀ userID top last, s.mirror.entry userID = some (top, last) → (userID, top) ∈ s.mirrored

theorem MirrorSound.empty : MirrorSound .empty :=
  ⟨by intro userID epoch h; simp [Store.empty] at h,
    by intro userID top last h; simp [Store.empty, Keys.empty] at h⟩

theorem MirrorSound.setMirror {s : Store} {userID : UserID} {epoch : Int} (h : MirrorSound s)
    (horder : ∀ written ∈ s.mirrored, written.1 = userID → written.2 ≤ epoch) :
    MirrorSound (s.apply (.setMirror userID epoch)) := by
  constructor
  · intro userID' epoch' hmem
    by_cases heq : userID' = userID
    · subst heq
      refine ⟨epoch, _, Keys.entry_set_self, ?_⟩
      rcases Store.mem_mirrored_apply.mp hmem with hold | hnew
      · exact horder _ hold rfl
      · simp only [Command.setMirror.injEq] at hnew
        exact hnew.2.ge
    · rcases Store.mem_mirrored_apply.mp hmem with hold | hnew
      · obtain ⟨top, last, htop, hle⟩ := h.newest userID' epoch' hold
        exact ⟨top, last, by rw [Store.apply, Keys.entry_set_ne heq, htop], hle⟩
      · simp only [Command.setMirror.injEq] at hnew
        exact absurd hnew.1.symm heq
  · intro userID' top last htop
    rw [Store.mem_mirrored_apply]
    by_cases heq : userID' = userID
    · subst heq
      rw [Store.apply, Keys.entry_set_self] at htop
      simp only [Option.some.injEq, Prod.mk.injEq] at htop
      exact .inr (by rw [htop.1])
    · rw [Store.apply, Keys.entry_set_ne heq] at htop
      exact .inl (h.written userID' top last htop)

theorem MirrorSound.exec {s : Store} {c : Call} {k : Nat} {ok : Bool} (h : MirrorSound s)
    (horder : ok = true → c.WritesInOrder s) : MirrorSound (s.apply (c.exec s k ok).1) := by
  have hstatement : Statement s k c ok (c.exec s k ok).1 := exec_statement c
  generalize (c.exec s k ok).1 = cmd at hstatement
  cases hstatement with
  | setMirror hwrite => exact h.setMirror (horder rfl _ hwrite)
  | _ => exact ⟨h.newest, h.written⟩

theorem MirrorSound.world {s : Store} {e : Event} (h : MirrorSound s) (he : e ≠ .cacheLoss) :
    MirrorSound (world s e).1 := by
  cases e with
  | register userID =>
    rw [Auth.world]
    split
    · exact h
    · exact ⟨h.newest, h.written⟩
  | cacheLoss => exact absurd rfl he
  | _ => exact ⟨h.newest, h.written⟩

theorem mirrored_world {s : Store} (e : Event) : (world s e).1.mirrored = s.mirrored := by
  cases e with
  | register userID =>
    rw [world]
    split <;> rfl
  | _ => rfl

theorem accepted_exec {s : Store} {c : Call} {k : Nat} {ok : Bool} {token : Claims}
    (h : (c.exec s k ok).2 = .validate token .accepted) :
    c = .validate token .accepted
      ∨ c = .validate token .checkEpoch
        ∧ s.currentEpochFromRedis token.userID ok ≤ token.tokenEpoch := by
  cases c with
  | validate token' pc =>
    simp only [Call.exec, Call.validate.injEq] at h
    obtain ⟨rfl, hpc⟩ := h
    cases pc with
    | parse =>
      rw [execValidation] at hpc
      split at hpc <;> cases hpc
    | checkRevoked =>
      rw [execValidation] at hpc
      split at hpc <;> cases hpc
    | checkEpoch =>
      rw [execValidation] at hpc
      split at hpc
      · cases hpc
      · rename_i hcurrent
        exact .inr ⟨rfl, not_lt.mp hcurrent⟩
    | accepted => exact .inl rfl
    | rejected => cases hpc
  | _ => simp [Call.exec] at h

theorem MirrorSound.rejects {s : Store} {token : Claims} {ok : Bool} (h : MirrorSound s)
    (htime : (Call.validate token .checkEpoch).ReadsInTime s ok) {epoch : Int}
    (hmem : (token.userID, epoch) ∈ s.mirrored) (hold : token.tokenEpoch < epoch) :
    token.tokenEpoch < s.currentEpochFromRedis token.userID ok := by
  obtain ⟨rfl, hlive⟩ := htime token rfl ⟨_, hmem, rfl, hold⟩
  obtain ⟨top, last, htop, hle⟩ := h.newest token.userID epoch hmem
  have hfound : s.mirror.get s.clock token.userID = some top := by
    rw [Keys.get_eq_some]
    refine ⟨last, htop, ?_⟩
    by_contra hpast
    exact hlive ⟨(top, last), htop, not_le.mp hpast⟩
  have hread : s.currentEpochFromRedis token.userID true = top := by
    simp [Store.currentEpochFromRedis, hfound]
  omega

/-- The validations of tokens of the user below `epoch` that are accepted
were accepted in `before`. -/
def AcceptedBefore (before : Sessions) (userID : UserID) (epoch : Int) (j : Nat) (c : Call) :
    Prop :=
  ∀ token, c = .validate token .accepted → token.userID = userID → token.tokenEpoch < epoch →
    before.calls[j]? = some (Call.validate token .accepted)

/-- **In every run in order** the mirror is sound, and once an epoch is
mirrored no older token is accepted. -/
theorem run_mirrorSound {before s : Sessions} {userID : UserID} {epoch : Int}
    {as : List Action} (hrun : Run.Each service.step MirrorInOrder s as)
    (h : Calls.Holds (fun st => MirrorSound st ∧ (userID, epoch) ∈ st.mirrored)
      (fun _ j c => AcceptedBefore before userID epoch j c) s) :
    Calls.Holds (fun st => MirrorSound st ∧ (userID, epoch) ∈ st.mirrored)
      (fun _ j c => AcceptedBefore before userID epoch j c) (service.run s as) := by
  refine Calls.Holds.run ?_ ?_ hrun h
  · intro s e h hok
    refine ⟨⟨h.store.1.world hok, ?_⟩, fun _ _ _ hc => hc, ?_⟩
    · show (userID, epoch) ∈ (world s.store e).1.mirrored
      rw [mirrored_world]
      exact h.store.2
    · intro c hc token haccepted
      subst haccepted
      cases e with
      | request request => cases request <;> simp [service, world, Request.call] at hc
      | _ => simp [service, world] at hc
  · intro s k c ok h hok hk
    obtain ⟨horder, htime⟩ := hok c (Option.mem_def.mpr hk)
    refine ⟨⟨h.store.1.exec horder, Store.mem_mirrored_apply.mpr (.inl h.store.2)⟩, ?_,
      fun j c' _ _ hc' => hc'⟩
    intro token haccepted huser hold
    rcases accepted_exec haccepted with hc | ⟨hc, hread⟩
    · exact h.call k c hk token hc huser hold
    · subst hc huser
      have hreject := h.store.1.rejects htime h.store.2 hold
      omega

theorem run_mirror {s : Sessions} {as : List Action}
    (hrun : Run.Each service.step MirrorInOrder s as) (h : MirrorSound s.store) :
    MirrorSound (service.run s as).store := by
  have hholds : Calls.Holds MirrorSound (fun _ _ _ => True) s := ⟨h, fun _ _ _ => trivial⟩
  refine (Calls.Holds.run ?_ ?_ hrun hholds).store
  · intro s e h hok
    exact ⟨h.store.world hok, fun _ _ _ _ => trivial, fun _ _ => trivial⟩
  · intro s k c ok h hok hk
    exact ⟨h.store.exec (hok c (Option.mem_def.mpr hk)).1, trivial, fun _ _ _ _ _ => trivial⟩

theorem mirrored_run (s : Sessions) (as : List Action) {userID : UserID} {epoch : Int}
    (h : (userID, epoch) ∈ s.store.mirrored) :
    (userID, epoch) ∈ (service.run s as).store.mirrored := by
  have hgrows := Calls.Service.grows (S := service)
    (R := fun st st' => ∀ p ∈ st.mirrored, p ∈ st'.mirrored)
    (fun _ _ hp => hp) (fun h₁ h₂ p hp => h₂ p (h₁ p hp))
    (fun st e p hp => by
      show p ∈ (world st e).1.mirrored
      rw [mirrored_world]
      exact hp)
    (fun k st c ok p hp => Store.mem_mirrored_apply.mpr (.inl hp)) as s
  exact hgrows _ h

/-- The mirror of every user never decreases along the run; and from the
moment a bump has written its epoch, no token of the user with an older one
is accepted any more. -/
def EpochEnforced (pre post : List Action) : Prop :=
  (∀ userID top last, (service.run start pre).store.mirror.entry userID = some (top, last) →
    ∃ top' last', (service.run start (pre ++ post)).store.mirror.entry userID = some (top', last')
      ∧ top ≤ top')
  ∧ ∀ (k : Nat) (rest : List Action) (c : Call) (userID : UserID) (newEpoch : Int),
    post = .exec k true :: rest →
    (service.run start pre).calls[k]? = some c → c.bumpWrite = some (userID, newEpoch) →
    ∀ (j : Nat) (token : Claims), token.userID = userID → token.tokenEpoch < newEpoch →
      (service.run start (pre ++ post)).calls[j]? = some (Call.validate token .accepted) →
      (service.run start pre).calls[j]? = some (Call.validate token .accepted)

theorem bumpWrite_writes {s : Store} {c : Call} {k : Nat} {userID : UserID} {newEpoch : Int}
    (h : c.bumpWrite = some (userID, newEpoch)) :
    (c.exec s k true).1 = .setMirror userID newEpoch
      ∧ ∀ token, (c.exec s k true).2 ≠ .validate token .accepted := by
  cases c with
  | logout userID' pc =>
    cases pc with
    | fillMirror epoch =>
      simp only [Call.bumpWrite, Option.some.injEq, Prod.mk.injEq] at h
      obtain ⟨rfl, rfl⟩ := h
      exact ⟨rfl, fun token => by simp [Call.exec]⟩
    | _ => simp [Call.bumpWrite] at h
  | deleteAccount userID' tokens pc =>
    cases pc with
    | fillMirror epoch =>
      simp only [Call.bumpWrite, Option.some.injEq, Prod.mk.injEq] at h
      obtain ⟨rfl, rfl⟩ := h
      exact ⟨rfl, fun token => by simp [Call.exec]⟩
    | _ => simp [Call.bumpWrite] at h
  | _ => simp [Call.bumpWrite] at h

/-- **The hot path**: in every run in which Redis keeps its keys, an epoch
is mirrored only while no newer one has been, and the mirror is there when
it is read for a superseded token, the mirror never decreases, and once a
bump has written its epoch no older token is accepted. -/
theorem mirror_never_decreases (pre post : List Action)
    (hrun : Run.Each service.step MirrorInOrder start (pre ++ post)) :
    EpochEnforced pre post := by
  obtain ⟨hpre, hpost⟩ := Run.Each.append.mp hrun
  have hsound : MirrorSound (service.run start pre).store := run_mirror hpre .empty
  constructor
  · intro userID top last htop
    have hlater : MirrorSound (service.run start (pre ++ post)).store := run_mirror hrun .empty
    have hmem : (userID, top) ∈ (service.run start (pre ++ post)).store.mirrored := by
      rw [Calls.Service.run_append]
      exact mirrored_run _ post (hsound.written userID top last htop)
    exact hlater.newest userID top hmem
  · intro k rest c userID newEpoch hpost' hk hwrite j token huser hold haccepted
    subst hpost'
    obtain ⟨hcommand, hnot⟩ := bumpWrite_writes (s := (service.run start pre).store) (k := k) hwrite
    obtain ⟨hok, hrest⟩ := hpost
    have hstep := Calls.Service.step_exec (S := service) hk true
    have hnow : Calls.Holds (fun st => MirrorSound st ∧ (userID, newEpoch) ∈ st.mirrored)
        (fun _ j c => AcceptedBefore (service.run start pre) userID newEpoch j c)
        (service.step (service.run start pre) (.exec k true)) := by
      rw [hstep]
      refine ⟨⟨hsound.exec (hok c (Option.mem_def.mpr hk)).1, ?_⟩, ?_⟩
      · exact Store.mem_mirrored_apply.mpr (.inr hcommand)
      · intro j c' hj token' haccepted' _ _
        subst haccepted'
        by_cases hjk : j = k
        · subst hjk
          obtain ⟨hlt, -⟩ := List.getElem?_eq_some_iff.mp hk
          simp [hlt] at hj
          exact absurd hj (hnot token')
        · rw [List.getElem?_set_ne (Ne.symm hjk)] at hj
          exact hj
    have hlater := run_mirrorSound hrest hnow
    rw [Calls.Service.run_append, Calls.Service.run_cons] at haccepted
    exact hlater.call j _ haccepted token rfl huser hold

/-! ## Writes that do not overlap -/

/-- Redis keeps its keys, an epoch is mirrored only while no other call is
between its read of the user's epoch and its SET, and the mirror is there when
it is read for a superseded token. -/
def SetsApart (s : Sessions) : Action → Prop
  | .world e => e ≠ .cacheLoss
  | .exec k ok =>
    ∀ c ∈ s.calls[k]?, c.ReadsInTime s.store ok
      ∧ (ok = true → ∀ write ∈ c.mirrorWrite, ∀ (j : Nat) c', s.calls[j]? = some c' → j ≠ k →
        ∀ write' ∈ c'.mirrorWrite, write'.1 ≠ write.1)

/-- The user's row has at least this epoch. -/
def Backed (s : Store) (write : UserID × Int) : Prop :=
  ∃ row, s.users write.1 = some row ∧ write.2 ≤ row.tokenEpoch

theorem Backed.mono {s s' : Store} {write : UserID × Int} (h : Backed s write)
    (hrows : s.RowsGrow s') : Backed s' write := by
  obtain ⟨row, hrow, hle⟩ := h
  obtain ⟨row', hrow', hle'⟩ := hrows write.1 row hrow
  exact ⟨row', hrow', hle.trans hle'⟩

theorem read_of_bumped {s : Store} {c : Call} {k : Nat} {ok : Bool} {write : UserID × Int}
    (h : (c.exec s k ok).2.mirrorWrite = some write)
    (hbumped : (c.exec s k ok).2.bumped = some write) :
    ∃ row, (s.apply (c.exec s k ok).1).users write.1 = some row ∧ row.tokenEpoch = write.2 := by
  refine (bumped_exec hbumped).resolve_left ?_
  rintro ⟨-, hnone⟩
  cases hnone.symm.trans h

theorem read_exec {s : Store} {c : Call} {k : Nat} {ok : Bool} {userID : UserID} {epoch : Int}
    (h : (c.exec s k ok).2.mirrorWrite = some (userID, epoch)) :
    ∃ row, (s.apply (c.exec s k ok).1).users userID = some row ∧ row.tokenEpoch = epoch := by
  have hread : ∀ id row, s.users id = some row →
      ∃ row', (s.apply .nothing).users id = some row' ∧ row'.tokenEpoch = row.tokenEpoch :=
    fun _ row hrow => ⟨row, hrow, rfl⟩
  cases c with
  | validate token pc => simp [Call.exec, Call.mirrorWrite] at h
  | login userID' deviceID pc =>
    cases pc with
    | load =>
      cases hrow : if ok then s.users userID' else none with
      | none => simp [Call.exec, execLogin, hrow, Call.mirrorWrite] at h
      | some row =>
        simp [Call.exec, execLogin, hrow, Call.mirrorWrite] at h
        obtain ⟨rfl, rfl⟩ := h
        simp only [Call.exec, execLogin, hrow]
        exact hread _ row (Option.ite_none_right_eq_some.mp hrow).2
    | generate epoch' => cases ok <;> simp [Call.exec, execLogin, Call.mirrorWrite] at h
    | _ => simp [Call.exec, execLogin, Call.mirrorWrite] at h
  | refresh token pc =>
    have hmove : RefreshMove s token pc ok (execRefresh s k token pc ok).2 := execRefresh_move pc
    simp only [Call.exec] at h ⊢
    generalize (execRefresh s k token pc ok).2 = next at hmove h
    cases hmove with
    | stale hrow _ =>
      simp only [Call.mirrorWrite, Option.some.injEq, Prod.mk.injEq] at h
      obtain ⟨rfl, rfl⟩ := h
      have hselect : (execRefresh s k token .loadUser true).1 = .nothing := by
        rw [execRefresh]
        split
        · rfl
        · split
          · rfl
          · split <;> rfl
      rw [hselect]
      exact hread _ _ hrow
    | ended hend =>
      rcases hend with ⟨err, rfl⟩ | ⟨access, refresh, rfl⟩ <;> simp [Call.mirrorWrite] at h
    | _ => simp [Call.mirrorWrite] at h
  | logout userID' pc =>
    refine read_of_bumped h ?_
    simp only [Call.exec] at h ⊢
    generalize (execLogout s userID' pc ok).2 = next at h ⊢
    cases next <;> first | exact h | cases h
  | deleteAccount userID' tokens pc =>
    refine read_of_bumped h ?_
    simp only [Call.exec] at h ⊢
    generalize (execDeletion s userID' tokens pc ok).2 = next at h ⊢
    cases next <;> first | exact h | cases h

/-- What the call is about to write is backed by the row, and not older than
what is mirrored. -/
def Call.Fresh (s : Store) (c : Call) : Prop :=
  (∀ write ∈ c.mirrorWrite, Backed s write) ∧ c.WritesInOrder s

/-- Rows back what is mirrored, and every write outstanding is fresh. -/
abbrev Fresh (s : Sessions) : Prop :=
  Calls.Holds (fun st => ∀ written ∈ st.mirrored, Backed st written) (fun st _ c => c.Fresh st) s

theorem Fresh.step {s : Sessions} {a : Action} (hapart : SetsApart s a) (h : Fresh s) :
    Fresh (service.step s a) := by
  refine Calls.Holds.step ?_ ?_ s a hapart h
  · intro s e h _
    have hgrow : s.store.RowsGrow (world s.store e).1 := Store.rowsGrow_world e
    have hsame : (world s.store e).1.mirrored = s.store.mirrored := mirrored_world e
    refine ⟨?_, ?_, ?_⟩
    · intro written hmem
      exact (h.store written (hsame ▸ hmem)).mono hgrow
    · intro k c _ hc
      refine ⟨fun write hwrite => (hc.1 write hwrite).mono hgrow, ?_⟩
      intro write hwrite written hmem
      exact hc.2 write hwrite written (hsame ▸ hmem)
    · intro c hc
      have hnone : c.mirrorWrite = none := by
        cases e with
        | request request =>
          obtain rfl : request.call = c := by simpa [service, Auth.world] using hc
          cases request <;> rfl
        | _ => simp [service, Auth.world] at hc
      refine ⟨?_, ?_⟩
      · rw [hnone]
        rintro write ⟨⟩
      · rw [Call.WritesInOrder, hnone]
        rintro write ⟨⟩
  · intro s k c ok h hapart hk
    have hgrow : s.store.RowsGrow (s.store.apply (c.exec s.store k ok).1) := Store.rowsGrow_apply
    -- what the statement has mirrored, the call was about to write
    have hwritten : ∀ written ∈ (s.store.apply (c.exec s.store k ok).1).mirrored,
        written ∈ s.store.mirrored ∨ ok = true ∧ c.mirrorWrite = some written := by
      rintro ⟨userID, epoch⟩ hmem
      refine (Store.mem_mirrored_apply.mp hmem).imp_right fun hset => ?_
      have hstatement : Statement s.store k c ok (c.exec s.store k ok).1 := exec_statement c
      rw [hset] at hstatement
      cases hstatement with
      | setMirror hwrite => exact ⟨rfl, hwrite⟩
    have hglobal : ∀ written ∈ (s.store.apply (c.exec s.store k ok).1).mirrored,
        Backed (s.store.apply (c.exec s.store k ok).1) written := by
      intro written hmem
      rcases hwritten written hmem with hold | ⟨-, hwrite⟩
      · exact (h.store written hold).mono hgrow
      · exact ((h.call k c hk).1 written hwrite).mono hgrow
    refine ⟨hglobal, ⟨?_, ?_⟩, ?_⟩
    · rintro ⟨userID, epoch⟩ hwrite
      obtain ⟨row, hrow, hepoch⟩ := read_exec hwrite
      exact ⟨row, hrow, hepoch.ge⟩
    · rintro ⟨userID, epoch⟩ hwrite written hmem huser
      obtain ⟨row, hrow, hepoch⟩ := read_exec hwrite
      obtain ⟨row', hrow', hle⟩ := hglobal written hmem
      rw [huser, hrow] at hrow'
      obtain rfl := Option.some.inj hrow'
      exact hle.trans_eq hepoch
    · intro j c' hjk hj hc'
      refine ⟨fun write hwrite => (hc'.1 write hwrite).mono hgrow, ?_⟩
      intro write hwrite written hmem huser
      rcases hwritten written hmem with hold | ⟨hok, hset⟩
      · exact hc'.2 write hwrite written hold huser
      · exact absurd huser.symm
          ((hapart c (Option.mem_def.mpr hk)).2 hok written hset j c' hj hjk write hwrite)

/-- **A schedule whose writes do not overlap** is in order: no SET of a user's
mirror falls between a read of the user's epoch and the SET that follows it. -/
theorem inOrder_of_setsApart {as : List Action}
    (hrun : Run.Each service.step SetsApart start as) :
    Run.Each service.step MirrorInOrder start as := by
  have hstart : Fresh start :=
    Calls.Holds.initial (by intro written h; simp [Store.empty] at h)
  refine hrun.imp ?_ (fun s a hs hapart => hs.step hapart) hstart
  intro s a hs hapart
  cases a with
  | world e => exact hapart
  | exec k ok =>
    intro c hk
    exact ⟨fun _ => (hs.call k c hk).2, (hapart c hk).1⟩

/-- A login, then a second one that has read epoch 0 while a logout raises
the epoch to 1 and is about to mirror it. -/
def sampleBump : List Action :=
  List.flatten
    [[.world (.register 7), .world (.request (.login 7 []))], List.replicate 4 (.exec 0 true),
     [.world (.request (.login 7 [])), .exec 1 true], [.world (.request (.logout 7 []))],
     List.replicate 8 (.exec 2 true)]

/-- The access token of the first login. -/
def sampleAccess : Claims := ⟨7, [], .access, 0, 1, [], 0, accessTokenTTL⟩

theorem mirror_never_decreases_sample :
    EpochEnforced sampleBump
      ([.exec 2 true, .world (.request (.validate sampleAccess))]
        ++ List.replicate 3 (.exec 3 true)) :=
  mirror_never_decreases _ _ (by decide)

/-- The access token of the second login. -/
def staleAccess : Claims := ⟨7, [], .access, 3, 4, [], 0, accessTokenTTL⟩

/-- The second login writes its 0 over the logout's 1, and the token it then
issues, of the older epoch, is accepted. -/
def staleFill : List Action :=
  List.flatten
    [.exec 2 true :: List.replicate 3 (.exec 1 true), [.world (.request (.validate staleAccess))],
     List.replicate 3 (.exec 3 true)]

theorem staleFill_not_enforced : ¬EpochEnforced sampleBump staleFill := by
  intro h
  have haccepted := h.2 2 _ (.logout 7 (.fillMirror 1)) 7 1 rfl (by decide) rfl 3 staleAccess
    (by decide) (by decide) (by decide)
  revert haccepted
  decide

end UsbVault.Auth
