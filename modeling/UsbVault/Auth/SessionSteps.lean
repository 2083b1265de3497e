import UsbVault.Auth.Session

/-!
# What a step of a session call does

The effect of each command on the parts of the store, and for each command
and each state of a call the statements that lead to it. The results about
sessions use these and do not unfold the machines.
-/

namespace UsbVault.Auth

open Wire Expiring

variable {s : Store} {cmd : Command} {c : Call} {k : Nat} {ok : Bool}

/-! ## Effects of a command -/

namespace Store

theorem mem_signed_apply {t : Claims} :
    t ∈ (s.apply cmd).signed
      ↔ t ∈ s.signed ∨ ∃ p access refresh, cmd = .issue p access refresh
          ∧ (t = access ∨ t = refresh) := by
  cases cmd <;> simp [apply, updateUser]

theorem mem_rotations_apply {t t' : Claims} :
    (t, t') ∈ (s.apply cmd).rotations
      ↔ (t, t') ∈ s.rotations ∨ ∃ access refresh, cmd = .issue (some t) access refresh
          ∧ (t' = access ∨ t' = refresh) := by
  cases cmd with
  | issue p access refresh =>
    cases p with
    | none => simp [apply]
    | some p =>
      simp only [apply, Option.toList_some, List.flatMap_cons, List.flatMap_nil,
        List.append_nil, List.mem_append, List.mem_cons, List.not_mem_nil, or_false,
        Prod.mk.injEq, Command.issue.injEq, Option.some.injEq]
      constructor
      · intro h
        rcases h with h | ⟨rfl, rfl⟩ | ⟨rfl, rfl⟩
        · exact .inl h
        · exact .inr ⟨_, _, ⟨rfl, rfl, rfl⟩, .inl rfl⟩
        · exact .inr ⟨_, _, ⟨rfl, rfl, rfl⟩, .inr rfl⟩
      · intro h
        rcases h with h | ⟨_, _, ⟨rfl, rfl, rfl⟩, rfl | rfl⟩
        · exact .inl h
        · exact .inr (.inl ⟨rfl, rfl⟩)
        · exact .inr (.inr ⟨rfl, rfl⟩)
  | _ => simp [apply, updateUser]

theorem mem_claimed_apply {t : Claims} {j : Nat} :
    (t, j) ∈ (s.apply cmd).claimed
      ↔ (t, j) ∈ s.claimed ∨ ∃ ttl, cmd = .consume t j ttl := by
  cases cmd <;> simp [apply, updateUser, eq_comm]

theorem mem_mirrored_apply {userID : UserID} {epoch : Int} :
    (userID, epoch) ∈ (s.apply cmd).mirrored
      ↔ (userID, epoch) ∈ s.mirrored ∨ cmd = .setMirror userID epoch := by
  cases cmd <;> simp [apply, updateUser, eq_comm]

theorem mem_enumerated_apply {familyID : FamilyID} :
    familyID ∈ (s.apply cmd).enumerated
      ↔ familyID ∈ s.enumerated ∨ cmd = .enumerate familyID := by
  cases cmd <;> simp [apply, updateUser, eq_comm]

theorem marked_apply {jti : JTI} (h : s.revoked.Marked jti) :
    (s.apply cmd).revoked.Marked jti := by
  cases cmd with
  | setRevoked jti' reason ttl => exact h.set
  | consume token call ttl => exact h.set
  | _ => exact h

/-- Every row stays, with an epoch that is not below. -/
def RowsGrow (s s' : Store) : Prop :=
  ∀ userID row, s.users userID = some row →
    ∃ row', s'.users userID = some row' ∧ row.tokenEpoch ≤ row'.tokenEpoch

theorem rowsGrow_of_eq {s' : Store} (h : s'.users = s.users) : s.RowsGrow s' := by
  intro userID row hrow
  exact ⟨row, by rw [h, hrow], le_refl _⟩

theorem rowsGrow_updateUser {userID : UserID} {f : UserRow → UserRow}
    (hf : ∀ row, row.tokenEpoch ≤ (f row).tokenEpoch) : s.RowsGrow (s.updateUser userID f) := by
  intro userID' row hrow
  by_cases heq : userID' = userID
  · subst heq
    exact ⟨f row, by simp [updateUser, hrow], hf row⟩
  · exact ⟨row, by simp [updateUser, heq, hrow], le_refl _⟩

theorem rowsGrow_apply : s.RowsGrow (s.apply cmd) := by
  cases cmd with
  | bumpEpoch userID => exact rowsGrow_updateUser fun row => by simp
  | softDelete userID => exact rowsGrow_updateUser fun row => by simp
  | _ => exact rowsGrow_of_eq rfl

theorem rowsGrow_world (e : Event) : s.RowsGrow (world s e).1 := by
  cases e with
  | register userID =>
    intro userID' row hrow
    rw [world]
    split
    · exact ⟨row, hrow, le_refl _⟩
    · rename_i hnone
      have hne : userID' ≠ userID := by
        intro heq
        rw [heq, hnone] at hrow
        cases hrow
      exact ⟨row, by simp [hne, hrow], le_refl _⟩
  | _ => exact rowsGrow_of_eq rfl

end Store

/-! ## Where a command comes from -/

/-- The state of a call whose next statement writes the mirror, with what it
writes. -/
def Call.mirrorWrite : Call → Option (UserID × Int)
  | .login userID _ (.fillMirror epoch) => some (userID, epoch)
  | .refresh token (.refuseStale dbEpoch) => some (token.userID, dbEpoch)
  | .logout userID (.fillMirror newEpoch) => some (userID, newEpoch)
  | .deleteAccount userID _ (.fillMirror newEpoch) => some (userID, newEpoch)
  | _ => none

/-- The statements: the state of the call of index `k` in which each command
is issued, and whether it was answered. -/
inductive Statement (s : Store) (k : Nat) : Call → Bool → Command → Prop where
  | nothing {c : Call} {ok : Bool} : Statement s k c ok .nothing
  | setMirror {c : Call} {userID : UserID} {epoch : Int}
      (h : c.mirrorWrite = some (userID, epoch)) :
      Statement s k c true (.setMirror userID epoch)
  | setRevoked {c : Call} {jti : JTI} {reason : Reason} {ttl : Nat} :
      Statement s k c true (.setRevoked jti reason ttl)
  | consume {token : Claims} {epoch : Int} {remainingTTL : Nat}
      (hnew : s.revoked.get s.clock token.jti = none)
      (httl : remainingTTL / second ≠ 0) :
      Statement s k (.refresh token (.script epoch remainingTTL)) true
        (.consume token k (remainingTTL / second))
  | addTokens {c : Call} {userID : UserID} {jtis : List JTI} :
      Statement s k c true (.addTokens userID jtis)
  | deleteTokens {c : Call} {userID : UserID} : Statement s k c true (.deleteTokens userID)
  | bumpEpoch {c : Call} {userID : UserID} : Statement s k c true (.bumpEpoch userID)
  | softDelete {c : Call} {userID : UserID} : Statement s k c true (.softDelete userID)
  | login {userID : UserID} {deviceID : Bytes} {epoch : Int} {access refresh : Claims}
      (h : s.generateTokenPairWithEpoch userID deviceID [] none epoch = (access, refresh)) :
      Statement s k (.login userID deviceID (.generate epoch)) true (.issue none access refresh)
  | rotate {token : Claims} {epoch : Int} {access refresh : Claims}
      (h : s.generateTokenPairWithEpoch token.userID token.deviceID token.deviceFingerprint
        (some token.familyID) epoch = (access, refresh)) :
      Statement s k (.refresh token (.generate epoch)) true (.issue (some token) access refresh)
  | enumerate {token : Claims} {err : RefreshError} :
      Statement s k (.refresh token (.members err)) true (.enumerate token.familyID)
  | endRevocation {token : Claims} {err : RefreshError} {ok : Bool} :
      Statement s k (.refresh token (.revoking err [])) ok (.endRevocation token.familyID)

/-- Whether a call that ignores the errors of `cmd` issues it. -/
theorem Statement.ite (h : Statement s k c true cmd) :
    Statement s k c ok (if ok then cmd else .nothing) := by
  cases ok with
  | true => exact h
  | false => exact .nothing

theorem execLogin_statement {userID : UserID} {deviceID : Bytes} (pc : LoginPc) :
    Statement s k (.login userID deviceID pc) ok (execLogin s userID deviceID pc ok).1 := by
  cases pc with
  | load =>
    rw [execLogin]
    split <;> exact .nothing
  | fillMirror epoch => exact .ite (.setMirror rfl)
  | generate epoch =>
    rw [execLogin]
    split
    · rename_i hok
      rw [hok]
      exact .login rfl
    · exact .nothing
  | register access refresh => exact .ite .addTokens
  | returned access refresh => exact .nothing
  | failed => exact .nothing

theorem execRefresh_statement {token : Claims} (pc : RefreshPc) :
    Statement s k (.refresh token pc) ok (execRefresh s k token pc ok).1 := by
  cases pc with
  | validate =>
    rw [execRefresh]
    split
    · exact .nothing
    · split <;> exact .nothing
  | loadUser =>
    rw [execRefresh]
    split
    · exact .nothing
    · split
      · exact .nothing
      · split <;> exact .nothing
  | refuseStale dbEpoch => exact .ite (.setMirror rfl)
  | untilExpiry epoch =>
    rw [execRefresh]
    split <;> exact .nothing
  | script epoch remainingTTL =>
    rw [execRefresh]
    split
    · exact .nothing
    · rename_i hok
      split
      · exact .nothing
      · rename_i hnew
        split
        · exact .nothing
        · rename_i httl
          rw [Bool.not_eq_false] at hok
          rw [hok]
          exact .consume hnew httl
  | generate epoch =>
    rw [execRefresh]
    split
    · rename_i hok
      rw [hok]
      exact .rotate rfl
    · exact .nothing
  | addAccess access refresh => exact .ite .addTokens
  | addRefresh access refresh => exact .ite .addTokens
  | succeeded access refresh => exact .nothing
  | members err =>
    rw [execRefresh]
    split
    · rename_i hok
      rw [hok]
      exact .enumerate
    · exact .nothing
  | revoking err jtis =>
    cases jtis with
    | nil => exact .endRevocation
    | cons jti jtis => exact .ite .setRevoked
  | failed err => exact .nothing

/-- A sweep revokes tokens and deletes the user's set, whatever call makes
it. -/
theorem execSweep_statement {userID : UserID} {reason : Reason} (pc : SweepPc) :
    Statement s k c ok (execSweep s userID reason pc ok).1 := by
  cases pc with
  | present tokens =>
    cases tokens with
    | nil => exact .nothing
    | cons token tokens =>
      rw [execSweep]
      split <;> exact .nothing
  | revokeOne jti remainingTTL tokens => exact .ite .setRevoked
  | members =>
    rw [execSweep]
    split <;> exact .nothing
  | revoking jtis =>
    cases jtis with
    | nil => exact .nothing
    | cons jti jtis => exact .ite .setRevoked
  | deleteSet => exact .ite .deleteTokens
  | swept => exact .nothing

theorem ok_of_bumpedEpoch {userID : UserID} {epoch : Int}
    (h : s.bumpedEpoch userID ok = some epoch) :
    ok = true ∧ ∃ row, s.users userID = some row ∧ epoch = row.tokenEpoch + 1 := by
  cases ok with
  | false => simp [Store.bumpedEpoch] at h
  | true =>
    rw [Store.bumpedEpoch] at h
    simp only [if_true] at h
    split at h
    · rename_i row hrow
      split at h
      · exact ⟨rfl, row, hrow, (Option.some.inj h).symm⟩
      · cases h
    · cases h

theorem execLogout_statement {userID : UserID} (pc : LogoutPc) :
    Statement s k (.logout userID pc) ok (execLogout s userID pc ok).1 := by
  cases pc with
  | sweep pc =>
    cases pc with
    | swept => exact .nothing
    | _ => exact execSweep_statement _
  | bump =>
    rw [execLogout]
    split
    · rename_i hbumped
      rw [(ok_of_bumpedEpoch hbumped).1]
      exact .bumpEpoch
    · exact .nothing
  | fillMirror newEpoch => exact .ite (.setMirror rfl)
  | done newEpoch => exact .nothing

theorem execDeletion_statement {userID : UserID} {tokens : List Claims} (pc : DeletionPc) :
    Statement s k (.deleteAccount userID tokens pc) ok
      (execDeletion s userID tokens pc ok).1 := by
  cases pc with
  | transaction =>
    rw [execDeletion]
    split
    · rename_i hbumped
      rw [(ok_of_bumpedEpoch hbumped).1]
      exact .softDelete
    · exact .nothing
  | fillMirror newEpoch => exact .ite (.setMirror rfl)
  | sweep newEpoch pc => exact execSweep_statement pc
  | failed => exact .nothing

/-- **What a call issues** is a statement of its state. -/
theorem exec_statement (c : Call) : Statement s k c ok (c.exec s k ok).1 := by
  cases c with
  | login userID deviceID pc => exact execLogin_statement pc
  | refresh token pc => exact execRefresh_statement pc
  | logout userID pc => exact execLogout_statement pc
  | deleteAccount userID tokens pc => exact execDeletion_statement pc
  | validate token pc =>
    cases pc <;> exact .nothing

/-! ## Where a refresh goes -/

/-- The transitions of a refresh, with what its reads have found. -/
inductive RefreshMove (s : Store) (token : Claims) : RefreshPc → Bool → RefreshPc → Prop where
  | ended {pc : RefreshPc} {ok : Bool}
      (h : (∃ err, pc = .failed err) ∨ ∃ access refresh, pc = .succeeded access refresh) :
      RefreshMove s token pc ok pc
  | refused {pc : RefreshPc} {ok : Bool} {err : RefreshError} (h : err.isReuse = false) :
      RefreshMove s token pc ok (.failed err)
  | checked {ok : Bool} (hvalid : s.validateToken token = true) (htype : token.type = .refresh) :
      RefreshMove s token .validate ok .loadUser
  | stale {row : UserRow} (hrow : s.users token.userID = some row)
      (h : token.tokenEpoch < row.tokenEpoch) :
      RefreshMove s token .loadUser true (.refuseStale row.tokenEpoch)
  | current {row : UserRow} (hrow : s.users token.userID = some row)
      (h : row.tokenEpoch ≤ token.tokenEpoch) :
      RefreshMove s token .loadUser true (.untilExpiry row.tokenEpoch)
  | unexpired {epoch : Int} {ok : Bool} (h : s.now < token.expiresAt) :
      RefreshMove s token (.untilExpiry epoch) ok (.script epoch (token.expiresAt - s.now))
  | claimed {epoch : Int} {remainingTTL : Nat} (hnew : s.revoked.get s.clock token.jti = none)
      (httl : remainingTTL / second ≠ 0) :
      RefreshMove s token (.script epoch remainingTTL) true (.generate epoch)
  | reused {epoch : Int} {remainingTTL : Nat} {existing : Reason}
      (h : s.revoked.get s.clock token.jti = some existing) :
      RefreshMove s token (.script epoch remainingTTL) true (.members (reuseError existing))
  | issued {epoch : Int} {access refresh : Claims} :
      RefreshMove s token (.generate epoch) true (.addAccess access refresh)
  | addedAccess {access refresh : Claims} {ok : Bool} :
      RefreshMove s token (.addAccess access refresh) ok (.addRefresh access refresh)
  | addedRefresh {access refresh : Claims} {ok : Bool} :
      RefreshMove s token (.addRefresh access refresh) ok (.succeeded access refresh)
  | enumerated {err : RefreshError} :
      RefreshMove s token (.members err) true (.revoking err (s.userTokens token.userID))
  | unanswered {err : RefreshError} : RefreshMove s token (.members err) false (.failed err)
  | revoked {err : RefreshError} {jti : JTI} {jtis : List JTI} {ok : Bool} :
      RefreshMove s token (.revoking err (jti :: jtis)) ok (.revoking err jtis)
  | killed {err : RefreshError} {ok : Bool} :
      RefreshMove s token (.revoking err []) ok (.failed err)

/-- **What a refresh does next** is one of its transitions. -/
theorem execRefresh_move {token : Claims} (pc : RefreshPc) :
    RefreshMove s token pc ok (execRefresh s k token pc ok).2 := by
  cases pc with
  | validate =>
    rw [execRefresh]
    split
    · exact .refused rfl
    · rename_i hvalid
      split
      · exact .refused rfl
      · rename_i htype
        exact .checked (by simpa using hvalid) (not_not.mp htype)
  | loadUser =>
    cases ok with
    | false => exact .refused rfl
    | true =>
      rw [execRefresh]
      simp only [if_true]
      split
      · exact .refused rfl
      · rename_i row hrow
        split
        · exact .refused rfl
        · split
          · rename_i hstale
            exact .stale hrow hstale
          · rename_i hcurrent
            exact .current hrow (not_lt.mp hcurrent)
  | refuseStale dbEpoch => exact .refused rfl
  | untilExpiry epoch =>
    rw [execRefresh]
    split
    · exact .refused rfl
    · rename_i hlive
      exact .unexpired (not_le.mp hlive)
  | script epoch remainingTTL =>
    cases ok with
    | false => exact .refused rfl
    | true =>
      rw [execRefresh]
      simp only [Bool.true_eq_false, if_false]
      split
      · rename_i existing hexisting
        exact .reused hexisting
      · rename_i hnew
        split
        · exact .refused rfl
        · rename_i httl
          exact .claimed hnew httl
  | generate epoch =>
    cases ok with
    | false => exact .refused rfl
    | true => exact .issued
  | addAccess access refresh => exact .addedAccess
  | addRefresh access refresh => exact .addedRefresh
  | succeeded access refresh => exact .ended (.inr ⟨access, refresh, rfl⟩)
  | members err =>
    cases ok with
    | false => exact .unanswered
    | true => exact .enumerated
  | revoking err jtis =>
    cases jtis with
    | nil => exact .killed
    | cons jti jtis => exact .revoked
  | failed err => exact .ended (.inl ⟨err, rfl⟩)

end UsbVault.Auth
