import Mathlib.Tactic.MkIffOfInductiveProp
import UsbVault.App.TokenClient

/-!
# When a logout is final

A refresh that is answered after `clearTokens` stores the tokens again, and a
401 that comes when the refresh it would have shared is over begins another,
although the stored token is another than the one refused. On the web a
rotation whose answer is lost leaves the cookie that has been rotated. A run
is as it should be just when none of its steps does one of these
(`tokens_good_iff`), as when `clearTokens` deletes the tokens while no refresh
is under way (`ok_of_apart`).
-/

namespace UsbVault.App.Tokens

open Calls

/-- No refresh has presented a token rotated before, none has begun for a 401
to a token that was replaced already, and what `clearTokens` has deleted is
not there again before a login stores it. -/
@[mk_iff core_iff]
structure Core (st : Store) : Prop where
  fresh : st.reused = false
  unrepeated : st.repeated = false
  accessFinal : st.accessCleared = true → st.access = none
  refreshFinal : st.refreshCleared = true → st.refresh = none

/-- And no two refreshes are under way. -/
structure Good (s : State) : Prop where
  single : ∀ (k k' : Nat) (header header' : Option Token) (phase phase' : Phase),
    s.calls[k]? = some (.refreshing header phase) →
    s.calls[k']? = some (.refreshing header' phase') → k = k'
  core : Core s.store

/-- A 401 begins a refresh only if the token refused is the stored one, if
there is any; on the web the cookie has not been rotated; and a refresh stores
a token only if it has not been deleted since the last login stored one. -/
def OkCall (web : Bool) (st : Store) : Call → Outcome → Prop
  | .sent header false, .unauthorized =>
    st.refreshTokenInProgress = none → st.replaced header = false
  | .refreshing _ .fingerprint, .ok => web = true → ∀ t ∈ st.cookie, t ∉ st.consumed
  | .refreshing _ .storingAccess, _ => st.accessCleared = false
  | .refreshing _ .storingRefresh, _ => st.refreshCleared = false
  | _, _ => True

def Ok (web : Bool) (s : State) : Action Event Outcome → Prop
  | .world _ => True
  | .exec k o => ∀ p, s.calls[k]? = some p → OkCall web s.store p o

/-- The invariants of the calls. -/
structure Sound (web : Bool) (s : State) : Prop where
  owned : Owned s
  unread : web = true → Unread s
  rotates : web = false → Rotates s

variable {web : Bool} {s : State} {k : Nat} {p : Call} {o : Outcome} {header : Option Token}

theorem Sound.step (h : Sound web s) (a : Action Event Outcome) :
    Sound web ((client web).step s a) where
  owned := h.owned.step a
  unread := by
    rintro rfl
    exact (h.unread rfl).step a
  rotates := by
    rintro rfl
    cases a with
    | world event => exact (h.rotates rfl).world event
    | exec k o =>
      cases hk : s.calls[k]? with
      | none => rw [Service.step_exec_none hk]; exact h.rotates rfl
      | some p => exact (h.rotates rfl).exec hk o

theorem start_sound (access refresh cookie : Bool) : Sound web (start access refresh cookie) where
  owned k header phase hk := by simp [start] at hk
  unread _ k header hk := by simp [start] at hk
  rotates _ :=
    { stored := by
        intro t ht
        have hearlier : t = .earlier := by
          cases refresh <;> cases ht
          rfl
        rw [hearlier]
        trivial
      posted := by
        intro k header t hk
        simp [start] at hk
      consumed := (by rintro t ⟨⟩)
      renewed := (by rintro t - ⟨⟩) }

theorem start_core (access refresh cookie : Bool) :
    Core (start access refresh cookie).store where
  fresh := rfl
  unrepeated := rfl
  accessFinal := (by rintro ⟨⟩)
  refreshFinal := (by rintro ⟨⟩)

/-- Off the web a refresh presents a token that has not been rotated. -/
theorem Sound.fresh (h : Sound false s) (hk : s.calls[k]? = some (.refreshing header .reading))
    {t : Token} (ht : s.store.refresh = some t) : t ∉ s.store.consumed := by
  intro hconsumed
  obtain ⟨k', header', phase, hk', hpending⟩ := (h.rotates rfl).renewed t ht hconsumed
  obtain rfl := h.owned.single hk hk'
  rw [hk] at hk'
  cases hk'
  cases hpending

/-! ## One step -/

section
variable {st : Store} {t : Token} {token : Option Token} (h : Core st)

include h

theorem Core.same {st' : Store} (hreused : st'.reused = st.reused)
    (hrepeated : st'.repeated = st.repeated) (haccess : st'.access = st.access)
    (hrefresh : st'.refresh = st.refresh) (haccessCleared : st'.accessCleared = st.accessCleared)
    (hrefreshCleared : st'.refreshCleared = st.refreshCleared) : Core st' where
  fresh := by rw [hreused, h.fresh]
  unrepeated := by rw [hrepeated, h.unrepeated]
  accessFinal := by rw [haccessCleared, haccess]; exact h.accessFinal
  refreshFinal := by rw [hrefreshCleared, hrefresh]; exact h.refreshFinal

theorem core_present : Core (st.present token) ↔ ∀ t ∈ token, t ∉ st.consumed := by
  have hreused : (st.present token).reused = false ↔ ∀ t ∈ token, t ∉ st.consumed := by
    cases token <;> simp [Store.present, h.fresh]
  rw [← hreused]
  exact ⟨fun hcore => hcore.fresh,
    fun hfresh => ⟨hfresh, h.unrepeated, h.accessFinal, h.refreshFinal⟩⟩

theorem core_begin (r : Option Nat) (replaced : Bool) :
    Core { st with refreshTokenInProgress := r, repeated := st.repeated || replaced }
      ↔ replaced = false := by
  constructor
  · intro hcore
    have hrepeated : (st.repeated || replaced) = false := hcore.unrepeated
    rwa [h.unrepeated, Bool.false_or] at hrepeated
  · rintro rfl
    exact ⟨h.fresh, (Bool.or_false _).trans h.unrepeated, h.accessFinal, h.refreshFinal⟩

theorem core_setAccess : Core { st with access := some t } ↔ st.accessCleared = false := by
  constructor
  · intro hcore
    by_contra hcleared
    cases hcore.accessFinal (Bool.not_eq_false _ ▸ hcleared)
  · intro hcleared
    exact ⟨h.fresh, h.unrepeated, fun hset => absurd hset (by simp [hcleared]), h.refreshFinal⟩

theorem core_setRefresh : Core { st with refresh := some t } ↔ st.refreshCleared = false := by
  constructor
  · intro hcore
    by_contra hcleared
    cases hcore.refreshFinal (Bool.not_eq_false _ ▸ hcleared)
  · intro hcleared
    exact ⟨h.fresh, h.unrepeated, h.accessFinal, fun hset => absurd hset (by simp [hcleared])⟩

theorem Core.deleteAccess : Core { st with access := none } :=
  ⟨h.fresh, h.unrepeated, fun _ => rfl, h.refreshFinal⟩

theorem Core.deleteRefresh : Core { st with refresh := none } :=
  ⟨h.fresh, h.unrepeated, h.accessFinal, fun _ => rfl⟩

end

/-- **The exact condition of a step of a refresh.** -/
theorem core_refreshAccessToken_iff {phase : Phase} (hsound : Sound web s)
    (hk : s.calls[k]? = some (.refreshing header phase)) (h : Core s.store) (o : Outcome) :
    Core (refreshAccessToken web k s.store phase o).1
      ↔ OkCall web s.store (.refreshing header phase) o := by
  cases phase with
  | fingerprint =>
    cases o with
    | ok =>
      cases web with
      | true => exact (core_present h).trans ⟨fun hcookie _ => hcookie, fun hok => hok rfl⟩
      | false => exact iff_of_true h (by rintro ⟨⟩)
    | _ => exact iff_of_true h trivial
  | reading =>
    refine iff_of_true ?_ trivial
    rw [refreshAccessToken]
    split
    · rename_i t ht
      cases web with
      | true => exact absurd hk (hsound.unread rfl k header)
      | false =>
        refine (core_present h).mpr ?_
        rintro t' ⟨⟩
        exact hsound.fresh hk ht
    · exact h
  | posted token =>
    refine iff_of_true ?_ trivial
    cases token with
    | none => exact h
    | some t =>
      rw [refreshAccessToken]
      split
      · exact h.same rfl rfl rfl rfl rfl rfl
      · exact h
  | answered =>
    refine iff_of_true ?_ trivial
    rw [refreshAccessToken]
    split
    · exact h.same rfl rfl rfl rfl rfl rfl
    · exact h
  | storingAccess => exact core_setAccess h
  | storingRefresh => exact core_setRefresh h
  | deletingAccess => exact iff_of_true h.deleteAccess trivial
  | deletingRefresh => exact iff_of_true h.deleteRefresh trivial
  | settling ok => exact iff_of_true h trivial

/-- **The exact condition of a step.** -/
theorem core_exec_iff (hsound : Sound web s) (hk : s.calls[k]? = some p) (h : Core s.store)
    (o : Outcome) : Core (exec web k s.store p o).1 ↔ OkCall web s.store p o := by
  cases p with
  | sent header authRetry =>
    cases o with
    | unauthorized =>
      cases authRetry with
      | true => exact iff_of_true h trivial
      | false =>
        cases hprogress : s.store.refreshTokenInProgress with
        | some r => simp [exec, OkCall, hprogress, h]
        | none =>
          simp only [exec, OkCall, hprogress, Bool.false_eq_true, if_false, true_imp_iff]
          exact core_begin h _ _
    | _ => exact iff_of_true h (by cases authRetry <;> trivial)
  | refreshing header phase =>
    cases phase with
    | settling ok => exact iff_of_true (h.same rfl rfl rfl rfl rfl rfl) trivial
    | _ => exact core_refreshAccessToken_iff hsound hk h o
  | awaiting header r =>
    refine iff_of_true ?_ trivial
    rw [exec]
    split <;> exact h
  | deletingAccess => exact iff_of_true h.deleteAccess trivial
  | deletingRefresh => exact iff_of_true h.deleteRefresh trivial
  | clearingAccess =>
    exact iff_of_true ⟨h.fresh, h.unrepeated, fun _ => rfl, h.refreshFinal⟩ trivial
  | clearingRefresh =>
    exact iff_of_true ⟨h.fresh, h.unrepeated, h.accessFinal, fun _ => rfl⟩ trivial
  | storingAccess =>
    exact iff_of_true ⟨h.fresh, h.unrepeated, (by rintro ⟨⟩), h.refreshFinal⟩ trivial
  | storingRefresh =>
    exact iff_of_true ⟨h.fresh, h.unrepeated, h.accessFinal, (by rintro ⟨⟩)⟩ trivial
  | _ => exact iff_of_true (h.same rfl rfl rfl rfl rfl rfl) trivial

/-! ## Every run -/

theorem core_step_iff (hsound : Sound web s) (h : Core s.store) (a : Action Event Outcome) :
    Core ((client web).step s a).store ↔ Ok web s a := by
  cases a with
  | world event => exact iff_of_true h trivial
  | exec k o =>
    cases hk : s.calls[k]? with
    | none =>
      rw [Service.step_exec_none hk]
      refine iff_of_true h ?_
      intro p hp
      rw [hk] at hp
      cases hp
    | some p =>
      rw [Service.step_exec_store hk]
      refine (core_exec_iff hsound hk h o).trans ?_
      rw [Ok, hk]
      simp only [Option.some.injEq, forall_eq']

theorem Sound.run (h : Sound web s) (acts : List (Action Event Outcome)) :
    Sound web ((client web).run s acts) := by
  induction acts generalizing s with
  | nil => exact h
  | cons a acts ih => exact ih (h.step a)

/-- **A run is as it should be in every state** just when each of its steps
meets the condition: one refresh at a time, no refresh token rotated twice,
no refresh for a token that was replaced, and no token after a logout. -/
theorem tokens_good_iff (web access refresh cookie : Bool) (acts : List (Action Event Outcome)) :
    (∀ pre post, acts = pre ++ post → Good ((client web).run (start access refresh cookie) pre))
      ↔ Run.Each (client web).step (Ok web) (start access refresh cookie) acts := by
  have hexact := @Run.Each.iff_prefixes_beside _ _ (client web).step (Ok web) (Sound web)
    (fun s => Core s.store) (fun s a hs => hs.step a) (fun s a hs h => core_step_iff hs h a)
    acts (start access refresh cookie) (start_sound access refresh cookie) (start_core _ _ _)
  rw [← hexact]
  refine forall₂_congr fun pre post => imp_congr_right fun _ => ⟨fun h => h.core, fun h => ?_⟩
  have hsound : Sound web ((client web).run (start access refresh cookie) pre) :=
    (start_sound access refresh cookie).run pre
  refine ⟨?_, h⟩
  intro k k' header header' phase phase' hk hk'
  exact hsound.owned.single hk hk'

/-! ## A schedule that meets the condition -/

/-- `clearTokens` deletes a token only while no refresh is under way, and none
begins from then until a login has stored tokens; nor for a token that was
replaced, nor on the web with a cookie that has been rotated. -/
def ClearsApart (web : Bool) (st : Store) : Call → Outcome → Prop
  | .sent header false, .unauthorized => st.refreshTokenInProgress = none →
      st.replaced header = false ∧ st.accessCleared = false ∧ st.refreshCleared = false
  | .refreshing _ .fingerprint, .ok => web = true → ∀ t ∈ st.cookie, t ∉ st.consumed
  | .clearingAccess, _ => st.refreshTokenInProgress = none
  | .clearingRefresh, _ => st.refreshTokenInProgress = none
  | _, _ => True

def Apart (web : Bool) (s : State) : Action Event Outcome → Prop
  | .world _ => True
  | .exec k o => ∀ p, s.calls[k]? = some p → ClearsApart web s.store p o

/-- While a refresh is under way no token has been cleared. -/
def Uncleared (st : Store) : Prop :=
  st.refreshTokenInProgress ≠ none → st.accessCleared = false ∧ st.refreshCleared = false

theorem Uncleared.refreshAccessToken {st : Store} {phase : Phase} (h : Uncleared st) :
    Uncleared (refreshAccessToken web k st phase o).1 := by
  fun_cases Tokens.refreshAccessToken web k st phase o <;> exact h

theorem Uncleared.exec {st : Store} (h : Uncleared st) (hapart : ClearsApart web st p o) :
    Uncleared (exec web k st p o).1 := by
  cases p with
  | sent header authRetry =>
    cases o with
    | unauthorized =>
      cases authRetry with
      | true => exact h
      | false =>
        cases hprogress : st.refreshTokenInProgress with
        | some r =>
          simp only [Tokens.exec, hprogress, Bool.false_eq_true, if_false]
          exact h
        | none =>
          simp only [Tokens.exec, hprogress, Bool.false_eq_true, if_false]
          exact fun _ => (hapart hprogress).2
    | _ => exact h
  | refreshing header phase =>
    cases phase with
    | settling ok => exact fun hnone => absurd rfl hnone
    | _ => exact h.refreshAccessToken
  | awaiting header r =>
    rw [Tokens.exec]
    split <;> exact h
  | clearingAccess => exact fun hprogress => absurd hapart hprogress
  | clearingRefresh => exact fun hprogress => absurd hapart hprogress
  | storingAccess => exact fun hprogress => ⟨rfl, (h hprogress).2⟩
  | storingRefresh => exact fun hprogress => ⟨(h hprogress).1, rfl⟩
  | _ => exact h

/-- **`clearTokens` while no refresh is under way** leaves every step as it
should be. -/
theorem ok_of_apart {access refresh cookie : Bool} {acts : List (Action Event Outcome)}
    (hrun : Run.Each (client web).step (Apart web) (start access refresh cookie) acts) :
    Run.Each (client web).step (Ok web) (start access refresh cookie) acts := by
  have hstart : Sound web (start access refresh cookie)
      ∧ Uncleared (start access refresh cookie).store :=
    ⟨start_sound access refresh cookie, fun hprogress => absurd rfl hprogress⟩
  have himp := @Run.Each.imp _ _ (client web).step (Ok web) (Apart web)
    fun s => Sound web s ∧ Uncleared s.store
  refine himp ?_ ?_ hstart hrun
  · rintro s (event | ⟨k, o⟩) ⟨hsound, hlive⟩ hapart
    · trivial
    · intro p hk
      have hcall := hapart p hk
      -- a refresh that is about to store is the one under way
      have hunder : ∀ header phase, p = .refreshing header phase →
          s.store.accessCleared = false ∧ s.store.refreshCleared = false := by
        rintro header phase rfl
        refine hlive ?_
        rw [hsound.owned k header phase hk]
        exact Option.some_ne_none k
      unfold OkCall
      split
      · exact fun hnone => (hcall hnone).1
      · exact hcall
      · exact (hunder _ _ rfl).1
      · exact (hunder _ _ rfl).2
      · trivial
  · rintro s (event | ⟨k, o⟩) ⟨hsound, hlive⟩ hapart
    · exact ⟨hsound.step _, hlive⟩
    · refine ⟨hsound.step _, ?_⟩
      cases hk : s.calls[k]? with
      | none => rwa [Service.step_exec_none hk]
      | some p =>
        rw [Service.step_exec_store hk]
        exact hlive.exec (hapart p hk)

/-- So many steps of a call. -/
def steps (k : Nat) (outcomes : List Outcome) : List (Action Event Outcome) :=
  outcomes.map fun o => .exec k o

/-- A login and a request that is refused; when its refresh has been answered,
`clearTokens` comes and goes, and then the refresh stores the tokens. -/
def resurrection : List (Action Event Outcome) :=
  .world .login :: steps 0 [.ok, .ok, .ok]
    ++ .world .request :: steps 1 [.ok, .unauthorized, .ok, .ok, .ok]
    ++ .world .clearTokens :: steps 2 [.ok, .ok]
    ++ steps 1 [.ok, .ok, .ok]

/-- Two requests are sent; one is refused and refreshes, and when that is over
the other one is refused. -/
def lateRefusal : List (Action Event Outcome) :=
  .world .login :: steps 0 [.ok, .ok, .ok]
    ++ .world .request :: .world .request :: steps 1 [.ok] ++ steps 2 [.ok]
    ++ steps 1 [.unauthorized, .ok, .ok, .ok, .ok, .ok, .ok, .ok] ++ steps 2 [.unauthorized]

/-- On the web: a request is refused and its refresh answered, but the answer
is lost; when the tokens are deleted another request is refused. -/
def lostAnswer : List (Action Event Outcome) :=
  .world .login :: steps 0 [.ok, .ok]
    ++ .world .request :: .world .request :: steps 1 [.ok] ++ steps 2 [.ok]
    ++ steps 1 [.unauthorized, .ok, .ok, .failed, .ok, .ok, .ok] ++ steps 2 [.unauthorized, .ok]

/-- **A logout is not final, a late 401 begins another refresh**, and on the
web one with a cookie that has been rotated. -/
theorem tokens_not_good :
    (((client false).run (start false false false) resurrection).store.access
          = some (.issued 1)
        ∧ ¬Good ((client false).run (start false false false) resurrection))
      ∧ (((client false).run (start false false false) lateRefusal).calls[2]?
            = some (.refreshing (some (.issued 0)) .fingerprint)
        ∧ ((client false).run (start false false false) lateRefusal).store.access
            = some (.issued 1)
        ∧ ¬Good ((client false).run (start false false false) lateRefusal))
      ∧ (((client true).run (start false false false) lostAnswer).calls[2]?
            = some (.refreshing (some (.issued 0)) (.posted (some (.issued 0))))
        ∧ ((client true).run (start false false false) lostAnswer).store.consumed = [.issued 0]
        ∧ ¬Good ((client true).run (start false false false) lostAnswer)) := by
  refine ⟨⟨by decide +kernel, ?_⟩, ⟨by decide +kernel, by decide +kernel, ?_⟩,
    by decide +kernel, by decide +kernel, ?_⟩
  · intro h
    exact absurd (h.core.accessFinal (by decide +kernel)) (by decide +kernel)
  · intro h
    exact absurd h.core.unrepeated (by decide +kernel)
  · intro h
    exact absurd h.core.fresh (by decide +kernel)

end UsbVault.App.Tokens
