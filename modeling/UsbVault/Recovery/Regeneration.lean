import UsbVault.Recovery.SingleUse

/-!
# Regenerating recovery codes

`GenerateCodes` of `service.go` and `HandleGenerateCodes` of `handlers.go`,
statement by statement: a `DELETE` of the user's codes and ten `INSERT`s,
none of them in a transaction. Each statement may fail, or be executed
without its answer arriving.

The old codes are lost when the `DELETE` is executed and a later statement
fails (`generateCodes_atomic_iff`).
-/

namespace UsbVault.Recovery

open Wire Tables

variable {s s' : Store} {k n i : Nat} {userID : UserID} {id : CodeID} {c : RecoveryCode}

/-! ## The statements -/

/-- The statement that fails. -/
inductive Failure where
  | clearOldCodes
  | storeCode (i : Nat)
  deriving DecidableEq, Repr

/-- What becomes of the eleven statements. Those after one that fails are
not sent. -/
structure Executions where
  deleted : Execution
  inserted : List.Vector Execution numRecoveryCodes
  deriving DecidableEq

/-- Every statement is executed and answered. -/
def Executions.AllDone (es : Executions) : Prop :=
  es.deleted = .done ∧ ∀ e ∈ es.inserted.toList, e = .done

instance (es : Executions) : Decidable es.AllDone := inferInstanceAs (Decidable (_ ∧ _))

section

variable (sha256 : Bytes → ByteVec 32) (toUpper : String → String)

/-- The row of a code. -/
def newCode (userID : UserID) (i : Nat) (code : String) : RecoveryCode :=
  ⟨userID, hashCode sha256 toUpper code, i, false⟩

/-- The loop, from the code of index `i`. -/
def storeCodes (k : Nat) (userID : UserID) (i : Nat) (s : Store) :
    List (String × Execution) → Store × Option Failure
  | [] => (s, none)
  | (code, e) :: drawn =>
    if e = .failed then (s, some (.storeCode i))
    else
      match s.insert k (newCode sha256 toUpper userID i code) with
      | none => ({ s with drawn := s.drawn + 1 }, some (.storeCode i))
      | some s' =>
        if e = .unacknowledged then (s', some (.storeCode i))
        else storeCodes k userID (i + 1) s' drawn

/-- `DELETE FROM recovery_codes WHERE user_id = $1` -/
def Store.clearCodes (s : Store) (userID : UserID) : Store :=
  { s with codes := s.codes.deleteWhere fun _ c => c.userID = userID }

/-- What both implementations do. -/
def regenerate (k : Nat) (userID : UserID) (codes : List.Vector String numRecoveryCodes)
    (es : Executions) (s : Store) : Store × Except Failure (List String) :=
  if es.deleted = .failed then (s, .error .clearOldCodes)
  else if es.deleted = .unacknowledged then (s.clearCodes userID, .error .clearOldCodes)
  else
    match storeCodes sha256 toUpper k userID 0 (s.clearCodes userID)
        (codes.toList.zip es.inserted.toList) with
    | (s', some failure) => (s', .error failure)
    | (s', none) => (s', .ok codes.toList)

/-- The text of the service's error, before the cause. -/
def Failure.message : Failure → String
  | .clearOldCodes => "failed to clear old codes"
  | .storeCode i => s!"failed to store code {i}"

def generateCodes (k : Nat) (userID : UserID) (codes : List.Vector String numRecoveryCodes)
    (es : Executions) (s : Store) : Store × Except String (List String) :=
  ((regenerate sha256 toUpper k userID codes es s).1,
    (regenerate sha256 toUpper k userID codes es s).2.mapError Failure.message)

/-- The handler answers with the status 201 and the codes, or with an error
that does not tell the statements apart. -/
def handleGenerateCodes (k : Nat) (userID : UserID)
    (codes : List.Vector String numRecoveryCodes) (es : Executions) (s : Store) :
    Store × Except (Nat × String) (List String) :=
  ((regenerate sha256 toUpper k userID codes es s).1,
    (regenerate sha256 toUpper k userID codes es s).2.mapError
      fun _ => (500, "failed to generate codes"))

/-! ## Atomic -/

/-- The user's codes are all there still, each as it was. -/
def Kept (userID : UserID) (s s' : Store) : Prop :=
  ∀ id c, s.codes.rows id = some c → c.userID = userID → s'.codes.rows id = some c

/-- The user's rows are those of the codes given, each under its index and
unused. -/
def Stored (userID : UserID) (codes : List String) (s : Store) : Prop :=
  ∃ ids : List CodeID, ids.length = codes.length ∧ ids.Nodup ∧
    ∀ id c, (s.codes.rows id = some c ∧ c.userID = userID) ↔
      ∃ i code, ids[i]? = some id ∧ codes[i]? = some code
        ∧ c = newCode sha256 toUpper userID i code

/-- From one store to another with a result. -/
structure Atomic {ε : Type} (userID : UserID) (codes : List String) (s : Store)
    (after : Store × Except ε (List String)) : Prop where
  all_or_none : Kept userID s after.1 ∨ Stored sha256 toUpper userID codes after.1
  error : ∀ e, after.2 = .error e → Kept userID s after.1

end

variable {sha256 : Bytes → ByteVec 32} {toUpper : String → String}

/-! ## Identifiers -/

/-- Below `n`, the calls made: identifiers are drawn once, and open
transactions belong to calls. -/
structure Numbered (n : Nat) (s : Store) : Prop where
  drawn : ∀ id ∈ s.codes.keys, id < s.drawn
  open_lt : ∀ id k r, s.codes.pending id = some (k, r) → k < n

theorem Numbered.mono {m : Nat} (h : Numbered n s) (hle : n ≤ m) : Numbered m s :=
  ⟨h.drawn, fun id k r hpending => Nat.lt_of_lt_of_le (h.open_lt id k r hpending) hle⟩

theorem Numbered.stored_lt (h : Numbered n s) (hrow : s.codes.rows id = some c) : id < s.drawn :=
  h.drawn id (s.codes.mem_keys id (.inl (by simp [hrow])))

theorem Numbered.put (h : Numbered n s) (hid : id ∈ s.codes.keys) {r : Option RecoveryCode} :
    Numbered n { s with codes := s.codes.put id r } := by
  refine ⟨?_, h.open_lt⟩
  intro id' hid'
  rw [Table.put_keys, List.insert_of_mem hid] at hid'
  exact h.drawn id' hid'

theorem Numbered.draw (h : Numbered n s) : Numbered n { s with drawn := s.drawn + 1 } :=
  ⟨fun id hid => Nat.lt_succ_of_lt (h.drawn id hid), h.open_lt⟩

theorem Numbered.insert (h : Numbered n s) {r : Option RecoveryCode} :
    Numbered n { s with codes := s.codes.put s.drawn r, drawn := s.drawn + 1 } := by
  refine ⟨?_, h.open_lt⟩
  intro id hid
  rw [Table.put_keys, List.mem_insert_iff] at hid
  rcases hid with rfl | hold
  · exact Nat.lt_succ_self s.drawn
  · exact Nat.lt_succ_of_lt (h.drawn id hold)

theorem Numbered.clearCodes (h : Numbered n s) : Numbered n (s.clearCodes userID) :=
  ⟨h.drawn, h.open_lt⟩

theorem CodeStep.numbered {call : Call} {o : Outcome} {pc : Pc}
    (h : CodeStep s k call o s' pc) (hk : k < n) (hs : Numbered n s) : Numbered n s' := by
  cases h with
  | reads => exact hs
  | keeps => exact hs
  | @marked id =>
    cases hrow : s.codes.rows id with
    | none => exact ⟨by simpa [Store.mark, hrow] using hs.drawn,
        by simpa [Store.mark, hrow] using hs.open_lt⟩
    | some c =>
      have hput := hs.put (s.codes.mem_keys id (.inl (by simp [hrow])))
        (r := some { c with used := true })
      exact ⟨by simpa [Store.mark, hrow] using hput.drawn,
        by simpa [Store.mark, hrow] using hput.open_lt⟩
  | @consumed id c hidle hcode =>
    have hview : s.codes.view k id ≠ none := by simp [hcode]
    have hmem := Table.mem_keys_of_view hview
    constructor
    · intro id' hid'
      rw [show (s.codes.write k id _).keys = s.codes.keys from List.insert_of_mem hmem] at hid'
      exact hs.drawn id' hid'
    · intro id' k' r hpending
      by_cases hid : id' = id
      · rw [hid, Table.pending_write_self] at hpending
        cases hpending
        exact hk
      · rw [Table.pending_write_ne hid] at hpending
        exact hs.open_lt id' k' r hpending
  | committed =>
    exact ⟨hs.drawn,
      fun id k r hpending => hs.open_lt id k r (Table.pending_commit.mp hpending).1⟩
  | rolledBack =>
    exact ⟨hs.drawn,
      fun id k r hpending => hs.open_lt id k r (Table.pending_rollback.mp hpending).1⟩
  | deleted => exact ⟨hs.drawn, hs.open_lt⟩
  | inserted => exact hs.insert
  | drawn => exact hs.draw

theorem numbered (as : List Action) :
    Numbered ((service sha256 toUpper).run start as).calls.length
      ((service sha256 toUpper).run start as).store := by
  have hrun : Run.Each (service sha256 toUpper).step (fun _ _ => True) start as :=
    Calls.each_of_free (fun _ _ => True.intro) as start
  refine @Calls.Service.preserves _ _ _ _ _ _ _
    (fun st : Recoveries => Numbered st.calls.length st.store) ?_ ?_ _ hrun ?_
  · intro st req hst _
    exact hst.mono (by simp [Calls.Service.step])
  · intro st k call o hst _ hk
    obtain ⟨hlt, -⟩ := List.getElem?_eq_some_iff.mp hk
    rw [Calls.Service.step_exec hk, List.length_set]
    exact exec_codeStep.numbered hlt hst
  · exact ⟨fun id hid => absurd hid (by simp [start, Store.empty, Table.empty]),
      fun id k r hpending => by cases hpending⟩

/-! ## The loop -/

/-- What an `INSERT` does, if the user has no code of the index. -/
theorem insert_newCode (hs : Numbered k s) (code : RecoveryCode)
    (hfree : ∀ id c, s.codes.rows id = some c → c.userID = code.userID →
      c.codeIndex ≠ code.codeIndex) :
    s.insert k code
      = some { s with codes := s.codes.put s.drawn (some code), drawn := s.drawn + 1 } := by
  rw [Store.insert, if_pos]
  rw [List.eq_nil_iff_forall_not_mem]
  intro id hmem
  obtain ⟨c, hview, hp⟩ := Table.mem_select.mp hmem
  rw [Table.view_of_other fun r hr => Nat.lt_irrefl k (hs.open_lt id k r hr)] at hview
  simp only [Bool.and_eq_true, decide_eq_true_eq] at hp
  exact hfree id c hview hp.1 hp.2

/-- The identifiers below a bound have the rows they had. -/
def Below (bound : Nat) (s s' : Store) : Prop :=
  ∀ id, id < bound → s'.codes.rows id = s.codes.rows id

theorem storeCodes_below (drawn : List (String × Execution)) :
    ∀ {i s}, n ≤ s.drawn → Below n s (storeCodes sha256 toUpper k userID i s drawn).1 := by
  induction drawn with
  | nil => intro i s _ id _; rfl
  | cons d drawn ih =>
    obtain ⟨code, e⟩ := d
    intro i s hn id hid
    rw [storeCodes]
    split
    · rfl
    · split
      · rfl
      · rename_i s' hs'
        simp only [Store.insert, Option.ite_none_right_eq_some, Option.some.injEq] at hs'
        obtain ⟨-, rfl⟩ := hs'
        have hput : (s.codes.put s.drawn (some (newCode sha256 toUpper userID i code))).rows id
            = s.codes.rows id := Table.rows_put_ne (Nat.ne_of_lt (Nat.lt_of_lt_of_le hid hn))
        split
        · exact hput
        · exact (ih (Nat.le_succ_of_le hn) id hid).trans hput

/-- The codes of the user are those of the indexes below `codes.length`. -/
theorem Stored.codeIndex_lt {codes : List String} (h : Stored sha256 toUpper userID codes s)
    (hrow : s.codes.rows id = some c) (huser : c.userID = userID) : c.codeIndex < codes.length := by
  obtain ⟨ids, -, -, hids⟩ := h
  obtain ⟨i, code, -, hcode, rfl⟩ := (hids id c).mp ⟨hrow, huser⟩
  exact (List.getElem?_eq_some_iff.mp hcode).1

/-- What two lists of one length have in one place, after each has got one
element more. -/
theorem exists_concat_iff {xs : List CodeID} {ys : List String} (hlen : xs.length = ys.length)
    {x a : CodeID} {y : String} {P : Nat → String → Prop} :
    (∃ i b, (xs ++ [x])[i]? = some a ∧ (ys ++ [y])[i]? = some b ∧ P i b)
      ↔ (∃ i b, xs[i]? = some a ∧ ys[i]? = some b ∧ P i b) ∨ a = x ∧ P ys.length y := by
  constructor
  · rintro ⟨i, b, ha, hb, hP⟩
    by_cases hlt : i < xs.length
    · rw [List.getElem?_append_left hlt] at ha
      rw [List.getElem?_append_left (by omega)] at hb
      exact .inl ⟨i, b, ha, hb, hP⟩
    · obtain ⟨hle, -⟩ := List.getElem?_eq_some_iff.mp ha
      rw [List.length_append, List.length_singleton] at hle
      obtain rfl : i = ys.length := by omega
      rw [← hlen, List.getElem?_concat_length, Option.some.injEq] at ha
      rw [List.getElem?_concat_length, Option.some.injEq] at hb
      exact .inr ⟨ha.symm, hb ▸ hP⟩
  · rintro (⟨i, b, ha, hb, hP⟩ | ⟨rfl, hP⟩)
    · obtain ⟨hlt, -⟩ := List.getElem?_eq_some_iff.mp ha
      refine ⟨i, b, ?_, ?_, hP⟩
      · rw [List.getElem?_append_left hlt, ha]
      · rw [List.getElem?_append_left (by omega), hb]
    · refine ⟨ys.length, y, ?_, List.getElem?_concat_length, hP⟩
      rw [← hlen, List.getElem?_concat_length]

theorem Stored.insert {codes : List String} (hs : Numbered k s)
    (h : Stored sha256 toUpper userID codes s) (code : String) :
    Stored sha256 toUpper userID (codes ++ [code])
      { s with
        codes := s.codes.put s.drawn (some (newCode sha256 toUpper userID codes.length code)),
        drawn := s.drawn + 1 } := by
  obtain ⟨ids, hlen, hnodup, hids⟩ := h
  have hlt : ∀ (i : Nat) (id : CodeID), ids[i]? = some id → id < s.drawn := by
    intro i id hid
    obtain ⟨hi, -⟩ := List.getElem?_eq_some_iff.mp hid
    obtain ⟨code', hcode'⟩ : ∃ code', codes[i]? = some code' :=
      ⟨codes.get ⟨i, hlen ▸ hi⟩, List.getElem?_eq_getElem _⟩
    exact hs.stored_lt ((hids id _).mpr ⟨i, code', hid, hcode', rfl⟩).1
  have hnew : s.drawn ∉ ids := by
    intro hmem
    obtain ⟨i, hi⟩ := List.mem_iff_getElem?.mp hmem
    exact Nat.lt_irrefl _ (hlt i _ hi)
  refine ⟨ids ++ [s.drawn], by simp [hlen], ?_, ?_⟩
  · exact List.nodup_append.mpr ⟨hnodup, List.nodup_singleton _, by
      intro id hid id' hid' heq
      rw [List.mem_singleton.mp hid'] at heq
      exact hnew (heq ▸ hid)⟩
  · intro id c
    rw [exists_concat_iff hlen]
    by_cases hid : id = s.drawn
    · subst hid
      rw [Table.rows_put_self]
      constructor
      · rintro ⟨hc, -⟩
        exact .inr ⟨rfl, (Option.some.inj hc).symm⟩
      · rintro (⟨i, code', hi, -, -⟩ | ⟨-, rfl⟩)
        · exact absurd (List.mem_of_getElem? hi) hnew
        · exact ⟨rfl, rfl⟩
    · rw [Table.rows_put_ne hid, hids]
      constructor
      · exact .inl
      · rintro (hold | ⟨hdrawn, -⟩)
        · exact hold
        · exact absurd hdrawn hid

/-- **The loop**: it succeeds when every `INSERT` does, and then the user has
the codes given. -/
theorem storeCodes_spec (drawn : List (String × Execution)) :
    ∀ (codes : List String) {s}, Numbered k s → Stored sha256 toUpper userID codes s →
      ((∀ d ∈ drawn, d.2 = .done) ∧
          (storeCodes sha256 toUpper k userID codes.length s drawn).2 = none ∧
          Stored sha256 toUpper userID (codes ++ drawn.map (·.1))
            (storeCodes sha256 toUpper k userID codes.length s drawn).1) ∨
        ((∃ d ∈ drawn, d.2 ≠ .done) ∧
          ∃ failure, (storeCodes sha256 toUpper k userID codes.length s drawn).2
            = some failure) := by
  induction drawn with
  | nil =>
    intro codes s _ h
    exact .inl ⟨by simp, rfl, by simpa [storeCodes] using h⟩
  | cons d drawn ih =>
    obtain ⟨code, e⟩ := d
    intro codes s hs h
    have hinsert := insert_newCode hs (newCode sha256 toUpper userID codes.length code)
      fun id c hrow huser => Nat.ne_of_lt (h.codeIndex_lt hrow huser)
    have hnext := ih (codes ++ [code]) hs.insert (h.insert hs code)
    rw [List.length_append, List.length_singleton] at hnext
    rw [storeCodes, hinsert]
    cases e with
    | failed => exact .inr ⟨⟨_, List.mem_cons_self, by simp⟩, _, rfl⟩
    | unacknowledged => exact .inr ⟨⟨_, List.mem_cons_self, by simp⟩, _, rfl⟩
    | done =>
      simp only [reduceCtorEq, if_false]
      refine hnext.imp ?_ ?_
      · rintro ⟨hall, hnone, hstored⟩
        refine ⟨by simpa using hall, hnone, ?_⟩
        simpa using hstored
      · rintro ⟨⟨d, hd, hne⟩, hfails⟩
        exact ⟨⟨d, List.mem_cons_of_mem _ hd, hne⟩, hfails⟩

/-! ## The regeneration -/

theorem Stored.clearCodes : Stored sha256 toUpper userID [] (s.clearCodes userID) := by
  refine ⟨[], rfl, List.nodup_nil, ?_⟩
  intro id c
  rw [Store.clearCodes, Table.rows_deleteWhere]
  simp

theorem regenerate_failed {codes : List.Vector String numRecoveryCodes} {es : Executions}
    (h : es.deleted = .failed) :
    regenerate sha256 toUpper k userID codes es s = (s, .error .clearOldCodes) := by
  rw [regenerate, if_pos h]

theorem mem_zip_done {codes : List String} {es : List Execution}
    (hlen : es.length = codes.length) :
    (∀ d ∈ codes.zip es, d.2 = .done) ↔ ∀ e ∈ es, e = .done := by
  have hsnd : (codes.zip es).map Prod.snd = es := List.map_snd_zip (by omega)
  conv_rhs => rw [← hsnd]
  simp only [List.forall_mem_map]

/-- **Every statement succeeds**: the user has exactly the new codes. -/
theorem regenerate_done (hs : Numbered k s) (sha256 : Bytes → ByteVec 32)
    (toUpper : String → String) (userID : UserID) (codes : List.Vector String numRecoveryCodes)
    {es : Executions} (h : es.AllDone) :
    (regenerate sha256 toUpper k userID codes es s).2 = .ok codes.toList ∧
      Stored sha256 toUpper userID codes.toList
        (regenerate sha256 toUpper k userID codes es s).1 := by
  obtain ⟨hdeleted, hinserted⟩ := h
  have hlen : es.inserted.toList.length = codes.toList.length := by simp
  have hcleared : Stored sha256 toUpper userID [] (s.clearCodes userID) := Stored.clearCodes
  rcases storeCodes_spec (codes.toList.zip es.inserted.toList) [] hs.clearCodes hcleared
    with ⟨-, hnone, hstored⟩ | ⟨⟨d, hd, hne⟩, -⟩
  · rw [List.nil_append, List.map_fst_zip (by omega)] at hstored
    rw [List.length_nil] at hnone hstored
    rw [regenerate, if_neg (by simp [hdeleted]), if_neg (by simp [hdeleted])]
    split
    · rename_i s' failure heq
      rw [heq] at hnone
      cases hnone
    · rename_i s' heq
      rw [heq] at hstored
      exact ⟨rfl, hstored⟩
  · exact absurd ((mem_zip_done hlen).mpr hinserted d hd) hne

/-- **A statement fails after the `DELETE`**: an error is returned, and none
of the user's old rows is there. -/
theorem regenerate_lost (hs : Numbered k s) (sha256 : Bytes → ByteVec 32)
    (toUpper : String → String) (userID : UserID) (codes : List.Vector String numRecoveryCodes)
    {es : Executions} (hdeleted : es.deleted ≠ .failed) (h : ¬es.AllDone) :
    (∃ failure, (regenerate sha256 toUpper k userID codes es s).2 = .error failure) ∧
      ∀ id c, s.codes.rows id = some c → c.userID = userID →
        (regenerate sha256 toUpper k userID codes es s).1.codes.rows id = none := by
  have hcleared : ∀ id c, s.codes.rows id = some c → c.userID = userID →
      (s.clearCodes userID).codes.rows id = none := by
    intro id c hrow huser
    simp [Store.clearCodes, Table.deleteWhere, hrow, huser]
  have hlen : es.inserted.toList.length = codes.toList.length := by simp
  cases he : es.deleted with
  | failed => exact absurd he hdeleted
  | unacknowledged =>
    rw [regenerate, if_neg hdeleted, if_pos he]
    exact ⟨⟨_, rfl⟩, hcleared⟩
  | done =>
    have hbelow : Below (s.clearCodes userID).drawn (s.clearCodes userID)
        (storeCodes sha256 toUpper k userID 0 (s.clearCodes userID)
          (codes.toList.zip es.inserted.toList)).1 := storeCodes_below _ (Nat.le_refl _)
    have hempty : Stored sha256 toUpper userID [] (s.clearCodes userID) := Stored.clearCodes
    rcases storeCodes_spec (codes.toList.zip es.inserted.toList) [] hs.clearCodes hempty
      with ⟨hall, -, -⟩ | ⟨-, failure, hfails⟩
    · exact absurd ⟨he, (mem_zip_done hlen).mp hall⟩ h
    · rw [List.length_nil] at hfails
      rw [regenerate, if_neg hdeleted, if_neg (by simp [he])]
      split
      · rename_i s' failure' heq
        rw [heq] at hbelow
        refine ⟨⟨failure', rfl⟩, ?_⟩
        intro id c hrow huser
        rw [hbelow id (hs.stored_lt hrow), hcleared id c hrow huser]
      · rename_i s' heq
        rw [heq] at hfails
        cases hfails

/-! ## The calls of the service -/

/-- A statement's outcome when its answer is not lost. -/
def outcome (e : Execution) : Outcome := if e = .done then .ok else .error

/-- How the call of the service ends. -/
def Failure.result : Option Failure → Result
  | none => .generated
  | some _ => .failed

theorem service_exec {call : Call} {o : Outcome} :
    (service sha256 toUpper).exec k s call o
      = ((call.exec sha256 toUpper s k o).1,
        { call with pc := (call.exec sha256 toUpper s k o).2 }) := rfl

/-- The statements of the loop, and the return. -/
def loopActions (k : Nat) (drawn : List (String × Execution)) : List Action :=
  drawn.map (fun d => .exec k (outcome d.2)) ++ [.exec k .ok]

theorem of_mem_loopActions {drawn : List (String × Execution)} {a : Action}
    (h : a ∈ loopActions k drawn) : ∃ o, a = .exec k o := by
  rw [loopActions, List.mem_append, List.mem_map, List.mem_singleton] at h
  rcases h with ⟨d, -, rfl⟩ | rfl
  · exact ⟨_, rfl⟩
  · exact ⟨_, rfl⟩

theorem run_done {result : Result} {req : Request} (as : List Action) :
    ∀ {st : Recoveries}, (∀ a ∈ as, ∃ o, a = .exec k o) →
      st.calls[k]? = some ⟨req, .done result⟩ →
      ((service sha256 toUpper).run st as).store = st.store ∧
        ((service sha256 toUpper).run st as).calls[k]? = some ⟨req, .done result⟩ := by
  induction as with
  | nil => intro st _ hk; exact ⟨rfl, hk⟩
  | cons a as ih =>
    intro st has hk
    obtain ⟨o, rfl⟩ := has a List.mem_cons_self
    rw [Calls.Service.run_cons]
    have hself : ((service sha256 toUpper).step st (.exec k o)).calls[k]?
        = some ⟨req, .done result⟩ := Calls.Service.step_exec_self hk o
    obtain ⟨hstore, hcall⟩ := ih (fun a ha => has a (List.mem_cons_of_mem _ ha)) hself
    exact ⟨hstore.trans (Calls.Service.step_exec_store hk o), hcall⟩

theorem storeCodes_run {codes : List.Vector String numRecoveryCodes}
    {drawn : List (String × Execution)} :
    ∀ {i} {st : Recoveries}, st.calls[k]? = some ⟨.generateCodes userID codes, .insertCode i⟩ →
      codes.toList.drop i = drawn.map (·.1) → (∀ d ∈ drawn, d.2 ≠ .unacknowledged) →
      let st' := (service sha256 toUpper).run st (loopActions k drawn)
      st'.store = (storeCodes sha256 toUpper k userID i st.store drawn).1 ∧
        st'.calls[k]? = some ⟨.generateCodes userID codes,
          .done (Failure.result (storeCodes sha256 toUpper k userID i st.store drawn).2)⟩ := by
  induction drawn with
  | nil =>
    intro i st hk hdrop _
    have hnone : codes.toList[i]? = none := by
      rw [List.getElem?_eq_none_iff, ← List.drop_eq_nil_iff]
      exact hdrop
    have hexec : (service sha256 toUpper).exec k st.store
        ⟨.generateCodes userID codes, .insertCode i⟩ .ok
        = (st.store, ⟨.generateCodes userID codes, .done .generated⟩) := by
      simp [service, Call.exec, hnone]
    have hself := Calls.Service.step_exec_self (S := service sha256 toUpper) hk .ok
    have hstore := Calls.Service.step_exec_store (S := service sha256 toUpper) hk .ok
    rw [hexec] at hself hstore
    exact ⟨hstore, hself⟩
  | cons d drawn ih =>
    obtain ⟨code, e⟩ := d
    intro i st hk hdrop hacked
    have hcode : codes.toList[i]? = some code := by
      rw [← List.head?_drop, hdrop]
      rfl
    have hrest : codes.toList.drop (i + 1) = drawn.map (·.1) := by
      rw [← List.tail_drop, hdrop]
      rfl
    have hself := Calls.Service.step_exec_self (S := service sha256 toUpper) hk (outcome e)
    have hstore := Calls.Service.step_exec_store (S := service sha256 toUpper) hk (outcome e)
    rw [storeCodes, show loopActions k ((code, e) :: drawn)
      = .exec k (outcome e) :: loopActions k drawn from rfl]
    simp only [Calls.Service.run_cons]
    cases e with
    | unacknowledged => exact absurd rfl (hacked _ List.mem_cons_self)
    | failed =>
      simp only [service, Call.exec, outcome, hcode, reduceCtorEq, if_true, if_false]
        at hself hstore
      obtain ⟨hkeeps, hstays⟩ := run_done (loopActions k drawn)
        (fun _ => of_mem_loopActions) hself
      exact ⟨hkeeps.trans hstore, hstays⟩
    | done =>
      simp only [service, Call.exec, outcome, hcode, reduceCtorEq, if_true, if_false]
        at hself hstore
      simp only [reduceCtorEq, if_false]
      rw [newCode]
      cases hinsert : st.store.insert k ⟨userID, hashCode sha256 toUpper code, i, false⟩ with
      | none =>
        simp only [hinsert] at hself hstore
        obtain ⟨hkeeps, hstays⟩ := run_done (loopActions k drawn)
          (fun _ => of_mem_loopActions) hself
        exact ⟨hkeeps.trans hstore, hstays⟩
      | some s' =>
        simp only [hinsert] at hself hstore
        have hnext := ih hself hrest fun d hd => hacked d (List.mem_cons_of_mem _ hd)
        rw [hstore] at hnext
        exact hnext

/-- **The call of the service**, when it meets no lock, no other call comes
between its statements and no answer is lost, leaves the store that
`regenerate` does. -/
theorem regenerate_run {st : Recoveries} {codes : List.Vector String numRecoveryCodes}
    {es : Executions} (hk : st.calls[k]? = some ⟨.generateCodes userID codes, .deleteCodes⟩)
    (hfree : ∀ id ∈ st.store.codes.select k (fun _ c => c.userID = userID),
      ¬st.store.codes.Held k id)
    (hdeleted : es.deleted ≠ .unacknowledged)
    (hinserted : ∀ e ∈ es.inserted.toList, e ≠ .unacknowledged) :
    ((service sha256 toUpper).run st (.exec k (outcome es.deleted)
        :: loopActions k (codes.toList.zip es.inserted.toList))).store
      = (regenerate sha256 toUpper k userID codes es st.store).1 := by
  have hlen : es.inserted.toList.length = codes.toList.length := by simp
  have hself := Calls.Service.step_exec_self (S := service sha256 toUpper) hk (outcome es.deleted)
  have hstore :=
    Calls.Service.step_exec_store (S := service sha256 toUpper) hk (outcome es.deleted)
  rw [Calls.Service.run_cons, regenerate]
  cases he : es.deleted with
  | unacknowledged => exact absurd he hdeleted
  | failed =>
    rw [he] at hself hstore
    exact (run_done _ (fun _ => of_mem_loopActions) hself).1.trans hstore
  | done =>
    have hexec : Call.exec sha256 toUpper st.store k
        ⟨.generateCodes userID codes, .deleteCodes⟩ (outcome .done)
        = (st.store.clearCodes userID, .insertCode 0) := by
      have hnone : ¬∃ id ∈ st.store.codes.select k (fun _ c => c.userID = userID),
          st.store.codes.Held k id := fun ⟨id, hid, hheld⟩ => hfree id hid hheld
      have hok : outcome .done ≠ .error := by decide
      simp only [Call.exec, if_neg hok]
      exact if_neg hnone
    rw [he, service_exec, hexec] at hself hstore
    have hcodes : codes.toList.drop 0
        = (codes.toList.zip es.inserted.toList).map (·.1) := by
      rw [List.drop_zero, List.map_fst_zip (by omega)]
    obtain ⟨hloop, -⟩ := storeCodes_run hself hcodes fun d hd =>
      hinserted d.2 (List.of_mem_zip hd).2
    rw [hstore] at hloop
    rw [hloop]
    simp only [reduceCtorEq, if_false]
    split
    · rename_i heq
      rw [heq]
    · rename_i heq
      rw [heq]

/-- When regenerating loses no code of the user: the `DELETE` is not
executed, there are none, or every statement succeeds. -/
def LosesNone (userID : UserID) (es : Executions) (s : Store) : Prop :=
  es.deleted = .failed ∨ (∀ id c, s.codes.rows id = some c → c.userID ≠ userID) ∨ es.AllDone

theorem regenerate_atomic_iff {ε : Type} {f : Failure → ε} (hs : Numbered k s)
    {codes : List.Vector String numRecoveryCodes} {es : Executions} :
    Atomic sha256 toUpper userID codes.toList s
        ((regenerate sha256 toUpper k userID codes es s).1,
          (regenerate sha256 toUpper k userID codes es s).2.mapError f)
      ↔ LosesNone userID es s := by
  constructor
  · intro hatomic
    by_cases hdeleted : es.deleted = .failed
    · exact .inl hdeleted
    · by_cases hall : es.AllDone
      · exact .inr (.inr hall)
      · right; left
        obtain ⟨⟨failure, hfails⟩, hlost⟩ := regenerate_lost hs sha256 toUpper userID codes
          hdeleted hall
        intro id c hrow huser
        have hkept := hatomic.error (f failure) (by simp [hfails, Except.mapError]) id c hrow huser
        rw [hlost id c hrow huser] at hkept
        cases hkept
  · rintro (hdeleted | hnone | hall)
    · rw [regenerate_failed hdeleted]
      exact ⟨.inl fun _ _ hrow _ => hrow, fun _ _ _ _ hrow _ => hrow⟩
    · have hkept : ∀ s' : Store, Kept userID s s' :=
        fun s' id c hrow huser => absurd huser (hnone id c hrow)
      exact ⟨.inl (hkept _), fun _ _ => hkept _⟩
    · obtain ⟨hok, hstored⟩ := regenerate_done hs sha256 toUpper userID codes hall
      refine ⟨.inr hstored, ?_⟩
      intro e he
      simp [hok, Except.mapError] at he

/-- **Regenerating is atomic just when it loses no code**, after every run of
the service and for both implementations. -/
theorem generateCodes_atomic_iff (as : List Action) (userID : UserID)
    (codes : List.Vector String numRecoveryCodes) (es : Executions) :
    let st := (service sha256 toUpper).run start as
    (Atomic sha256 toUpper userID codes.toList st.store
        (generateCodes sha256 toUpper st.calls.length userID codes es st.store)
      ↔ LosesNone userID es st.store)
    ∧ (Atomic sha256 toUpper userID codes.toList st.store
        (handleGenerateCodes sha256 toUpper st.calls.length userID codes es st.store)
      ↔ LosesNone userID es st.store) :=
  ⟨regenerate_atomic_iff (numbered as), regenerate_atomic_iff (numbered as)⟩

/-! ## A lost answer, and a failed statement -/

def sampleNewCodes : List.Vector String numRecoveryCodes :=
  ⟨["L", "M", "N", "O", "P", "Q", "R", "S", "T", "U"], rfl⟩

/-- User 7 has generated ten codes, and the first of them is used. -/
def sampleUsed : List Action :=
  List.flatten
    [sampleCodes .register .handleVerifyCode,
     [.exec 1 .ok, .exec 1 (.scanned (List.range 10)), .exec 1 .ok, .exec 1 .ok, .exec 1 .ok]]

/-- The fourth `INSERT` fails. -/
def sampleFailed : Executions :=
  ⟨.done, ⟨[.done, .done, .done, .failed, .done, .done, .done, .done, .done, .done], rfl⟩⟩

theorem regenerate_run_sample :
    ((service sampleHash sampleUpper).run
        ⟨.empty, [⟨.generateCodes 7 sampleNewCodes, .deleteCodes⟩]⟩
        (.exec 0 (outcome sampleFailed.deleted)
          :: loopActions 0 (sampleNewCodes.toList.zip sampleFailed.inserted.toList))).store
      = (regenerate sampleHash sampleUpper 0 7 sampleNewCodes sampleFailed .empty).1 :=
  regenerate_run rfl (fun _ hmem => absurd hmem List.not_mem_nil) (by decide) (by decide)

/-- **Three codes of ten**: the fourth `INSERT` fails, both implementations
return an error, and of the old codes none is left. -/
theorem regenerate_not_atomic :
    let st := sampleRun sampleUsed
    (¬Atomic sampleHash sampleUpper 7 sampleNewCodes.toList st.store
        (generateCodes sampleHash sampleUpper st.calls.length 7 sampleNewCodes sampleFailed st.store)
      ∧ (generateCodes sampleHash sampleUpper st.calls.length 7 sampleNewCodes sampleFailed
          st.store).2 = .error "failed to store code 3")
    ∧ (¬Atomic sampleHash sampleUpper 7 sampleNewCodes.toList st.store
        (handleGenerateCodes sampleHash sampleUpper st.calls.length 7 sampleNewCodes sampleFailed
          st.store)
      ∧ (handleGenerateCodes sampleHash sampleUpper st.calls.length 7 sampleNewCodes sampleFailed
          st.store).2 = .error (500, "failed to generate codes"))
    ∧ ((regenerate sampleHash sampleUpper st.calls.length 7 sampleNewCodes sampleFailed
          st.store).1.codes.scan fun _ c => c.userID = 7).length = 3 := by
  have hstep : ∀ {ε : Type} (e : ε) (after : Store),
      (sampleRun sampleUsed).store.codes.rows 1 ≠ none →
      ((sampleRun sampleUsed).store.codes.rows 1).all (fun c => c.userID = 7) →
      after.codes.rows 1 = none →
      ¬Atomic sampleHash sampleUpper 7 sampleNewCodes.toList (sampleRun sampleUsed).store
        (after, Except.error e) := by
    intro ε e after hsome hall hnone hatomic
    obtain ⟨c, hc⟩ := Option.ne_none_iff_exists'.mp hsome
    rw [hc] at hall
    have hkept := hatomic.error e rfl 1 c hc (by simpa using hall)
    rw [hnone] at hkept
    cases hkept
  refine ⟨⟨?_, by decide +kernel⟩, ⟨?_, by decide +kernel⟩, by decide +kernel⟩
  · exact hstep "failed to store code 3" _ (by decide +kernel) (by decide +kernel)
      (by decide +kernel)
  · exact hstep (500, "failed to generate codes") _ (by decide +kernel) (by decide +kernel)
      (by decide +kernel)

end UsbVault.Recovery
