import UsbVault.Recovery.Codes

/-!
# Single use of recovery codes

The re-registration marks a code only while it is unused. The service and the
HTTP handler mark the code that their scan has found, whatever has become of
it since, and accept it. Where they find it unused still, every code is
accepted at most once over the three paths (`code_accepted_once`).
-/

namespace UsbVault.Recovery

open Wire Tables

variable {sha256 : Bytes → ByteVec 32} {toUpper : String → String}
variable {s : Store} {k : Nat} {c : Call} {o : Outcome} {id : CodeID} {code : RecoveryCode}

/-! ## The store -/

/-- An accepted code is used; a row that is being written is unused, and will
be used. -/
structure Consistent (s : Store) : Prop where
  stored_lt : ∀ id code, s.codes.rows id = some code → id < s.drawn
  used : ∀ id ∈ s.accepted, id < s.drawn ∧ ∀ code, s.codes.rows id = some code → code.used = true
  once : s.accepted.Nodup
  pending : ∀ id k r, s.codes.pending id = some (k, r) →
    ∃ code, s.codes.rows id = some code ∧ code.used = false ∧ r = some { code with used := true }

theorem Consistent.not_accepted (h : Consistent s) (hcode : s.codes.rows id = some code)
    (hunused : code.used = false) : id ∉ s.accepted := by
  intro hmem
  have hused := (h.used id hmem).2 code hcode
  rw [hunused] at hused
  cases hused

theorem Consistent.accept_nodup (h : Consistent s) (hcode : s.codes.rows id = some code)
    (hunused : code.used = false) : (s.accepted ++ [id]).Nodup := by
  have hnew := h.not_accepted hcode hunused
  simp only [List.nodup_append, List.nodup_singleton, List.mem_singleton]
  refine ⟨h.once, trivial, ?_⟩
  intro id' hid' _ heq heq'
  rw [heq', heq] at hid'
  exact hnew hid'

theorem Consistent.mark (h : Consistent s) (hcode : s.codes.rows id = some code)
    (hunused : code.used = false) (hfree : s.codes.pending id = none) :
    Consistent (s.mark id) := by
  have hcodes : (s.mark id).codes = s.codes.put id (some { code with used := true }) := by
    simp [Store.mark, hcode]
  refine ⟨?_, ?_, h.accept_nodup hcode hunused, ?_⟩
  · intro id' code' hrow
    by_cases hid : id' = id
    · rw [hid]
      exact h.stored_lt id code hcode
    · rw [hcodes, Table.rows_put_ne hid] at hrow
      exact h.stored_lt id' code' hrow
  · intro id' hmem
    by_cases hid : id' = id
    · subst hid
      refine ⟨h.stored_lt id' code hcode, ?_⟩
      intro code' hrow
      rw [hcodes, Table.rows_put_self] at hrow
      cases hrow
      rfl
    · have hold : id' ∈ s.accepted := by simpa [Store.mark, hid] using hmem
      rw [hcodes, Table.rows_put_ne hid]
      exact h.used id' hold
  · intro id' k r hpending
    rw [hcodes, Table.pending_put] at hpending
    have hid : id' ≠ id := by
      intro hid
      rw [hid, hfree] at hpending
      cases hpending
    rw [hcodes, Table.rows_put_ne hid]
    exact h.pending id' k r hpending

theorem Consistent.write (h : Consistent s) (hcode : s.codes.rows id = some code)
    (hunused : code.used = false) :
    Consistent { s with codes := s.codes.write k id (some { code with used := true }) } := by
  refine ⟨h.stored_lt, h.used, h.once, ?_⟩
  intro id' k' r hpending
  by_cases hid : id' = id
  · subst hid
    rw [Table.pending_write_self] at hpending
    cases hpending
    exact ⟨code, hcode, hunused, rfl⟩
  · rw [Table.pending_write_ne hid] at hpending
    exact h.pending id' k' r hpending

/-- What a transaction sees of a row: its own version has the code used. -/
theorem Consistent.view (h : Consistent s) (hview : s.codes.view k id = some code) :
    s.codes.rows id = some code ∨ code.used = true ∧ ∃ old, s.codes.rows id = some old := by
  by_cases hown : ∃ r, s.codes.pending id = some (k, r)
  · obtain ⟨r, hr⟩ := hown
    obtain ⟨old, hold, -, rfl⟩ := h.pending id k r hr
    rw [Table.view_of_own hr] at hview
    cases hview
    exact .inr ⟨rfl, old, hold⟩
  · left
    rwa [Table.view_of_other (fun r hr => hown ⟨r, hr⟩)] at hview

theorem Consistent.commit (h : Consistent s) {r : Option RecoveryCode}
    (hown : s.codes.pending id = some (k, r)) :
    Consistent { s with codes := s.codes.commit k, accepted := s.accepted ++ [id] } := by
  obtain ⟨code, hcode, hunused, rfl⟩ := h.pending id k r hown
  refine ⟨?_, ?_, h.accept_nodup hcode hunused, ?_⟩
  · intro id' code' hrow
    rcases h.view hrow with hold | ⟨-, old, hold⟩
    · exact h.stored_lt id' code' hold
    · exact h.stored_lt id' old hold
  · intro id' hmem
    rcases List.mem_append.mp hmem with hold | hnew
    · refine ⟨(h.used id' hold).1, ?_⟩
      intro code' hrow
      rcases h.view hrow with hrow | ⟨hused, -⟩
      · exact (h.used id' hold).2 code' hrow
      · exact hused
    · obtain rfl := List.mem_singleton.mp hnew
      refine ⟨h.stored_lt id' code hcode, ?_⟩
      intro code' hrow
      rw [Table.rows_commit, Table.view_of_own hown] at hrow
      cases hrow
      rfl
  · intro id' k' r hpending
    obtain ⟨hold, hk⟩ := Table.pending_commit.mp hpending
    have hview : s.codes.view k id' = s.codes.rows id' := by
      refine Table.view_of_other ?_
      intro r' hr'
      rw [hold] at hr'
      cases hr'
      exact hk rfl
    obtain ⟨code', hrow, hunused', rfl⟩ := h.pending id' k' r hold
    exact ⟨code', hview.trans hrow, hunused', rfl⟩

theorem Consistent.rollback (h : Consistent s) :
    Consistent { s with codes := s.codes.rollback k } := by
  refine ⟨h.stored_lt, h.used, h.once, ?_⟩
  intro id' k' r hpending
  exact h.pending id' k' r (Table.pending_rollback.mp hpending).1

theorem Consistent.deleteWhere (h : Consistent s) {p : CodeID → RecoveryCode → Bool}
    (hfree : ∀ id code, s.codes.rows id = some code → p id code = true →
      s.codes.pending id = none) :
    Consistent { s with codes := s.codes.deleteWhere p } := by
  refine ⟨?_, ?_, h.once, ?_⟩
  · intro id' code' hrow
    exact h.stored_lt id' code' (Table.rows_deleteWhere.mp hrow).1
  · intro id' hmem
    refine ⟨(h.used id' hmem).1, ?_⟩
    intro code' hrow
    exact (h.used id' hmem).2 code' (Table.rows_deleteWhere.mp hrow).1
  · intro id' k r hpending
    obtain ⟨code', hrow, hunused, rfl⟩ := h.pending id' k r hpending
    refine ⟨code', Table.rows_deleteWhere.mpr ⟨hrow, ?_⟩, hunused, rfl⟩
    by_contra hp
    rw [Table.pending_deleteWhere, hfree id' code' hrow (by simpa using hp)] at hpending
    cases hpending

theorem Consistent.draw (h : Consistent s) : Consistent { s with drawn := s.drawn + 1 } := by
  refine ⟨?_, ?_, h.once, h.pending⟩
  · intro id' code' hrow
    exact Nat.lt_succ_of_lt (h.stored_lt id' code' hrow)
  · intro id' hmem
    exact ⟨Nat.lt_succ_of_lt (h.used id' hmem).1, (h.used id' hmem).2⟩

theorem Consistent.insert (h : Consistent s) :
    Consistent { s with codes := s.codes.put s.drawn (some code), drawn := s.drawn + 1 } := by
  have hold : ∀ id', id' < s.drawn → (s.codes.put s.drawn (some code)).rows id' = s.codes.rows id' :=
    fun id' hlt => Table.rows_put_ne (Nat.ne_of_lt hlt)
  refine ⟨?_, ?_, h.once, ?_⟩
  · intro id' code' hrow
    by_cases hid : id' = s.drawn
    · rw [hid]
      exact Nat.lt_succ_self s.drawn
    · rw [Table.rows_put_ne hid] at hrow
      exact Nat.lt_succ_of_lt (h.stored_lt id' code' hrow)
  · intro id' hmem
    obtain ⟨hlt, hused⟩ := h.used id' hmem
    refine ⟨Nat.lt_succ_of_lt hlt, ?_⟩
    intro code' hrow
    rw [hold id' hlt] at hrow
    exact hused code' hrow
  · intro id' k r hpending
    obtain ⟨code', hrow, hunused, rfl⟩ := h.pending id' k r hpending
    refine ⟨code', ?_, hunused, rfl⟩
    rw [hold id' (h.stored_lt id' code' hrow), hrow]

/-! ## The calls -/

/-- The code that a statement of its own is about to mark. -/
def Pc.marking : Pc → Option CodeID
  | .mark id => some id
  | _ => none

/-- The code whose row the call's transaction has written. -/
def Pc.holding : Pc → Option CodeID
  | .updateUser id => some id
  | .commit id => some id
  | _ => none

/-- The call's transaction may have written a row. -/
def Pc.writing : Pc → Bool
  | .updateUser _ => true
  | .commit _ => true
  | .rollback _ => true
  | _ => false

/-- A statement of its own marks a code whose row is there and unused still,
or waits for the transaction that has written it. -/
def MarksUnused (s : Recoveries) : Action → Prop
  | .world _ => True
  | .exec k o =>
    ∀ c ∈ s.calls[k]?, ∀ id ∈ c.pc.marking, o ≠ .error →
      s.store.codes.Held k id ∨ ∃ code ∈ s.store.codes.rows id, code.used = false

instance (s : Recoveries) (a : Action) : Decidable (MarksUnused s a) :=
  match a with
  | .world _ => inferInstanceAs (Decidable True)
  | .exec k _ =>
    inferInstanceAs (Decidable (∀ c ∈ s.calls[k]?, ∀ id ∈ c.pc.marking, _ →
      _ ∨ ∃ code ∈ s.store.codes.rows id, _))

/-- What a statement of a call does to the store. -/
inductive CodeStep (s : Store) (k : Nat) (c : Call) (o : Outcome) : Store → Pc → Prop where
  | reads {pc : Pc} (hidle : c.pc.writing = false) (hpc : pc.holding = none) :
      CodeStep s k c o s pc
  | keeps {pc : Pc} (hpc : pc.writing = true)
      (hholding : ∀ id, pc.holding = some id → c.pc.holding = some id) : CodeStep s k c o s pc
  | marked {id : CodeID} {pc : Pc} (hid : c.pc = .mark id) (ho : o ≠ .error)
      (hfree : ¬((s.codes.rows id).isSome ∧ s.codes.Held k id)) (hpc : pc.holding = none) :
      CodeStep s k c o (s.mark id) pc
  | consumed {id : CodeID} {code : RecoveryCode} (hidle : c.pc.writing = false)
      (hcode : s.codes.view k id = some code) (hunused : code.used = false)
      (hfree : ¬s.codes.Held k id) :
      CodeStep s k c o
        { s with codes := s.codes.write k id (some { code with used := true }) } (.updateUser id)
  | committed {id : CodeID} (hid : c.pc = .commit id) :
      CodeStep s k c o
        { s with codes := s.codes.commit k, accepted := s.accepted ++ [id] } (.done .valid)
  | rolledBack {result : Result} :
      CodeStep s k c o { s with codes := s.codes.rollback k } (.done result)
  | deleted {p : CodeID → RecoveryCode → Bool} (hidle : c.pc.writing = false)
      (hfree : ∀ id ∈ s.codes.select k p, ¬s.codes.Held k id) :
      CodeStep s k c o { s with codes := s.codes.deleteWhere p } (.insertCode 0)
  | inserted {code : RecoveryCode} {i : Nat} (hidle : c.pc.writing = false) :
      CodeStep s k c o
        { s with codes := s.codes.put s.drawn (some code), drawn := s.drawn + 1 } (.insertCode i)
  | drawn {result : Result} (hidle : c.pc.writing = false) :
      CodeStep s k c o { s with drawn := s.drawn + 1 } (.done result)

theorem Request.scanned_holding {req : Request} {matched : Option CodeID} {complete : Bool} :
    (req.scanned matched complete).holding = none := by
  cases req with
  | register existingID proof => cases complete <;> cases matched <;> rfl
  | generateCodes userID codes => rfl
  | _ => cases matched <;> rfl

theorem Request.scanFailed_holding {req : Request} : req.scanFailed.holding = none := by
  cases req <;> rfl

theorem Request.marked_holding {req : Request} : req.marked.holding = none := by
  cases req <;> rfl

theorem exec_codeStep :
    CodeStep s k c o (c.exec sha256 toUpper s k o).1 (c.exec sha256 toUpper s k o).2 := by
  obtain ⟨req, pc⟩ := c
  cases pc with
  | queryRow =>
    refine .reads rfl ?_
    simp only [Call.exec]
    split
    · rfl
    · split <;> rfl
  | begin =>
    refine .reads rfl ?_
    simp only [Call.exec]
    split <;> rfl
  | scan =>
    refine .reads rfl ?_
    simp only [Call.exec]
    split
    · exact Request.scanFailed_holding
    · exact Request.scanned_holding
  | mark id =>
    simp only [Call.exec]
    split
    · exact .reads rfl rfl
    · rename_i ho
      split
      · exact .reads rfl rfl
      · rename_i hfree
        exact .marked rfl ho hfree Request.marked_holding
  | count found => exact .reads rfl rfl
  | consume id =>
    simp only [Call.exec]
    split
    · exact .reads rfl rfl
    · split
      · exact .reads rfl rfl
      · rename_i code hcode
        split
        · exact .reads rfl rfl
        · rename_i hunused
          split
          · exact .reads rfl rfl
          · rename_i hfree
            exact .consumed rfl hcode (by simpa using hunused) hfree
  | updateUser id =>
    simp only [Call.exec]
    split
    · exact .keeps rfl (fun id' hid' => by cases hid')
    · exact .keeps rfl (fun id' hid' => hid')
  | commit id =>
    simp only [Call.exec]
    split
    · exact .keeps rfl (fun id' hid' => by cases hid')
    · exact .committed rfl
  | rollback result => exact .rolledBack
  | deleteCodes =>
    simp only [Call.exec]
    split
    · exact .reads rfl rfl
    · split
      · exact .reads rfl rfl
      · rename_i hfree
        exact .deleted rfl (fun id hid hheld => hfree ⟨id, hid, hheld⟩)
  | insertCode i =>
    simp only [Call.exec]
    split
    · split
      · exact .reads rfl rfl
      · split
        · exact .reads rfl rfl
        · split
          · rename_i s' hs'
            simp only [Store.insert, Option.ite_none_right_eq_some, Option.some.injEq] at hs'
            obtain ⟨-, rfl⟩ := hs'
            exact .inserted rfl
          · exact .drawn rfl
    · exact .reads rfl rfl
  | done result => exact .reads rfl rfl

/-- The locks belong to calls whose transactions are open. -/
structure Locked (s : Recoveries) : Prop where
  owner : ∀ id k r, s.store.codes.pending id = some (k, r) →
    ∃ c, s.calls[k]? = some c ∧ c.pc.writing = true
  holds : ∀ (k : Nat) (c : Call) (id : CodeID), s.calls[k]? = some c → c.pc.holding = some id →
    ∃ r, s.store.codes.pending id = some (k, r)

theorem Locked.idle {st : Recoveries} (h : Locked st) (hk : st.calls[k]? = some c)
    (hidle : c.pc.writing = false) (id : CodeID) (r : Option RecoveryCode) :
    st.store.codes.pending id ≠ some (k, r) := by
  intro hpending
  obtain ⟨c', hc', hwriting⟩ := h.owner id k r hpending
  rw [hk] at hc'
  obtain rfl := Option.some.inj hc'
  rw [hidle] at hwriting
  cases hwriting

/-- An idle call sees the committed row, and what it may write is not locked. -/
theorem Locked.free {st : Recoveries} (h : Locked st) (hk : st.calls[k]? = some c)
    (hidle : c.pc.writing = false) (hfree : ¬st.store.codes.Held k id) :
    st.store.codes.pending id = none := by
  rcases Table.pending_of_not_held hfree with hnone | ⟨r, hr⟩
  · exact hnone
  · exact absurd hr (h.idle hk hidle id r)

theorem Locked.view {st : Recoveries} (h : Locked st) (hk : st.calls[k]? = some c)
    (hidle : c.pc.writing = false) (id : CodeID) :
    st.store.codes.view k id = st.store.codes.rows id :=
  Table.view_of_other (h.idle hk hidle id)

structure CodesOk (s : Recoveries) : Prop where
  consistent : Consistent s.store
  locked : Locked s

theorem CodeStep.consistent {st : Recoveries} {s' : Store} {pc : Pc}
    (h : CodeStep st.store k c o s' pc) (hst : CodesOk st) (hk : st.calls[k]? = some c)
    (hok : MarksUnused st (.exec k o)) : Consistent s' := by
  cases h with
  | reads => exact hst.consistent
  | keeps => exact hst.consistent
  | @marked id _ hid ho hfree =>
    have hidle : c.pc.writing = false := by rw [hid]; rfl
    have hmarking : c.pc.marking = some id := by rw [hid]; rfl
    rcases hok c hk id hmarking ho with hheld | ⟨code, hcode, hunused⟩
    · -- a locked row is there
      obtain ⟨p, hp, hne⟩ := hheld
      obtain ⟨code, hcode, -⟩ := hst.consistent.pending id p.1 p.2 hp
      exact absurd ⟨by simp [hcode], p, hp, hne⟩ hfree
    · have hnot : ¬st.store.codes.Held k id :=
        fun hheld => hfree ⟨Option.isSome_of_mem hcode, hheld⟩
      exact hst.consistent.mark hcode hunused (hst.locked.free hk hidle hnot)
  | consumed hidle hcode hunused =>
    rw [hst.locked.view hk hidle] at hcode
    exact hst.consistent.write hcode hunused
  | committed hid =>
    obtain ⟨r, hr⟩ := hst.locked.holds k c _ hk (by rw [hid]; rfl)
    exact hst.consistent.commit hr
  | rolledBack => exact hst.consistent.rollback
  | deleted hidle hfree =>
    refine hst.consistent.deleteWhere ?_
    intro id code hcode hp
    refine hst.locked.free hk hidle (hfree id (Table.mem_select.mpr ⟨code, ?_, hp⟩))
    rw [hst.locked.view hk hidle, hcode]
  | inserted => exact hst.consistent.insert
  | drawn => exact hst.consistent.draw

theorem CodeStep.others {s' : Store} {pc : Pc} (h : CodeStep s k c o s' pc) {j : Nat} (hj : j ≠ k)
    {id : CodeID} {r : Option RecoveryCode} :
    s'.codes.pending id = some (j, r) ↔ s.codes.pending id = some (j, r) := by
  cases h with
  | marked =>
    simp only [Store.mark]
    split <;> rfl
  | @consumed id' code _ _ _ hfree =>
    by_cases hid : id = id'
    · subst hid
      rw [Table.pending_write_self]
      constructor
      · intro h
        cases h
        exact absurd rfl hj
      · intro h
        exact absurd ⟨_, h, hj⟩ hfree
    · rw [Table.pending_write_ne hid]
  | committed => exact Table.pending_commit.trans (and_iff_left hj)
  | rolledBack => exact Table.pending_rollback.trans (and_iff_left hj)
  | _ => rfl

theorem CodeStep.self {st : Recoveries} {s' : Store} {pc : Pc} (h : CodeStep st.store k c o s' pc)
    (hst : Locked st) (hk : st.calls[k]? = some c) :
    (∀ id r, s'.codes.pending id = some (k, r) → pc.writing = true)
      ∧ ∀ id, pc.holding = some id → ∃ r, s'.codes.pending id = some (k, r) := by
  cases h with
  | reads hidle hpc =>
    refine ⟨fun id r hr => absurd hr (hst.idle hk hidle id r), ?_⟩
    intro id hid
    rw [hpc] at hid
    cases hid
  | keeps hpc hholding => exact ⟨fun _ _ _ => hpc, fun id hid => hst.holds k c id hk (hholding id hid)⟩
  | @marked id _ hid _ _ hpc =>
    have hidle : c.pc.writing = false := by rw [hid]; rfl
    have hpending : (st.store.mark id).codes.pending = st.store.codes.pending := by
      simp only [Store.mark]
      split <;> rfl
    refine ⟨?_, ?_⟩
    · intro id' r hr
      rw [hpending] at hr
      exact absurd hr (hst.idle hk hidle id' r)
    · intro id' hid'
      rw [hpc] at hid'
      cases hid'
  | consumed =>
    refine ⟨fun _ _ _ => rfl, ?_⟩
    intro id hid
    cases hid
    exact ⟨_, Table.pending_write_self⟩
  | committed =>
    refine ⟨?_, fun id hid => by cases hid⟩
    intro id r hr
    exact absurd rfl (Table.pending_commit.mp hr).2
  | rolledBack =>
    refine ⟨?_, fun id hid => by cases hid⟩
    intro id r hr
    exact absurd rfl (Table.pending_rollback.mp hr).2
  | deleted hidle => exact ⟨fun id r hr => absurd hr (hst.idle hk hidle id r), fun id hid => by cases hid⟩
  | inserted hidle => exact ⟨fun id r hr => absurd hr (hst.idle hk hidle id r), fun id hid => by cases hid⟩
  | drawn hidle => exact ⟨fun id r hr => absurd hr (hst.idle hk hidle id r), fun id hid => by cases hid⟩

theorem CodesOk.exec {st : Recoveries} (h : CodesOk st) (hk : st.calls[k]? = some c)
    (hok : MarksUnused st (.exec k o)) :
    CodesOk ((service sha256 toUpper).step st (.exec k o)) := by
  have hstep : CodeStep st.store k c o (c.exec sha256 toUpper st.store k o).1
      (c.exec sha256 toUpper st.store k o).2 := exec_codeStep
  refine Calls.Service.after_exec hk o ?_
  intro next (hstore : next.store = (c.exec sha256 toUpper st.store k o).1)
    (hnext : next.calls[k]? = some ⟨c.req, (c.exec sha256 toUpper st.store k o).2⟩) hothers
  generalize (c.exec sha256 toUpper st.store k o).1 = s' at hstep hstore
  generalize (c.exec sha256 toUpper st.store k o).2 = pc at hstep hnext
  obtain ⟨howner, hholds⟩ := hstep.self h.locked hk
  refine ⟨?_, ?_, ?_⟩
  · rw [hstore]
    exact hstep.consistent h hk hok
  · intro id j r hr
    rw [hstore] at hr
    by_cases hj : j = k
    · subst hj
      exact ⟨_, hnext, howner id r hr⟩
    · obtain ⟨c', hc', hwriting⟩ := h.locked.owner id j r ((hstep.others hj).mp hr)
      exact ⟨c', (hothers j hj).trans hc', hwriting⟩
  · intro j c' id hc' hholding
    rw [hstore]
    by_cases hj : j = k
    · subst hj
      rw [hnext] at hc'
      obtain rfl := Option.some.inj hc'
      exact hholds id hholding
    · rw [hothers j hj] at hc'
      obtain ⟨r, hr⟩ := h.locked.holds j c' id hc' hholding
      exact ⟨r, (hstep.others hj).mpr hr⟩

theorem CodesOk.world {st : Recoveries} (h : CodesOk st) (req : Request) :
    CodesOk ((service sha256 toUpper).step st (.world req)) := by
  refine ⟨h.consistent, ?_, ?_⟩
  · intro id k r hr
    obtain ⟨c, hc, hwriting⟩ := h.locked.owner id k r hr
    exact ⟨c, Calls.Service.step_world_of hc req, hwriting⟩
  · intro k c id hc hholding
    rcases Calls.Service.of_step_world hc with hold | ⟨-, hnew⟩
    · exact h.locked.holds k c id hold hholding
    · cases hnew
      have hstart : req.start.holding = none := by
        cases req with
        | verifyCode userID code => rfl
        | generateCodes userID codes => rfl
        | _ => simp only [Request.start]; split <;> rfl
      rw [hstart] at hholding
      cases hholding

/-- No code was accepted twice. -/
def AcceptedOnce (s : Recoveries) : Prop := s.store.accepted.Nodup

instance (s : Recoveries) : Decidable (AcceptedOnce s) :=
  inferInstanceAs (Decidable s.store.accepted.Nodup)

/-- **A recovery code is accepted at most once** over `VerifyCode`,
`HandleVerifyCode` and the re-registration, in every run in which the first
two mark a code only while its row is there and unused still. -/
theorem code_accepted_once (as : List Action)
    (hrun : Run.Each (service sha256 toUpper).step MarksUnused start as) :
    AcceptedOnce ((service sha256 toUpper).run start as) := by
  have hstart : CodesOk start := by
    refine ⟨?_, ?_⟩
    · constructor <;> simp [start, Store.empty, Table.empty]
    · constructor <;> simp [start, Store.empty, Table.empty]
  have h : CodesOk ((service sha256 toUpper).run start as) := by
    refine Calls.Service.preserves ?_ ?_ hrun hstart
    · intro st req hst _
      exact hst.world req
    · intro st k c o hst hok hk
      exact hst.exec hk hok
  exact h.consistent.once

/-- The first 32 bytes, as a hash. -/
def sampleHash (bs : Bytes) : ByteVec 32 := ⟨(bs ++ zeros 32).take 32, padded32_length bs⟩

def sampleUpper (text : String) : String := .ofList (text.toList.map Char.toUpper)

def sampleRun (as : List Action) : Recoveries := (service sampleHash sampleUpper).run start as

/-- User 7 generates ten codes, and the code of index 0 is submitted twice to
each of the paths given. -/
def sampleCodes (first second : UserID → String → Request) : List Action :=
  List.flatten
    [.world (.generateCodes 7 ⟨["A-B", "C", "D", "E", "F", "G", "H", "I", "J", "K"], rfl⟩)
       :: List.replicate 12 (.exec 0 .ok),
     [.world (first 7 "ab"), .world (second 7 "AB")]]

/-- A re-registration waits for none and is waited for: the handler finds the
code used. -/
def sampleInTurn : List Action :=
  List.flatten
    [sampleCodes .register .handleVerifyCode,
     [.exec 1 .ok, .exec 1 (.scanned (List.range 10)), .exec 1 .ok, .exec 1 .ok, .exec 1 .ok,
      .exec 2 (.scanned (List.range 10)), .exec 2 .ok]]

theorem code_accepted_once_sample : AcceptedOnce (sampleRun sampleInTurn) :=
  code_accepted_once sampleInTurn (by decide +kernel)

/-- Two calls scan, and then both mark. -/
def sampleTogether : List Action :=
  List.flatten
    [sampleCodes .handleVerifyCode .handleVerifyCode,
     [.exec 1 (.scanned (List.range 10)), .exec 2 (.scanned (List.range 10)), .exec 1 .ok,
      .exec 2 .ok, .exec 1 .ok, .exec 2 .ok]]

/-- The handler marks a code that a re-registration has consumed since its
scan. -/
def sampleAfterRegister : List Action :=
  List.flatten
    [sampleCodes .register .verifyCode,
     [.exec 2 .ok, .exec 2 (.scanned (List.range 10)), .exec 1 .ok,
      .exec 1 (.scanned (List.range 10)), .exec 1 .ok, .exec 2 .ok, .exec 1 .ok, .exec 1 .ok,
      .exec 2 .ok]]

/-- **Scans side by side accept a code twice**, and both calls answer that it
is valid. -/
theorem code_accepted_twice :
    (¬AcceptedOnce (sampleRun sampleTogether)
        ∧ (sampleRun sampleTogether).calls.countP (·.pc = .done .valid) = 2)
      ∧ ¬AcceptedOnce (sampleRun sampleAfterRegister)
      ∧ (sampleRun sampleAfterRegister).calls.countP (·.pc = .done .valid) = 2 := by
  decide +kernel

end UsbVault.Recovery
