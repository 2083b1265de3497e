import UsbVault.Audit.Log

/-!
# Verification

What `VerifyChain` accepts, whatever the number of rows: the batches carry
the last hash over, so that a log is accepted just when each row carries its
own hash and that of the row before it (`verifyChain_eq`). A log that
`LogAction` has written is accepted just when the time of every row comes back
from the database as it was hashed (`chain_accepted_iff`).
-/

namespace UsbVault.Audit

open Wire

variable {sha256 : Bytes → ByteVec 32} {zone : Zone}

/-! ## The chain -/

/-- Each row carries its hash and the hash of the row before it. -/
structure Accepted (sha256 : Bytes → ByteVec 32) (zone : Zone) (rows : List Row) :
    Prop where
  computed : ∀ row ∈ rows, computedHash sha256 zone row = row.hash
  linked : rows.IsChain fun a b => a.hash = b.prevHash

instance (rows : List Row) : Decidable (Accepted sha256 zone rows) :=
  decidable_of_iff (_ ∧ _) ⟨fun h => ⟨h.1, h.2⟩, fun h => ⟨h.computed, h.linked⟩⟩

theorem computedHash_length (row : Row) : (computedHash sha256 zone row).length = 32 :=
  List.Vector.toList_length _

/-- The previous hash that is expected, when there is one. -/
def Continues (expectedPrevHash : Bytes) (rows : List Row) : Prop :=
  expectedPrevHash ≠ [] → ∀ row ∈ rows.head?, expectedPrevHash = row.prevHash

theorem verifyRow_eq_some {expected hash : Bytes} {row : Row} :
    verifyRow sha256 zone expected row = some hash
      ↔ (expected ≠ [] → expected = row.prevHash)
        ∧ computedHash sha256 zone row = row.hash ∧ row.hash = hash := by
  have hpos : expected.length > 0 ↔ expected ≠ [] := List.length_pos_iff
  rw [verifyRow]
  by_cases hprev : expected.length > 0 ∧ expected ≠ row.prevHash
  · rw [if_pos hprev]
    simp only [reduceCtorEq, false_iff]
    rintro ⟨h, -⟩
    exact hprev.2 (h (hpos.mp hprev.1))
  · rw [if_neg hprev]
    have hcont : expected ≠ [] → expected = row.prevHash := by
      intro h
      by_contra hne
      exact hprev ⟨hpos.mpr h, hne⟩
    by_cases hhash : computedHash sha256 zone row = row.hash
    · simpa [hhash] using fun _ => hcont
    · simp [hhash]

theorem foldlM_verifyRow (rows : List Row) (expected : Bytes) :
    (rows.foldlM (verifyRow sha256 zone) expected).isSome
      ↔ Continues expected rows ∧ Accepted sha256 zone rows := by
  induction rows generalizing expected with
  | nil => simp [Continues, show Accepted sha256 zone [] from ⟨by simp, .nil⟩]
  | cons row rows ih =>
    rw [List.foldlM_cons]
    cases hrow : verifyRow sha256 zone expected row with
    | none =>
      simp only [Option.bind_eq_bind, Option.bind_none, Option.isSome_none,
        Bool.false_eq_true, false_iff]
      rintro ⟨hcont, hacc⟩
      have hsome : verifyRow sha256 zone expected row = some row.hash :=
        verifyRow_eq_some.mpr
          ⟨fun h => hcont h row rfl, hacc.computed row (by simp), rfl⟩
      rw [hsome] at hrow
      exact absurd hrow (by simp)
    | some hash =>
      obtain ⟨hcont, hcomputed, rfl⟩ := verifyRow_eq_some.mp hrow
      have hne : row.hash ≠ [] := by
        rw [← hcomputed]
        exact List.ne_nil_of_length_pos (by rw [computedHash_length]; decide)
      show (rows.foldlM (verifyRow sha256 zone) row.hash).isSome ↔ _
      rw [ih]
      constructor
      · rintro ⟨hnext, hacc⟩
        refine ⟨fun h _ hmem => ?_, ?_, ?_⟩
        · rw [← Option.some.inj hmem]
          exact hcont h
        · exact List.forall_mem_cons.mpr ⟨hcomputed, hacc.computed⟩
        · exact List.isChain_cons.mpr ⟨fun b hb => hnext hne b hb, hacc.linked⟩
      · rintro ⟨-, hacc⟩
        obtain ⟨hhead, hlinked⟩ := List.isChain_cons.mp hacc.linked
        exact ⟨fun _ b hb => hhead b hb,
          fun r hr => hacc.computed r (by simp [hr]), hlinked⟩

/-! ## The batches -/

/-- In the order of keys, the rows after the last of a batch are the others. -/
theorem filter_last {rows : List Row} (h : rows.Pairwise fun a b => a.id < b.id)
    {n : Nat} {last : Row} (hlast : (rows.take n).getLast? = some last) :
    rows.filter (fun row => last.id < row.id) = rows.drop n := by
  have hsplit := List.take_append_drop n rows
  have hmem : last ∈ rows.take n := List.mem_of_getLast? hlast
  rw [← hsplit] at h
  obtain ⟨htake, -, hcross⟩ := List.pairwise_append.mp h
  have hnone : (rows.take n).filter (fun row => last.id < row.id) = [] := by
    obtain ⟨front, hfront⟩ := List.getLast?_eq_some_iff.mp hlast
    rw [hfront] at htake ⊢
    obtain ⟨-, -, hlt⟩ := List.pairwise_append.mp htake
    refine List.filter_eq_nil_iff.mpr fun row hrow => ?_
    rcases List.mem_append.mp hrow with hrow | hrow
    · have hid := hlt row hrow last (by simp)
      simp only [decide_eq_true_eq]
      omega
    · obtain rfl := List.mem_singleton.mp hrow
      simp
  have hall : (rows.drop n).filter (fun row => last.id < row.id) = rows.drop n := by
    refine List.filter_eq_self.mpr fun row hrow => ?_
    simpa using hcross last hmem row hrow
  calc rows.filter (fun row => last.id < row.id)
      = (rows.take n).filter (fun row => last.id < row.id)
        ++ (rows.drop n).filter (fun row => last.id < row.id) := by
          rw [← List.filter_append, hsplit]
    _ = rows.drop n := by rw [hnone, hall, List.nil_append]

/-- The query after a batch goes on with the rows the batch has left. -/
theorem filter_next (log : AuditLog) (userID : UserID) {rest : List Row} {lastID n : Nat}
    {last : Row} (hrest : (log.ofUser userID).filter (fun row => lastID < row.id) = rest)
    (hlast : (rest.take n).getLast? = some last) :
    (log.ofUser userID).filter (fun row => last.id < row.id) = rest.drop n := by
  have hordered : rest.Pairwise fun a b => a.id < b.id := by
    rw [← hrest]
    exact (log.ordered.filter _).filter _
  have hmem : last ∈ rest := List.mem_of_mem_take (List.mem_of_getLast? hlast)
  rw [← hrest] at hmem
  have hid : lastID < last.id := by simpa using List.of_mem_filter hmem
  rw [← filter_last hordered hlast, ← hrest, List.filter_filter]
  refine List.filter_congr fun row _ => ?_
  by_cases hlt : last.id < row.id
  · simp [hlt, hid.trans hlt]
  · simp [hlt]

/-- **The batches are one pass**: from a key on, they accept just when the
remaining rows pass one after the other. -/
theorem verifyBatches_eq (log : AuditLog) (userID : UserID) {rest : List Row} :
    ∀ (fuel : Nat) {batch lastID total : Nat} {expected : Bytes},
      (log.ofUser userID).filter (fun row => lastID < row.id) = rest →
      rest.length < fuel →
      verifyBatches sha256 zone log userID (fun _ => none) fuel batch lastID expected total
        = some (.ok (rest.foldlM (verifyRow sha256 zone) expected).isSome) := by
  intro fuel
  induction fuel generalizing rest with
  | zero =>
    intro batch lastID total expected _ hfuel
    omega
  | succ fuel ih =>
    intro batch lastID total expected hrest hfuel
    have hquery : log.query userID lastID batchSize = rest.take batchSize := by
      rw [AuditLog.query, hrest]
    have hsplit : rest.foldlM (verifyRow sha256 zone) expected
        = (rest.take batchSize).foldlM (verifyRow sha256 zone) expected
          >>= (rest.drop batchSize).foldlM (verifyRow sha256 zone) := by
      rw [← List.foldlM_append, List.take_append_drop]
    simp only [verifyBatches, hquery]
    cases hbatch : (rest.take batchSize).foldlM (verifyRow sha256 zone) expected with
    | none => simp [hsplit, hbatch]
    | some hash =>
      by_cases hshort : (rest.take batchSize).length < batchSize
      · -- the last batch
        have hdrop : rest.drop batchSize = [] := by
          rw [List.length_take] at hshort
          exact List.drop_eq_nil_of_le (by omega)
        simp only [if_pos hshort, hsplit, hbatch, hdrop]
        rfl
      · have hlen : batchSize ≤ rest.length := by
          rw [List.length_take] at hshort
          omega
        have hne : rest.take batchSize ≠ [] := by
          refine List.ne_nil_of_length_pos ?_
          rw [List.length_take, Nat.min_eq_left hlen]
          decide
        obtain ⟨last, hlast⟩ : ∃ last, (rest.take batchSize).getLast? = some last :=
          ⟨_, List.getLast?_eq_some_getLast hne⟩
        have hnext := filter_next log userID hrest hlast
        have hfuel' : (rest.drop batchSize).length < fuel := by
          rw [List.length_drop]
          have hpos : 0 < batchSize := by decide
          omega
        simp only [if_neg hshort, hlast, Option.map_some, Option.getD_some]
        rw [ih hnext hfuel', hsplit, hbatch]
        rfl

/-- **What is accepted**: the chain of the user's rows, whatever their number. -/
theorem verifyChain_eq (log : AuditLog) (userID : UserID) :
    verifyChain sha256 zone log userID (fun _ => none)
      = some (.ok (decide (Accepted sha256 zone (log.ofUser userID)))) := by
  have hall : (log.ofUser userID).filter (fun row => 0 < row.id) = log.ofUser userID := by
    refine List.filter_eq_self.mpr fun row hrow => ?_
    simpa using (log.bounded row (List.mem_of_mem_filter hrow)).1
  have hlen : (log.ofUser userID).length < log.rows.length + 1 :=
    Nat.lt_succ_of_le (List.length_filter_le _ _)
  have hsome : ((log.ofUser userID).foldlM (verifyRow sha256 zone) []).isSome ↔ _ :=
    foldlM_verifyRow (log.ofUser userID) []
  rw [verifyChain, verifyBatches_eq log userID _ hall hlen]
  congr 2
  rw [Bool.eq_iff_iff, hsome, decide_eq_true_iff]
  simp [Continues]

theorem verifyChain_true {log : AuditLog} {userID : UserID} :
    verifyChain sha256 zone log userID (fun _ => none) = some (.ok true)
      ↔ Accepted sha256 zone (log.ofUser userID) := by
  rw [verifyChain_eq]
  simp

theorem verifyChain_false {log : AuditLog} {userID : UserID} :
    verifyChain sha256 zone log userID (fun _ => none) = some (.ok false)
      ↔ ¬Accepted sha256 zone (log.ofUser userID) := by
  rw [verifyChain_eq]
  simp

end UsbVault.Audit
