import Mathlib.Data.List.Nodup
import Mathlib.Logic.Function.Basic

/-!
# Tables

Rows by their keys, written by statements of their own and by transactions
at the isolation level READ COMMITTED. What an open transaction has written
is seen by its own statements alone, and locks the row, until the transaction
is committed or rolled back.

A statement reads the row a transaction sees (`view`), the keys whose rows
meet a condition (`select`) and how many they are (`count`). It writes by
itself (`put`, `deleteWhere`), or in a transaction (`write`, then `commit` or
`rollback`).
-/

namespace Tables

/-- How a statement ends that is committed by itself: it may be executed and its
answer lost. -/
inductive Execution where
  | done
  | failed
  | unacknowledged
  deriving DecidableEq, Repr

def Execution.Took (e : Execution) : Prop := e ≠ .failed

instance (e : Execution) : Decidable e.Took := inferInstanceAs (Decidable (_ ≠ _))

@[simp] theorem Execution.took_done : Execution.done.Took := by decide

@[simp] theorem Execution.not_took_failed : ¬Execution.failed.Took := by decide

@[simp] theorem Execution.took_unacknowledged : Execution.unacknowledged.Took := by decide

/-- The committed rows, and those written by open transactions: for a key, the
transaction and what the row will be. `keys` are the keys ever written. -/
structure Table (κ ν : Type) where
  rows : κ → Option ν
  pending : κ → Option (Nat × Option ν)
  keys : List κ
  nodup : keys.Nodup
  mem_keys : ∀ k, rows k ≠ none ∨ pending k ≠ none → k ∈ keys

namespace Table

variable {κ ν : Type}

def empty : Table κ ν :=
  ⟨fun _ => none, fun _ => none, [], List.nodup_nil, fun _ h => absurd h (by simp)⟩

/-- The row that the statements of a transaction see. -/
def view (t : Table κ ν) (tx : Nat) (k : κ) : Option ν :=
  match t.pending k with
  | some (tx', r) => if tx' = tx then r else t.rows k
  | none => t.rows k

/-- Another transaction has written the row. -/
def Held (t : Table κ ν) (tx : Nat) (k : κ) : Prop := ∃ p ∈ t.pending k, p.1 ≠ tx

instance (t : Table κ ν) (tx : Nat) (k : κ) : Decidable (t.Held tx k) :=
  inferInstanceAs (Decidable (∃ p ∈ t.pending k, p.1 ≠ tx))

def select (t : Table κ ν) (tx : Nat) (p : κ → ν → Bool) : List κ :=
  t.keys.filter fun k => (t.view tx k).any (p k)

/-- The keys of the committed rows that meet the condition. -/
def scan (t : Table κ ν) (p : κ → ν → Bool) : List κ :=
  t.keys.filter fun k => (t.rows k).any (p k)

/-- The committed rows that meet the condition. -/
def count (t : Table κ ν) (p : κ → ν → Bool) : Nat :=
  t.keys.countP fun k => (t.rows k).any (p k)

section

variable [DecidableEq κ]

theorem mem_insert_of_update {t : Table κ ν} {k k' : κ} {α : Type} {f : κ → Option α}
    {v : Option α} (hf : f k' ≠ none → k' ∈ t.keys) (h : Function.update f k v k' ≠ none) :
    k' ∈ t.keys.insert k := by
  by_cases hk : k' = k
  · simp [hk]
  · rw [Function.update_of_ne hk] at h
    simp [hf h]

/-- A statement of its own writes the row, or deletes it. -/
def put (t : Table κ ν) (k : κ) (r : Option ν) : Table κ ν where
  rows := Function.update t.rows k r
  pending := t.pending
  keys := t.keys.insert k
  nodup := t.nodup.insert
  mem_keys := by
    intro k' h
    rcases h with h | h
    · exact mem_insert_of_update (fun h' => t.mem_keys k' (.inl h')) h
    · simp [t.mem_keys k' (.inr h)]

/-- A transaction writes the row, or deletes it. -/
def write (t : Table κ ν) (tx : Nat) (k : κ) (r : Option ν) : Table κ ν where
  rows := t.rows
  pending := Function.update t.pending k (some (tx, r))
  keys := t.keys.insert k
  nodup := t.nodup.insert
  mem_keys := by
    intro k' h
    rcases h with h | h
    · simp [t.mem_keys k' (.inl h)]
    · exact mem_insert_of_update (fun h' => t.mem_keys k' (.inr h')) h

end

theorem mem_keys_of_view {t : Table κ ν} {tx : Nat} {k : κ} (h : t.view tx k ≠ none) :
    k ∈ t.keys := by
  rw [view] at h
  split at h
  · rename_i hp
    exact t.mem_keys k (.inr (by simp [hp]))
  · exact t.mem_keys k (.inl h)

/-- A statement of its own deletes the rows that meet the condition. -/
def deleteWhere (t : Table κ ν) (p : κ → ν → Bool) : Table κ ν where
  rows k := (t.rows k).filter fun v => !p k v
  pending := t.pending
  keys := t.keys
  nodup := t.nodup
  mem_keys := by
    intro k h
    refine t.mem_keys k (h.imp_left ?_)
    intro hfilter hnone
    simp [hnone] at hfilter

def commit (t : Table κ ν) (tx : Nat) : Table κ ν where
  rows := t.view tx
  pending k := (t.pending k).filter fun p => p.1 ≠ tx
  keys := t.keys
  nodup := t.nodup
  mem_keys := by
    intro k h
    rcases h with h | h
    · exact mem_keys_of_view h
    · refine t.mem_keys k (.inr ?_)
      intro hnone
      simp [hnone] at h

def rollback (t : Table κ ν) (tx : Nat) : Table κ ν where
  rows := t.rows
  pending k := (t.pending k).filter fun p => p.1 ≠ tx
  keys := t.keys
  nodup := t.nodup
  mem_keys := by
    intro k h
    refine t.mem_keys k (h.imp_right ?_)
    intro hfilter hnone
    simp [hnone] at hfilter

/-! ## Reading -/

variable {t : Table κ ν} {tx tx' : Nat} {k k' : κ} {r r' : Option ν} {p : κ → ν → Bool}

theorem view_of_free (h : t.pending k = none) : t.view tx k = t.rows k := by
  simp [view, h]

theorem view_of_own (h : t.pending k = some (tx, r)) : t.view tx k = r := by
  simp [view, h]

theorem view_of_other (h : ∀ r', t.pending k ≠ some (tx, r')) : t.view tx k = t.rows k := by
  rw [view]
  split
  · rename_i tx' r' hp
    by_cases htx : tx' = tx
    · rw [htx] at hp
      exact absurd hp (h r')
    · simp [htx]
  · rfl

/-- A row that no other transaction has written is free, or one's own. -/
theorem pending_of_not_held (h : ¬t.Held tx k) :
    t.pending k = none ∨ ∃ r, t.pending k = some (tx, r) := by
  cases hp : t.pending k with
  | none => exact .inl rfl
  | some q =>
    obtain ⟨tx', r⟩ := q
    by_cases htx : tx' = tx
    · exact .inr ⟨r, by rw [htx]⟩
    · exact absurd ⟨(tx', r), hp, htx⟩ h

theorem mem_select : k ∈ t.select tx p ↔ ∃ v, t.view tx k = some v ∧ p k v = true := by
  rw [select, List.mem_filter]
  constructor
  · intro ⟨_, h⟩
    exact (Option.any_eq_true _ _).mp h
  · intro ⟨v, hv, hp⟩
    exact ⟨mem_keys_of_view (ne_of_eq_of_ne hv (by simp)), by simp [hv, hp]⟩

theorem mem_scan : k ∈ t.scan p ↔ ∃ v, t.rows k = some v ∧ p k v = true := by
  rw [scan, List.mem_filter, Option.any_eq_true]
  constructor
  · intro ⟨_, h⟩
    exact h
  · intro ⟨v, hv, hp⟩
    exact ⟨t.mem_keys k (.inl (ne_of_eq_of_ne hv (by simp))), v, hv, hp⟩

theorem nodup_scan : (t.scan p).Nodup := t.nodup.filter _

/-! ## Writing -/

section

variable [DecidableEq κ]

@[simp] theorem rows_put_self : (t.put k r).rows k = r := by
  simp [put]

@[simp] theorem rows_put_ne (h : k' ≠ k) : (t.put k r).rows k' = t.rows k' := by
  simp [put, h]

@[simp] theorem pending_put : (t.put k r).pending = t.pending := rfl

@[simp] theorem rows_write : (t.write tx k r).rows = t.rows := rfl

@[simp] theorem pending_write_self : (t.write tx k r).pending k = some (tx, r) := by
  simp [write]

@[simp] theorem pending_write_ne (h : k' ≠ k) : (t.write tx k r).pending k' = t.pending k' := by
  simp [write, h]

end

@[simp] theorem rows_rollback : (t.rollback tx).rows = t.rows := rfl

@[simp] theorem pending_deleteWhere : (t.deleteWhere p).pending = t.pending := rfl

@[simp] theorem rows_commit : (t.commit tx).rows k = t.view tx k := rfl

theorem rows_deleteWhere {v : ν} :
    (t.deleteWhere p).rows k = some v ↔ t.rows k = some v ∧ p k v = false := by
  simp [deleteWhere, Option.filter_eq_some_iff]

theorem pending_commit :
    (t.commit tx).pending k = some (tx', r) ↔ t.pending k = some (tx', r) ∧ tx' ≠ tx := by
  simp [commit, Option.filter_eq_some_iff]

theorem pending_rollback :
    (t.rollback tx).pending k = some (tx', r) ↔ t.pending k = some (tx', r) ∧ tx' ≠ tx := by
  simp [rollback, Option.filter_eq_some_iff]

/-! ## Counting -/

theorem countP_le_succ {l : List κ} {f g : κ → Bool} (hl : l.Nodup)
    (h : ∀ k' ∈ l, k' ≠ k → f k' = true → g k' = true) : l.countP f ≤ l.countP g + 1 := by
  induction l with
  | nil => simp
  | cons a l ih =>
    obtain ⟨ha, hnodup⟩ := List.nodup_cons.mp hl
    by_cases hak : a = k
    · -- the only key that may count more
      have hle : l.countP f ≤ l.countP g := by
        refine List.countP_mono_left ?_
        intro k' hk'
        refine h k' (List.mem_cons_of_mem a hk') ?_
        intro heq
        rw [heq, ← hak] at hk'
        exact ha hk'
      simp only [List.countP_cons]
      split <;> split <;> omega
    · have hle := ih hnodup fun k' hk' => h k' (List.mem_cons_of_mem a hk')
      have hag := h a List.mem_cons_self hak
      simp only [List.countP_cons]
      by_cases hfa : f a = true
      · simp [hfa, hag hfa]
        omega
      · simp [hfa]
        omega

/-- A commit that changes one row counts at most one more. -/
theorem count_commit_le (h : ∀ k', k' ≠ k → t.view tx k' = t.rows k') :
    (t.commit tx).count p ≤ t.count p + 1 := by
  refine countP_le_succ t.nodup (k := k) ?_
  intro k' _ hk' hcounts
  rwa [rows_commit, h k' hk'] at hcounts

theorem count_congr {t' : Table κ ν} (hkeys : t'.keys = t.keys)
    (h : ∀ k v, t'.rows k = some v → p k v = true → t.rows k = some v) :
    t'.count p ≤ t.count p := by
  rw [count, count, hkeys]
  refine List.countP_mono_left ?_
  intro k _ hcounts
  obtain ⟨v, hv, hp⟩ := (Option.any_eq_true _ _).mp hcounts
  simp [h k v hv hp, hp]

theorem countP_insert [DecidableEq κ] {l : List κ} (f : κ → Bool) (h : f k = false) :
    (l.insert k).countP f = l.countP f := by
  by_cases hk : k ∈ l
  · rw [List.insert_of_mem hk]
  · rw [List.insert_of_not_mem hk, List.countP_cons]
    simp [h]

theorem put_keys [DecidableEq κ] : (t.put k r).keys = t.keys.insert k := rfl

/-- What a transaction has yet to commit is not counted. -/
theorem count_write [DecidableEq κ] : (t.write tx k r).count p = t.count p := by
  by_cases hk : k ∈ t.keys
  · rw [count, count, show (t.write tx k r).keys = t.keys from List.insert_of_mem hk]
    rfl
  · have hnone : t.rows k = none := by
      by_contra hne
      exact hk (t.mem_keys k (.inl hne))
    exact countP_insert (fun k' => (t.rows k').any (p k')) (by simp [hnone])

/-- A transaction that sees the committed rows finds as many. -/
theorem length_select (h : ∀ k, t.view tx k = t.rows k) : (t.select tx p).length = t.count p := by
  rw [select, count, ← List.countP_eq_length_filter]
  simp only [h]

/-- A row that does not meet the condition adds nothing to the count. -/
theorem count_put_le [DecidableEq κ] (h : r.any (p k) = false) :
    (t.put k r).count p ≤ t.count p := by
  have hk : ((t.put k r).rows k).any (p k) = false := by rw [rows_put_self, h]
  rw [count, put_keys, countP_insert (fun k' => ((t.put k r).rows k').any (p k')) hk, count]
  refine List.countP_mono_left ?_
  intro k' _ hcounts
  by_cases heq : k' = k
  · rw [heq, hk] at hcounts
    cases hcounts
  · rwa [rows_put_ne heq] at hcounts

end Table

end Tables
