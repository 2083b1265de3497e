import Mathlib.Data.List.GetD
import Mathlib.Data.Vector.Basic

/-!
# Faults

Computations that return, return early with an error, or stop with a fault:
an index out of range, a subtraction below zero, a division by zero. One that
cannot stop is the image of its result (`lift`), step by step and loop by
loop.
-/

namespace Faults

inductive Fault where
  | index
  | slice
  | subtraction
  | division
  deriving DecidableEq, Repr

abbrev Checked (ε α : Type) := ExceptT ε (Except Fault) α

variable {ε α β τ : Type}

/-- The computation that returns, or returns early. -/
def lift (r : Except ε α) : Checked ε α := ExceptT.mk (.ok r)

def fault (f : Fault) : Checked ε α := ExceptT.mk (.error f)

/-- No fault is met. -/
def Returns (x : Checked ε α) : Prop := ∃ r, x = lift r

@[simp] theorem returns_lift (r : Except ε α) : Returns (lift r) := ⟨r, rfl⟩

@[simp] theorem not_returns_fault (f : Fault) : ¬Returns (fault f : Checked ε α) := by
  rintro ⟨r, h⟩
  have hrun : (Except.error f : Except Fault (Except ε α)) = .ok r := h
  cases hrun

theorem pure_eq (a : α) : (pure a : Checked ε α) = lift (.ok a) := rfl

@[simp] theorem lift_ok_bind (a : α) (f : α → Checked ε β) : lift (.ok a) >>= f = f a := rfl

@[simp] theorem lift_error_bind (e : ε) (f : α → Checked ε β) :
    lift (.error e) >>= f = lift (.error e) := rfl

@[simp] theorem fault_bind (t : Fault) (f : α → Checked ε β) : fault t >>= f = fault t := rfl

/-! ## Operations -/

def index (xs : List α) (i : Nat) : Checked ε α :=
  match xs[i]? with
  | some x => lift (.ok x)
  | none => fault .index

/-- `xs[..n]` -/
def slice (xs : List α) (n : Nat) : Checked ε (List α) :=
  if n ≤ xs.length then lift (.ok (xs.take n)) else fault .slice

/-- `xs[i..j]` -/
def range (xs : List α) (i j : Nat) : Checked ε (List α) :=
  if i ≤ j ∧ j ≤ xs.length then lift (.ok ((xs.drop i).take (j - i))) else fault .slice

/-- `xs[i..i + n]` as an array; `e` is the error of the conversion. -/
def rangeVec (e : ε) (xs : List α) (i n : Nat) : Checked ε (List.Vector α n) := do
  let slice ← range xs i (i + n)
  lift (if h : slice.length = n then .ok ⟨slice, h⟩ else .error e)

/-- `xs[i]`, `xs[i + 1]` and so on, `n` of them. -/
def indices (xs : List α) (i n : Nat) : Checked ε (List α) :=
  (List.range n).mapM fun k => index xs (i + k)

def sub (a b : Nat) : Checked ε Nat := if b ≤ a then lift (.ok (a - b)) else fault .subtraction

theorem index_of_getElem? {xs : List α} {i : Nat} {x : α} (h : xs[i]? = some x) :
    (index xs i : Checked ε α) = lift (.ok x) := by
  rw [index, h]

theorem index_of_lt {xs : List α} {i : Nat} (h : i < xs.length) (default : α) :
    (index xs i : Checked ε α) = lift (.ok (xs.getD i default)) := by
  rw [List.getD_eq_getElem _ _ h]
  exact index_of_getElem? (List.getElem?_eq_getElem h)

theorem slice_of_le {xs : List α} {n : Nat} (h : n ≤ xs.length) :
    (slice xs n : Checked ε (List α)) = lift (.ok (xs.take n)) := by
  rw [slice, if_pos h]

theorem range_of_le {xs : List α} {i j : Nat} (hij : i ≤ j) (hj : j ≤ xs.length) :
    (range xs i j : Checked ε (List α)) = lift (.ok ((xs.drop i).take (j - i))) := by
  rw [range, if_pos ⟨hij, hj⟩]

/-- The slice between what comes before and what comes after. -/
theorem range_split {xs : List α} {i n : Nat} (h : i + n ≤ xs.length) :
    ∃ mid, (range xs i (i + n) : Checked ε (List α)) = lift (.ok mid) ∧ mid.length = n
      ∧ xs.drop i = mid ++ xs.drop (i + n) := by
  refine ⟨(xs.drop i).take n, ?_, ?_, ?_⟩
  · rw [range_of_le (Nat.le_add_right i n) h, Nat.add_sub_cancel_left]
  · rw [List.length_take, List.length_drop]
    omega
  · rw [← List.drop_drop, List.take_append_drop]

theorem rangeVec_split (e : ε) {xs : List α} {i n : Nat} (h : i + n ≤ xs.length) :
    ∃ v : List.Vector α n, rangeVec e xs i n = lift (.ok v)
      ∧ xs.drop i = v.toList ++ xs.drop (i + n) := by
  obtain ⟨mid, hrange, hlength, hdrop⟩ := range_split (ε := ε) h
  refine ⟨⟨mid, hlength⟩, ?_, hdrop⟩
  rw [rangeVec, hrange, lift_ok_bind, dif_pos hlength]

theorem indices_of_le {xs : List α} {i n : Nat} (h : i + n ≤ xs.length) :
    (indices xs i n : Checked ε (List α)) = lift (.ok ((xs.drop i).take n)) := by
  induction n with
  | zero => rw [List.take_zero]; rfl
  | succ n ih =>
    have hget := List.getElem?_eq_getElem (show i + n < xs.length by omega)
    have htake : (xs.drop i).take (n + 1) = (xs.drop i).take n ++ [xs[i + n]] := by
      rw [List.take_add_one, List.getElem?_drop, hget]
      rfl
    rw [htake, indices, List.range_succ, List.mapM_append, ← indices, ih (by omega),
      lift_ok_bind, List.mapM_cons, index_of_getElem? hget, List.mapM_nil]
    rfl

/-- `xs[i..]` -/
theorem range_rest {xs : List α} {i : Nat} (h : i ≤ xs.length) :
    (range xs i xs.length : Checked ε (List α)) = lift (.ok (xs.drop i)) := by
  rw [range_of_le h (Nat.le_refl _), List.take_of_length_le (Nat.le_of_eq List.length_drop)]

theorem sub_of_le {a b : Nat} (h : b ≤ a) : (sub a b : Checked ε Nat) = lift (.ok (a - b)) := by
  rw [sub, if_pos h]

/-! ## Loops -/

/-- Return early with an error. -/
def reject (p : Bool) (e : ε) : Checked ε Unit := lift (if p then .error e else .ok ())

/-- A loop that rejects what one of its rounds does. -/
theorem forM_reject {f : α → Checked ε Unit} {p : α → Bool} {e : ε} {l : List α}
    (h : ∀ a ∈ l, f a = reject (p a) e) : l.forM f = reject (l.any p) e := by
  induction l with
  | nil => rfl
  | cons a l ih =>
    have hcons : (a :: l).forM f = f a >>= fun _ => l.forM f := rfl
    rw [hcons, h a List.mem_cons_self, ih fun b hb => h b (List.mem_cons_of_mem a hb)]
    by_cases ha : p a = true
    · simp [reject, ha]
    · simp [reject, ha]

theorem foldlM_lift {f : β → α → Checked ε β} {g : β → α → Except ε β} {l : List α}
    (h : ∀ b, ∀ a ∈ l, f b a = lift (g b a)) : ∀ b, l.foldlM f b = lift (l.foldlM g b) := by
  induction l with
  | nil => intro b; rfl
  | cons a l ih =>
    intro b
    rw [List.foldlM_cons, List.foldlM_cons, h b a List.mem_cons_self]
    cases hga : g b a with
    | error e => rfl
    | ok b' => exact ih (fun b a ha => h b a (List.mem_cons_of_mem _ ha)) b'

theorem mapM_lift {f : α → Checked ε β} {g : α → Except ε β} {l : List α}
    (h : ∀ a ∈ l, f a = lift (g a)) : l.mapM f = lift (l.mapM g) := by
  induction l with
  | nil => rfl
  | cons a l ih =>
    rw [List.mapM_cons, List.mapM_cons, h a List.mem_cons_self,
      ih fun b hb => h b (List.mem_cons_of_mem a hb)]
    cases g a with
    | error e => rfl
    | ok b =>
      cases l.mapM g with
      | error e => rfl
      | ok bs => rfl

end Faults
