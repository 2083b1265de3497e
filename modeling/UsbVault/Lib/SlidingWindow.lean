import Mathlib.Data.List.Nodup

/-!
# Sliding windows

Times, the latest first, and how many of them lie in a window: the last
`width` up to an instant, which itself is in it. When every time that is
added has few enough in the window up to it, no window at all has more
(`Within.cons`).
-/

namespace SlidingWindow

variable {width n : Nat} {times later : List Nat} {t a : Nat}

/-- `t` lies in the window up to `a`. -/
def inWindow (width a t : Nat) : Bool := t ≤ a && a < t + width

theorem inWindow_iff : inWindow width a t = true ↔ t ≤ a ∧ a < t + width := by
  simp [inWindow]

/-- No window has more than `n` of the times. -/
def Within (width n : Nat) (times : List Nat) : Prop :=
  ∀ a, times.countP (inWindow width a) ≤ n

theorem within_nil : Within width n [] := fun _ => Nat.zero_le n

/-- Up to a later instant there are no more of the times that have passed. -/
theorem countP_inWindow_le (hle : ∀ t' ∈ times, t' ≤ t) (hta : t ≤ a) :
    times.countP (inWindow width a) ≤ times.countP (inWindow width t) := by
  refine List.countP_mono_left ?_
  intro t' ht' hwindow
  rw [inWindow_iff] at hwindow ⊢
  exact ⟨hle t' ht', Nat.lt_of_le_of_lt hta hwindow.2⟩

/-- Times of one of two kinds are no more than those of the one and the other. -/
theorem countP_le_add {p q r : Nat → Bool} (h : ∀ t ∈ times, p t → q t ∨ r t) :
    times.countP p ≤ times.countP q + times.countP r := by
  induction times with
  | nil => exact Nat.zero_le _
  | cons t times ih =>
    have hrest := ih fun t' ht' => h t' (List.mem_cons_of_mem t ht')
    have hkind := h t List.mem_cons_self
    rw [List.countP_cons, List.countP_cons, List.countP_cons]
    by_cases hp : p t = true
    · rw [if_pos hp]
      rcases hkind hp with hq | hr
      · rw [if_pos hq]
        omega
      · rw [if_pos hr]
        omega
    · rw [if_neg hp]
      omega

/-- Fewer times are of a narrower kind, when one is of the wider kind alone. -/
theorem countP_lt {p q : Nat → Bool} (ht : t ∈ times) (hq : q t = true) (hp : p t = false)
    (h : ∀ t, p t → q t) : times.countP p < times.countP q := by
  obtain ⟨before, rest, rfl⟩ := List.append_of_mem ht
  have hbefore : before.countP p ≤ before.countP q := List.countP_mono_left fun t _ => h t
  have hrest : rest.countP p ≤ rest.countP q := List.countP_mono_left fun t _ => h t
  rw [List.countP_append, List.countP_append, List.countP_cons_of_pos hq,
    List.countP_cons_of_neg (by rw [hp]; exact Bool.false_ne_true)]
  omega

/-- **A time is added** that has few enough in the window up to it. -/
theorem Within.cons (h : Within width n times) (hle : ∀ t' ∈ times, t' ≤ t)
    (hcount : (t :: times).countP (inWindow width t) ≤ n) : Within width n (t :: times) := by
  intro a
  by_cases hwindow : inWindow width a t = true
  · have hta : t ≤ a := (inWindow_iff.mp hwindow).1
    refine Nat.le_trans (countP_inWindow_le ?_ hta) hcount
    intro t' ht'
    rcases List.mem_cons.mp ht' with rfl | ht'
    · exact Nat.le_refl t'
    · exact hle t' ht'
  · rw [List.countP_cons_of_neg hwindow]
    exact h a

end SlidingWindow
