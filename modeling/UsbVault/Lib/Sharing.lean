import Mathlib.Data.List.GetD
import Mathlib.LinearAlgebra.Lagrange

/-!
# Sharing

Threshold sharing over a field: polynomials as coefficient lists with
the constant term first, evaluated by Horner's rule, and interpolated
from a list of nodes. `recoverAtZero` gives back the constant term from
enough nodes (`recoverAtZero_horner`), and fewer nodes leave it free:
each constant term has exactly one continuation through the observed
values (`existsUnique_tail`).
-/

namespace Sharing

open Polynomial

variable {F : Type} [Field F]

/-! ## Coefficient lists -/

/-- Evaluation by Horner's rule, constant term first. -/
def horner : List F → F → F
  | [], _ => 0
  | c :: cs, x => horner cs x * x + c

/-- The polynomial of a coefficient list. -/
noncomputable def toPoly : List F → F[X]
  | [] => 0
  | c :: cs => toPoly cs * X + C c

theorem eval_toPoly (cs : List F) (x : F) :
    (toPoly cs).eval x = horner cs x := by
  induction cs with
  | nil => simp [toPoly, horner]
  | cons c cs ih => simp [toPoly, horner, ih]

theorem coeff_toPoly (cs : List F) (n : ℕ) :
    (toPoly cs).coeff n = cs.getD n 0 := by
  induction cs generalizing n with
  | nil => simp [toPoly]
  | cons c cs ih =>
    cases n with
    | zero => simp [toPoly]
    | succ n => simp [toPoly, ih]

theorem degree_toPoly_lt (cs : List F) :
    (toPoly cs).degree < (cs.length : WithBot ℕ) := by
  rw [degree_lt_iff_coeff_zero]
  intro n hn
  rw [coeff_toPoly, List.getD_eq_default _ _ hn]

/-- Lists of one length with the same polynomial are equal. -/
theorem toPoly_inj {cs ds : List F} (hlen : cs.length = ds.length)
    (hp : toPoly cs = toPoly ds) : cs = ds := by
  refine List.ext_getElem hlen ?_
  intro n hc hd
  have hcoeff : (toPoly cs).coeff n = (toPoly ds).coeff n := by rw [hp]
  simpa [coeff_toPoly, hc, hd] using hcoeff

/-- A polynomial of degree below `n` has a coefficient list of length `n`. -/
theorem exists_toPoly {p : F[X]} {n : ℕ} (hdeg : p.degree < (n : WithBot ℕ)) :
    ∃ cs : List F, cs.length = n ∧ toPoly cs = p := by
  refine ⟨(List.range n).map p.coeff, by simp, ?_⟩
  ext k
  rw [coeff_toPoly]
  by_cases hk : k < n
  · simp [hk]
  · have hzero := (degree_lt_iff_coeff_zero p n).mp hdeg k (not_lt.mp hk)
    simp [hk, hzero]

theorem horner_zero (cs : List F) : horner cs 0 = cs.headD 0 := by
  cases cs with
  | nil => rfl
  | cons c cs => simp [horner]

/-! ## Nodes -/

/-- The nodes of a list, indexed. -/
def node (xs : List F) (i : ℕ) : F := xs.getD i 0

theorem node_injOn {xs : List F} (hx : xs.Nodup) :
    Set.InjOn (node xs) (Finset.range xs.length) := by
  intro i hi j hj hij
  have hi' : i < xs.length := by simpa using hi
  have hj' : j < xs.length := by simpa using hj
  simp only [node, List.getD_eq_getElem _ _ hi', List.getD_eq_getElem _ _ hj']
    at hij
  exact (List.Nodup.getElem_inj_iff hx).mp hij

/-- **Unique interpolation**: through given values at distinct nodes there
is exactly one coefficient list of that many coefficients. -/
theorem existsUnique_coeffs {xs ys : List F} (hx : xs.Nodup)
    (hlen : ys.length = xs.length) :
    ∃! cs : List F, cs.length = xs.length ∧ xs.map (horner cs) = ys := by
  have hinj := node_injOn hx
  have hdeg := Lagrange.degree_interpolate_lt (node ys) hinj
  rw [Finset.card_range] at hdeg
  obtain ⟨cs, hcs, hp⟩ := exists_toPoly hdeg
  refine ⟨cs, ⟨hcs, ?_⟩, ?_⟩
  -- the interpolant goes through the values
  · refine List.ext_getElem (by simp [hlen]) ?_
    intro i hi hi'
    have hix : i < xs.length := by simpa using hi
    have heval := Lagrange.eval_interpolate_at_node (node ys) hinj
      (Finset.mem_range.mpr hix)
    rw [← hp, eval_toPoly] at heval
    simpa [node, hix, hi'] using heval
  -- and nothing else of its degree does
  · rintro ds ⟨hds, hval⟩
    refine (toPoly_inj (hds.trans hcs.symm) ?_)
    rw [hp]
    refine Lagrange.eq_interpolate_of_eval_eq (node ys) hinj ?_ ?_
    · rw [Finset.card_range, ← hds]
      exact degree_toPoly_lt ds
    · intro i hi
      have hix : i < xs.length := by simpa using hi
      rw [eval_toPoly, ← hval]
      simp [node, hix]

/-- **Fewer nodes leave the constant term free**: whatever the values at
the nodes, each constant term continues to exactly one coefficient list
through them. -/
theorem existsUnique_tail {xs ys : List F} (hx : xs.Nodup) (h0 : 0 ∉ xs)
    (hlen : ys.length = xs.length) (s : F) :
    ∃! cs : List F, cs.length = xs.length
      ∧ xs.map (horner (s :: cs)) = ys := by
  have hnodup : ((0 : F) :: xs).Nodup := List.nodup_cons.mpr ⟨h0, hx⟩
  have hcons : (s :: ys).length = ((0 : F) :: xs).length := by simp [hlen]
  obtain ⟨ds, ⟨hds, hval⟩, huniq⟩ := existsUnique_coeffs hnodup hcons
  cases ds with
  | nil => simp at hds
  | cons d ds =>
    -- the node 0 fixes the constant term, the others are the observed ones
    simp only [List.map_cons, List.cons.injEq, horner_zero, List.headD_cons]
      at hval
    obtain ⟨rfl, hval⟩ := hval
    refine ⟨ds, ⟨by simpa using hds, hval⟩, ?_⟩
    rintro es ⟨hes, hval'⟩
    have heq := huniq (d :: es) ⟨by simp [hes], by simp [horner_zero, hval']⟩
    exact (List.cons.inj heq).2

/-! ## Recovery at zero -/

/-- The Lagrange basis at zero for the node `i`. -/
def basisAtZero (xs : List F) (i : ℕ) : F :=
  ∏ j ∈ (Finset.range xs.length).erase i,
    node xs j * (node xs j - node xs i)⁻¹

/-- The value at zero of the interpolation through `xs` and `ys`. -/
def recoverAtZero (xs ys : List F) : F :=
  ∑ i ∈ Finset.range xs.length, node ys i * basisAtZero xs i

theorem basisAtZero_eq (xs : List F) (i : ℕ) :
    basisAtZero xs i
      = (Lagrange.basis (Finset.range xs.length) (node xs) i).eval 0 := by
  rw [basisAtZero, Lagrange.basis, eval_prod]
  refine Finset.prod_congr rfl ?_
  intro j _
  rw [Lagrange.basisDivisor, ← neg_sub (node xs i), inv_neg]
  simp [mul_comm]

/-- **Recovery**: at least as many distinct nodes as coefficients give
back the constant term. -/
theorem recoverAtZero_horner {xs cs : List F} (hx : xs.Nodup)
    (hlen : cs.length ≤ xs.length) :
    recoverAtZero xs (xs.map (horner cs)) = cs.headD 0 := by
  have hdeg : (toPoly cs).degree < ((Finset.range xs.length).card : WithBot ℕ) := by
    rw [Finset.card_range]
    exact (degree_toPoly_lt cs).trans_le (by exact_mod_cast hlen)
  have hinterp := Lagrange.eq_interpolate (node_injOn hx) hdeg
  have hzero := congrArg (Polynomial.eval 0) hinterp
  rw [eval_toPoly, horner_zero, Lagrange.interpolate_apply,
    eval_finsetSum] at hzero
  rw [hzero, recoverAtZero]
  refine Finset.sum_congr rfl ?_
  intro i hi
  have hix : i < xs.length := by simpa using hi
  rw [eval_mul, eval_C, basisAtZero_eq, eval_toPoly]
  simp [node, hix]

theorem basisAtZero_ne_zero {xs : List F} (hx : xs.Nodup) (h0 : 0 ∉ xs) {i : ℕ}
    (hi : i < xs.length) : basisAtZero xs i ≠ 0 := by
  refine Finset.prod_ne_zero_iff.mpr fun j hj => ?_
  obtain ⟨hji, hj⟩ := Finset.mem_erase.mp hj
  have hjx : j < xs.length := Finset.mem_range.mp hj
  refine mul_ne_zero (fun hzero => h0 ?_) (inv_ne_zero (sub_ne_zero.mpr fun heq => hji ?_))
  · rw [← hzero, node, List.getD_eq_getElem _ _ hjx]
    exact List.getElem_mem hjx
  · exact node_injOn hx hj (Finset.mem_range.mpr hi) heq

/-- Another value at one node moves the recovered value by its multiple. -/
theorem recoverAtZero_set {xs ys : List F} {i : ℕ} (hi : i < xs.length)
    (hlen : ys.length = xs.length) (y : F) :
    recoverAtZero xs (ys.set i y)
      = recoverAtZero xs ys + (y - node ys i) * basisAtZero xs i := by
  have hiy : i < ys.length := hlen ▸ hi
  have hdiff : recoverAtZero xs (ys.set i y) - recoverAtZero xs ys
      = (y - node ys i) * basisAtZero xs i := by
    rw [recoverAtZero, recoverAtZero, ← Finset.sum_sub_distrib,
      Finset.sum_eq_single_of_mem i (Finset.mem_range.mpr hi)]
    · simp [node, hiy, sub_mul]
    · intro j _ hji
      simp [node, List.getElem?_set_ne (Ne.symm hji)]
  rw [← hdiff, add_sub_cancel]

/-! ## Sums and products as loops -/

theorem foldl_range_add {M : Type} [AddCommMonoid M] (f : ℕ → M) (n : ℕ) :
    (List.range n).foldl (fun acc i => acc + f i) 0
      = ∑ i ∈ Finset.range n, f i := by
  induction n with
  | zero => simp
  | succ n ih => simp [List.range_succ, Finset.sum_range_succ, ih]

/-- A product loop that skips one index. -/
theorem foldl_range_mul_skip {M : Type} [CommMonoid M] (f : ℕ → M) (i n : ℕ) :
    (List.range n).foldl (fun acc j => if i = j then acc else acc * f j) 1
      = ∏ j ∈ (Finset.range n).erase i, f j := by
  induction n with
  | zero => simp
  | succ n ih =>
    rw [List.range_succ, List.foldl_append, ih, Finset.range_add_one]
    by_cases hi : i = n
    · subst hi
      simp
    · rw [Finset.erase_insert_of_ne (Ne.symm hi), Finset.prod_insert (by simp)]
      simp [hi, mul_comm]

end Sharing
