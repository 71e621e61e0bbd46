import Mathlib.LinearAlgebra.Lagrange

/-!
# Interpolation at zero and the dual of a Reed–Solomon code

Two identities over a field about the values of a polynomial at nodes `v i`, `i ∈ s`, that are
pairwise distinct:

* interpolation at zero: when the polynomial has degree below `#s`, its values weighted by
  `∏_{j ≠ i} v j (v j - v i)⁻¹` add up to its constant coefficient (`sum_eval_mul_prod_zero`);
* the dual code: when it has degree at most `#s - 2`, its values weighted by the nodal weights
  `∏_{j ≠ i} (v i - v j)⁻¹` add up to zero (`sum_nodalWeight_mul_eval`).

Both are read off Mathlib's `Lagrange.interpolate`. Programs compute these sums in loops over
`0, …, k - 1` that carry an accumulator; `foldl_range_add` and `foldl_range_mul_ite` say what such
loops compute (`foldl_add_eq_sum_map` for a loop over any list), and `ofCoeffs` is the polynomial of a list of coefficients.
-/

namespace Interpolation

open Finset Polynomial

section Loops

variable {M : Type*}

/-- A loop that adds a term for each entry of a list computes the sum of the terms. -/
theorem foldl_add_eq_sum_map {α : Type*} [AddCommMonoid M] (t : α → M) (l : List α) (a : M) :
    l.foldl (fun s x => s + t x) a = a + (l.map t).sum := by
  induction l generalizing a with
  | nil => simp
  | cons x l ih => rw [List.foldl_cons, ih, List.map_cons, List.sum_cons, add_assoc]

/-- A loop that adds a term at each index computes the sum of the terms. -/
theorem foldl_range_add [AddCommMonoid M] (t : ℕ → M) (a : M) (k : ℕ) :
    (List.range k).foldl (fun s i => s + t i) a = a + ∑ i ∈ range k, t i := by
  induction k with
  | zero => simp
  | succ k ih =>
    rw [List.range_succ, List.foldl_append, ih, List.foldl_cons, List.foldl_nil, sum_range_succ,
      add_assoc]

/-- A loop that multiplies by a factor at every index but `i` computes the product of the other
factors. -/
theorem foldl_range_mul_ite [CommMonoid M] (t : ℕ → M) (i : ℕ) (a : M) (k : ℕ) :
    (List.range k).foldl (fun s j => if j ≠ i then s * t j else s) a =
      a * ∏ j ∈ (range k).erase i, t j := by
  induction k with
  | zero => simp
  | succ k ih =>
    rw [List.range_succ, List.foldl_append, ih, range_add_one]
    have hk : k ∉ range k := notMem_range_self
    by_cases hki : k = i
    · -- the index skipped is the last one: the product is over the same indices
      subst hki
      simp [erase_insert hk]
    · have hk' : k ∉ (range k).erase i := fun h => hk (mem_of_mem_erase h)
      simp [hki, erase_insert_of_ne hki, prod_insert hk']
      ac_rfl

end Loops

section Coeffs

variable {R : Type*} [CommRing R]

/-- The polynomial whose coefficients are `t 0, …, t (k - 1)`. -/
noncomputable def ofCoeffs (t : ℕ → R) (k : ℕ) : R[X] :=
  ∑ i ∈ range k, C (t i) * X ^ i

@[simp] theorem eval_ofCoeffs (t : ℕ → R) (k : ℕ) (x : R) :
    (ofCoeffs t k).eval x = ∑ i ∈ range k, t i * x ^ i := by
  simp [ofCoeffs, eval_finsetSum]

theorem coeff_zero_ofCoeffs (t : ℕ → R) {k : ℕ} (hk : 0 < k) : (ofCoeffs t k).coeff 0 = t 0 := by
  simp [ofCoeffs, hk]

theorem natDegree_ofCoeffs_le (t : ℕ → R) (k : ℕ) : (ofCoeffs t k).natDegree ≤ k - 1 := by
  refine natDegree_sum_le_of_forall_le _ _ fun i hi => ?_
  have hik : i < k := mem_range.mp hi
  exact (natDegree_C_mul_X_pow_le _ _).trans (by omega)

/-- A sum of polynomials of degree at most `d` has degree at most `d`. -/
theorem natDegree_list_sum_le {l : List R[X]} {d : ℕ} (h : ∀ p ∈ l, p.natDegree ≤ d) :
    l.sum.natDegree ≤ d := by
  induction l with
  | nil => simp
  | cons p l ih =>
    rw [List.sum_cons]
    exact natDegree_add_le_of_degree_le (h p List.mem_cons_self)
      (ih fun q hq => h q (List.mem_cons_of_mem p hq))

end Coeffs

section Field

variable {F ι : Type*} [Field F] [DecidableEq ι] {s : Finset ι} {v : ι → F}

/-- The Lagrange basis polynomial of the node `i`, evaluated at zero. -/
theorem eval_zero_basis (i : ι) :
    (Lagrange.basis s v i).eval 0 = ∏ j ∈ s.erase i, v j * (v j - v i)⁻¹ := by
  rw [Lagrange.basis, eval_prod]
  refine prod_congr rfl fun j _ => ?_
  rw [Lagrange.basisDivisor, eval_mul, eval_C, eval_sub, eval_X, eval_C,
    show v j - v i = -(v i - v j) by ring, inv_neg]
  ring

/-- Interpolation at zero: the values at distinct nodes of a polynomial of degree below `#s`,
weighted by the Lagrange basis at zero, add up to its constant coefficient. -/
theorem sum_eval_mul_prod_zero (hvs : Set.InjOn v s) {p : F[X]} (hp : p.degree < #s) :
    ∑ i ∈ s, p.eval (v i) * ∏ j ∈ s.erase i, v j * (v j - v i)⁻¹ = p.coeff 0 := by
  have hinterp := Lagrange.eq_interpolate hvs hp
  rw [coeff_zero_eq_eval_zero]
  conv_rhs => rw [hinterp]
  rw [Lagrange.interpolate_apply, eval_finsetSum]
  refine sum_congr rfl fun i _ => ?_
  rw [eval_mul, eval_C, eval_zero_basis]

/-- The dual of a Reed–Solomon code: the values at distinct nodes of a polynomial of degree at
most `#s - 2`, weighted by the nodal weights, add up to zero. -/
theorem sum_nodalWeight_mul_eval (hvs : Set.InjOn v s) {p : F[X]} (hp : p.natDegree + 2 ≤ #s) :
    ∑ i ∈ s, Lagrange.nodalWeight s v i * p.eval (v i) = 0 := by
  have hdeg : p.degree < #s :=
    degree_le_natDegree.trans_lt (by exact_mod_cast (by omega : p.natDegree < #s))
  -- the sum is the coefficient of degree `#s - 1`, above the degree of `p`
  have hcoeff : p.coeff (#s - 1) = 0 := coeff_eq_zero_of_natDegree_lt (by omega)
  rw [Lagrange.coeff_eq_sum hvs hdeg] at hcoeff
  rw [← hcoeff]
  refine sum_congr rfl fun i _ => ?_
  rw [Lagrange.nodalWeight, prod_inv_distrib, div_eq_mul_inv, mul_comm]

end Field

end Interpolation
