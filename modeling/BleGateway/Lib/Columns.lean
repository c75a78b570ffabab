import BleGateway.Lib.Words
import Mathlib.Algebra.Polynomial.Degree.Lemmas
import Mathlib.Algebra.Polynomial.Eval.Degree

namespace Words

open Polynomial in
/-- A product of two numbers of `n + 1` digits, column by column. -/
theorem mul_columns {R : Type*} [CommSemiring R] (a b : Nat → R) (base : R) (n : Nat)
    (aboveA : ∀ i, n < i → a i = 0) (aboveB : ∀ i, n < i → b i = 0) :
    (∑ i ∈ Finset.range (n + 1), a i * base ^ i) * (∑ i ∈ Finset.range (n + 1), b i * base ^ i) =
      ∑ k ∈ Finset.range (2 * n + 1), (∑ i ∈ Finset.range (k + 1), a i * b (k - i)) * base ^ k := by
  have polynomial : ∀ c : Nat → R, (∀ i, n < i → c i = 0) → ∃ f : R[X], (∀ i, f.coeff i = c i) ∧
      f.natDegree ≤ n ∧ f.eval base = ∑ i ∈ Finset.range (n + 1), c i * base ^ i := by
    intro c above
    have coeff : ∀ i, (∑ i ∈ Finset.range (n + 1), C (c i) * X ^ i : R[X]).coeff i = c i := by
      intro i
      simp only [finsetSum_coeff, coeff_C_mul_X_pow]
      rw [Finset.sum_ite_eq (Finset.range (n + 1)) i c]
      split
      · rfl
      · next outside => exact (above i (by simpa using outside)).symm
    refine ⟨_, coeff, ?_, ?_⟩
    · exact natDegree_le_iff_coeff_eq_zero.mpr fun i high => (coeff i).trans (above i high)
    · rw [eval_finsetSum]
      exact Finset.sum_congr rfl fun i _ => by simp
  obtain ⟨f, fCoeff, fDegree, fEval⟩ := polynomial a aboveA
  obtain ⟨g, gCoeff, gDegree, gEval⟩ := polynomial b aboveB
  have column : ∀ k, (f * g).coeff k = ∑ i ∈ Finset.range (k + 1), a i * b (k - i) := by
    intro k
    rw [coeff_mul, Finset.Nat.sum_antidiagonal_eq_sum_range_succ_mk]
    simp only [fCoeff, gCoeff]
  have degree : (f * g).natDegree < 2 * n + 1 := by
    have bound := @natDegree_mul_le _ _ f g
    omega
  rw [← fEval, ← gEval, ← eval_mul, eval_eq_sum_range' degree]
  simp only [column]

theorem valueOf_eq_sum (words : List UInt32) :
    valueOf words = ∑ i ∈ Finset.range words.length, (words.getD i 0).toNat * (2 ^ 32) ^ i := by
  induction words with
  | nil => rfl
  | cons word words ih =>
    rw [List.length_cons, Finset.sum_range_succ', valueOf_cons, ih, Finset.mul_sum]
    simp only [List.getD_cons_succ, List.getD_cons_zero, pow_zero, mul_one]
    rw [Nat.add_comm]
    congr 1
    refine Finset.sum_congr rfl fun i _ => ?_
    ring

/-- The sum of the products of the words that meet in one column. -/
def column {n : Nat} (left right : Words n) (k : Nat) : Nat :=
  ∑ i ∈ Finset.range (k + 1), (left.get i).toNat * (right.get (k - i)).toNat

theorem toNat_mul {n : Nat} (left right : Words (n + 1)) :
    left.toNat * right.toNat = ∑ k ∈ Finset.range (2 * n + 1), column left right k * (2 ^ 32) ^ k := by
  have columns := mul_columns (fun i => (left.get i).toNat) (fun i => (right.get i).toNat) (2 ^ 32) n
    (fun i above => congrArg UInt32.toNat (get_eq_zero left above))
    (fun i above => congrArg UInt32.toNat (get_eq_zero right above))
  rw [toNat, toNat, valueOf_eq_sum, valueOf_eq_sum, left.length_eq, right.length_eq]
  exact columns

end Words
