import BleGateway.Lib.CoZLadder
import Mathlib.GroupTheory.Perm.Cycle.Type

namespace CoZ

section count

variable {F : Type*} [Field F] {W : WeierstrassCurve.Affine F}

theorem finite_points [Finite F] : Finite W.Point :=
  have : Finite (WithZero {xy : F × F // W.Nonsingular xy.1 xy.2}) :=
    inferInstanceAs (Finite (Option {xy : F × F // W.Nonsingular xy.1 xy.2}))
  Finite.of_equiv _ (WeierstrassCurve.Affine.nonsingularPointEquiv W).symm

/-- A point by its `x` and one bit for `y`. -/
def compress (sign : F → Bool) : W.Point → Option (F × Bool)
  | .zero => none
  | .some x y _ => some (x, sign y)

/-- A curve has at most two points for each `x`, and the one at infinity. -/
theorem card_points_le [Finite F] [W.IsShortNF] (sign : F → Bool) (tells : ∀ y, sign (-y) = sign y → -y = y) :
    Nat.card W.Point ≤ 2 * Nat.card F + 1 := by
  have injective : Function.Injective (@compress F _ W sign) := by
    intro P Q same
    match P, Q, same with
    | .zero, .zero, _ => rfl
    | .some x y h, .some x' y' h', same =>
      obtain ⟨rfl, signs⟩ := Prod.mk.inj (Option.some.inj same)
      have value : W.negY x y' = -y' := by simp [WeierstrassCurve.Affine.negY]
      have equal : y = y' := by
        rcases WeierstrassCurve.Affine.Y_eq_of_X_eq h.1 h'.1 rfl with equal | opposite
        · exact equal
        · rw [value] at opposite
          subst opposite
          exact tells y' signs
      subst equal
      rfl
  have bound := Nat.card_le_card_of_injective _ injective
  have bits : Nat.card Bool = 2 := by simp
  rw [Finite.card_option, Nat.card_prod, bits] at bound
  omega

end count

/-- A group of fewer than three times `n` elements that has one of prime order `n` and none of order two. -/
theorem card_eq_of_order {G : Type*} [AddGroup G] [Finite G] {g : G} {n : Nat} (prime : n.Prime)
    (order : n • g = 0) (nonzero : g ≠ 0) (few : Nat.card G < 3 * n) (none : ∀ h : G, 2 • h = 0 → h = 0) :
    Nat.card G = n := by
  have : Fact n.Prime := ⟨prime⟩
  have divides : n ∣ Nat.card G := by
    rw [← addOrderOf_eq_prime order nonzero]
    exact addOrderOf_dvd_natCard g
  obtain ⟨c, card⟩ := divides
  have positive : 0 < Nat.card G := Nat.card_pos
  have small : c < 3 := by
    rw [card, Nat.mul_comm] at few
    exact Nat.lt_of_mul_lt_mul_right few
  interval_cases c
  · omega
  · omega
  · exfalso
    obtain ⟨h, two⟩ := exists_prime_addOrderOf_dvd_card' 2 (Dvd.intro_left n card.symm)
    have zero := none h (by rw [← two]; exact addOrderOf_nsmul_eq_zero h)
    rw [zero, addOrderOf_zero] at two
    omega

/-- Two polynomials of degrees three and two whose combination is 1 have no common root; the hypotheses are the
coefficients of the combination. -/
theorem no_common_root {R : Type*} [CommRing R] [Nontrivial R] {b g0 g1 g2 u0 u1 v0 v1 v2 r : R}
    (constant : u0 * b + v0 * g0 = 1) (linear : u1 * b - 3 * u0 + v0 * g1 + v1 * g0 = 0)
    (square : v0 * g2 + v1 * g1 + v2 * g0 - 3 * u1 = 0) (cube : u0 + v1 * g2 + v2 * g1 = 0)
    (fourth : u1 + v2 * g2 = 0) (cubic : r ^ 3 - 3 * r + b = 0) : g0 + g1 * r + g2 * r ^ 2 ≠ 0 := by
  intro quadratic
  have contradiction : (0 : R) = 1 := by
    linear_combination constant + r * linear + r ^ 2 * square + r ^ 3 * cube + r ^ 4 * fourth -
      (u0 + u1 * r) * cubic - (v0 + v1 * r + v2 * r ^ 2) * quadratic
  exact zero_ne_one contradiction

section check

variable {F : Type*} [Field F] [DecidableEq F]

/-- Climbs by the bits over points with distinct `X`, and ends at two points with one `X`. -/
def climbsToOpposite : List Bool → F × F → F × F → Bool
  | [], p, q => p.1 == q.1
  | bit :: bits, p, q =>
    let (difference, sum) := addC (if bit then q else p) (if bit then p else q)
    let (total, double) := add sum difference
    p.1 != q.1 && sum.1 != difference.1 &&
      climbsToOpposite bits (if bit then total else double) (if bit then double else total)

/-- The number that the bits spell after `m`. -/
def climbed : Nat → List Bool → Nat
  | m, [] => m
  | m, bit :: bits => climbed (2 * m + bit.toNat) bits

variable {W : WeierstrassCurve.Affine F} [W.IsShortNF] {P : W.Point} {z : F}

theorem order_of_climbs {bits : List Bool} {m : Nat} {p q : F × F} (nonzero : P ≠ 0) (low : Scaled (m • P) z p)
    (high : Scaled ((m + 1) • P) z q) (climbs : climbsToOpposite bits p q = true) :
    (2 * climbed m bits + 1) • P = 0 := by
  induction bits generalizing m p q z with
  | nil =>
    rcases (low.x_eq high).mp (beq_iff_eq.mp climbs) with equal | opposite
    · rw [add_nsmul, one_nsmul, left_eq_add] at equal
      exact absurd equal nonzero
    · rw [eq_neg_iff_add_eq_zero, ← add_nsmul] at opposite
      rwa [climbed, two_mul]
  | cons bit bits ih =>
    simp only [climbsToOpposite, Bool.and_eq_true, bne_iff_ne, ne_eq] at climbs
    obtain ⟨⟨apart, apart'⟩, rest⟩ := climbs
    rw [climbed]
    cases bit
    · obtain ⟨z', sum, double⟩ := step_scaled low high apart apart'
      rw [← add_nsmul] at sum double
      refine ih (z := z') ?_ ?_ rest
      · simpa [two_mul] using double
      · simpa [two_mul, add_assoc] using sum
    · obtain ⟨z', sum, double⟩ := step_scaled high low (Ne.symm apart) apart'
      rw [← add_nsmul] at sum double
      refine ih (z := z') ?_ ?_ rest
      · simpa [two_mul, add_assoc, add_comm, add_left_comm] using sum
      · simpa [two_mul, add_assoc, add_comm, add_left_comm] using double

end check

end CoZ
