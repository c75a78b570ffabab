import BleGateway.Ecc.CurveOrder

namespace BleGateway
open Words CoZ

variable {F : Type*} [Field F] [CharP F P256] {W : WeierstrassCurve.Affine F} {P Q : W.Point}
  {v w : Words 8 × Words 8} {z : F}

/-- The words are those of Jacobian coordinates of a point, over the denominator `z`. -/
def RepresentsScaled (v : Words 8 × Words 8) (P : W.Point) (z : F) : Prop := ∃ p, RepresentsPoint v p ∧ Scaled P z p

/-- The same for any point of the curve: the point at infinity has the denominator zero, and any coordinates. -/
def RepresentsJacobian (v : Words 8 × Words 8) (P : W.Point) (z : F) : Prop :=
  RepresentsScaled v P z ∨ z = 0 ∧ P = 0

theorem doubleJacobianDefault_of_zero {Z : Words 8} (denominator : Represents Z (0 : F)) :
    doubleJacobianDefault v.1 v.2 Z = (v, Z) := by
  rw [doubleJacobianDefault, if_pos (denominator.isZero.mpr rfl)]

variable [DecidableEq F] [W.IsShortNF]

/-- `double_jacobian_default` doubles the points of every curve with `a = -3`, and gives the denominator zero exactly
for those that are their own opposite, the point at infinity among them. -/
theorem doubleJacobianDefault_doubles (a₄ : W.a₄ = -3) {Z : Words 8} (point : RepresentsJacobian v P z)
    (denominator : Represents Z z) :
    ∃ z', Represents (doubleJacobianDefault v.1 v.2 Z).2 z' ∧ (z' = 0 ↔ P + P = 0) ∧
      (P + P ≠ 0 → RepresentsScaled (doubleJacobianDefault v.1 v.2 Z).1 (P + P) z') := by
  obtain ⟨p, words, scaled⟩ | ⟨rfl, rfl⟩ := point
  case inr =>
    -- the early return: the point at infinity is left as it is
    rw [doubleJacobianDefault_of_zero denominator]
    exact ⟨0, denominator, iff_of_true rfl (add_zero 0), fun nonzero => absurd (add_zero 0) nonzero⟩
  obtain ⟨double, next⟩ := doubleJacobianDefault_represents words denominator scaled.denominator
  have doubles : p.2 ≠ 0 → Scaled (P + P) (CoZ.double z p).2 (CoZ.double z p).1 :=
    scaled.double a₄ field_two_ne_zero
  have flat : p.2 = 0 ↔ P + P = 0 := by
    constructor
    · intro zero
      by_contra nonzero
      rw [← two_nsmul] at nonzero
      exact scaled.coordinates.y_ne nonzero (by rw [zero, zero_div])
    · intro zero
      by_contra nonzero
      exact (doubles nonzero).coordinates.nonzero zero
  refine ⟨_, next, ?_, fun nonzero => ⟨_, double, doubles (mt flat.mp nonzero)⟩⟩
  rw [← flat]
  exact mul_eq_zero_iff_right scaled.denominator

theorem curveG_scaled : RepresentsScaled (@low 8 curveG, @high 8 curveG) basePoint (1 : ZMod P256) := by
  have x : (@low 8 curveG).toNat < P256 := by decide +kernel
  have y : (@high 8 curveG).toNat < P256 := by decide +kernel
  exact ⟨G256, ⟨⟨x, curveG_congruent.x⟩, ⟨y, curveG_congruent.y⟩⟩, basePoint_coordinates.scaled⟩

theorem doubleJacobianDefault_doubles_base :
    ∃ z' : ZMod P256, Represents (doubleJacobianDefault (@low 8 curveG) (@high 8 curveG) (vliOne 7)).2 z' ∧
      (z' = 0 ↔ basePoint + basePoint = 0) ∧
      (basePoint + basePoint ≠ 0 →
        RepresentsScaled (doubleJacobianDefault (@low 8 curveG) (@high 8 curveG) (vliOne 7)).1 (basePoint + basePoint)
          z') :=
  doubleJacobianDefault_doubles rfl (Or.inl curveG_scaled) represents_one

/-- `XYcZ_initial_double` leaves the double and the point over one denominator. -/
theorem xyczInitialDouble_points (a₄ : W.a₄ = -3) {x y : F} {point : Words 8 × Words 8} {initial_Z : Option (Words 8)}
    (affine : Coordinates P x y) (congruent : Congruent point (x, y))
    (denominator : Represents (initial_Z.getD (vliOne 7)) z) (nonzero : z ≠ 0) (regular : 2 • P ≠ 0) :
    ∃ z', RepresentsScaled (xyczInitialDouble point initial_Z).1 (2 • P) z' ∧
      RepresentsScaled (xyczInitialDouble point initial_Z).2 P z' := by
  obtain ⟨double, single⟩ := xyczInitialDouble_represents congruent denominator nonzero
  obtain ⟨z', climbing⟩ := climbing_start affine a₄ field_two_ne_zero (affine.y_ne regular) nonzero
  have low := climbing.low
  rw [one_nsmul] at low
  exact ⟨z', ⟨_, double, climbing.high⟩, ⟨_, single, low⟩⟩

/-- `XYcZ_add` and `XYcZ_addC` are the group law for points that are neither equal nor opposite: the one gives the first
point and the sum, the other the difference and the sum, all over one denominator. -/
theorem xyczAdd_xyczAddC_points (first : RepresentsScaled v P z) (second : RepresentsScaled w Q z) (apart : P ≠ Q)
    (opposite : P ≠ -Q) :
    ∃ z', RepresentsScaled (xyczAdd v w).1 P z' ∧ RepresentsScaled (xyczAdd v w).2 (P + Q) z' ∧
      RepresentsScaled (xyczAddC v w).1 (P - Q) z' ∧ RepresentsScaled (xyczAddC v w).2 (P + Q) z' := by
  obtain ⟨p, pWords, onP⟩ := first
  obtain ⟨q, qWords, onQ⟩ := second
  have distinct : p.1 ≠ q.1 := mt (onP.x_eq onQ).mp (not_or.mpr ⟨apart, opposite⟩)
  obtain ⟨same, sum⟩ := xyczAdd_represents pWords qWords
  obtain ⟨difference, sum'⟩ := xyczAddC_represents pWords qWords
  obtain ⟨onDifference, onSum⟩ := onP.addC onQ distinct
  exact ⟨_, ⟨_, same, onP.add_first distinct⟩, ⟨_, sum, onP.add onQ distinct⟩, ⟨_, difference, onDifference⟩,
    ⟨_, sum', onSum⟩⟩

theorem xyczAdd_xyczAddC_points_base :
    ∃ z' : ZMod P256, RepresentsScaled (xyczAdd (xyczInitialDouble (@low 8 curveG, @high 8 curveG) none).1
      (xyczInitialDouble (@low 8 curveG, @high 8 curveG) none).2).2 (2 • basePoint + basePoint) z' := by
  have multiples : ∀ k, k • basePoint = 0 → N256 ∣ k := fun k =>
    (nsmul_eq_zero_iff basePoint_coordinates.nonzero).mp
  have regular : 2 • basePoint ≠ 0 := fun zero => absurd (multiples 2 zero) (by decide +kernel)
  have apart : 2 • basePoint ≠ basePoint := by
    intro same
    rw [two_nsmul, add_eq_left] at same
    exact basePoint_coordinates.nonzero same
  have opposite : 2 • basePoint ≠ -basePoint := by
    intro same
    rw [eq_neg_iff_add_eq_zero, ← succ_nsmul] at same
    exact absurd (multiples 3 same) (by decide +kernel)
  obtain ⟨_, double, single⟩ := xyczInitialDouble_points rfl basePoint_coordinates curveG_congruent represents_none
    one_ne_zero regular
  obtain ⟨z', _, sum, _⟩ := xyczAdd_xyczAddC_points double single apart opposite
  exact ⟨z', sum⟩

end BleGateway
