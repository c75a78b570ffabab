import Mathlib.AlgebraicGeometry.EllipticCurve.Affine.Point
import Mathlib.AlgebraicGeometry.EllipticCurve.NormalForms
import Mathlib.Tactic.FieldSimp
import Mathlib.Tactic.LinearCombination

namespace CoZ

section formulas

variable {F : Type*} [CommRing F]

/-- The Jacobian coordinates of the point over a denominator `z` times as large. -/
def rescale (z : F) (p : F × F) : F × F := (p.1 * z ^ 2, p.2 * (z ^ 2 * z))

/-- The sum of two points over one denominator, after the first point over that of the sum. -/
def add (p q : F × F) : (F × F) × (F × F) :=
  let b := p.1 * (q.1 - p.1) ^ 2
  let c := q.1 * (q.1 - p.1) ^ 2
  let x := (q.2 - p.2) ^ 2 - b - c
  ((b, p.2 * (c - b)), (x, (q.2 - p.2) * (b - x) - p.2 * (c - b)))

/-- The difference and the sum of two points over one denominator. -/
def addC (p q : F × F) : (F × F) × (F × F) :=
  let b := p.1 * (q.1 - p.1) ^ 2
  let c := q.1 * (q.1 - p.1) ^ 2
  let x := (q.2 - p.2) ^ 2 - (b + c)
  let x' := (q.2 + p.2) ^ 2 - (b + c)
  ((x', (x' - b) * (q.2 + p.2) - p.2 * (c - b)), (x, (q.2 - p.2) * (b - x) - p.2 * (c - b)))

theorem addC_first (p q : F × F) : (addC p q).1 = (add p (q.1, -q.2)).2 := by
  simp only [addC, add, Prod.mk.injEq]
  constructor <;> ring

theorem addC_second (p q : F × F) : (addC p q).2 = (add p q).2 := by
  simp only [addC, add, Prod.mk.injEq]
  constructor <;> ring

/-- Both points on the cusp `y ^ 2 = x ^ 3`, one of them at its singular point: what is left once the formulas
have been used on equal or opposite points. -/
def Collapsed (p q : F × F) : Prop := p = 0 ∧ q.2 ^ 2 = q.1 ^ 3 ∨ q = 0 ∧ p.2 ^ 2 = p.1 ^ 3

theorem Collapsed.symm {p q : F × F} (collapsed : Collapsed p q) : Collapsed q p := Or.symm collapsed

theorem Collapsed.add {p q : F × F} (collapsed : Collapsed p q) :
    (CoZ.add p q).2 = 0 ∧ (CoZ.add p q).1.2 ^ 2 = (CoZ.add p q).1.1 ^ 3 := by
  obtain ⟨px, py⟩ := p
  obtain ⟨qx, qy⟩ := q
  rcases collapsed with ⟨zero, cusp⟩ | ⟨zero, cusp⟩
  · obtain ⟨rfl, rfl⟩ := Prod.mk.inj zero
    simp only at cusp
    simp only [CoZ.add, Prod.mk_eq_zero]
    refine ⟨⟨?_, ?_⟩, ?_⟩
    · linear_combination cusp
    · linear_combination -qy * cusp
    · ring
  · obtain ⟨rfl, rfl⟩ := Prod.mk.inj zero
    simp only at cusp
    simp only [CoZ.add, Prod.mk_eq_zero]
    refine ⟨⟨?_, ?_⟩, ?_⟩
    · linear_combination cusp
    · linear_combination py * cusp
    · linear_combination px ^ 6 * cusp

theorem Collapsed.addC {p q : F × F} (collapsed : Collapsed p q) : CoZ.addC p q = 0 := by
  have sum := collapsed.add.1
  have opposite : Collapsed p (q.1, -q.2) := by
    rcases collapsed with ⟨zero, cusp⟩ | ⟨zero, cusp⟩
    · exact Or.inl ⟨zero, by simpa using cusp⟩
    · exact Or.inr ⟨by simp [zero], cusp⟩
  exact Prod.ext ((addC_first p q).trans opposite.add.1) ((addC_second p q).trans sum)

/-- The formulas collapse two points with one `X`. -/
theorem add_collapsed {p q : F × F} (same : p.1 = q.1) : Collapsed (add p q).1 (add p q).2 := by
  refine Or.inl ⟨?_, ?_⟩
  · simp [add, same]
  · simp only [add, same]
    ring

theorem addC_collapsed {p q : F × F} (same : p.1 = q.1) (square : p.2 ^ 2 = q.2 ^ 2) [NoZeroDivisors F] :
    Collapsed (addC p q).1 (addC p q).2 := by
  rcases sq_eq_sq_iff_eq_or_eq_neg.mp square with equal | opposite
  · refine Or.inr ⟨?_, ?_⟩
    · simp [addC, same, equal]
    · simp only [addC, same]
      ring
  · refine Or.inl ⟨?_, ?_⟩
    · simp [addC, same, opposite]
    · simp only [addC, same]
      ring

end formulas

section points

variable {F : Type*} [Field F]

/-- The double of a point in Jacobian coordinates, on a curve with `a = -3`, and its denominator. -/
def double (z : F) (p : F × F) : (F × F) × F :=
  let a := p.1 * p.2 ^ 2
  let b := 3 * (p.1 ^ 2 - z ^ 4) / 2
  let x := b ^ 2 - a - a
  ((x, b * (a - x) - p.2 ^ 4), p.2 * z)

/-- The curve `y ^ 2 = x ^ 3 - 3 * x + b`. -/
def curveMinusThree (b : F) : WeierstrassCurve.Affine F where
  a₁ := 0
  a₂ := 0
  a₃ := 0
  a₄ := -3
  a₆ := b

instance curveMinusThree_isShortNF (b : F) : (curveMinusThree b).IsShortNF := ⟨rfl, rfl, rfl⟩

/-- The curve with `a = -3` on which a pair of coordinates lies. -/
def curveThrough (x y : F) : WeierstrassCurve.Affine F := curveMinusThree (y ^ 2 - x ^ 3 + 3 * x)

instance curveThrough_isShortNF (x y : F) : (curveThrough x y).IsShortNF := curveMinusThree_isShortNF _

/-- The double of an affine point and the point itself, both over one denominator. -/
def initialDouble (z : F) (p : F × F) : (F × F) × (F × F) :=
  let (d, z') := CoZ.double z (rescale z p)
  (d, rescale z' p)

variable {W : WeierstrassCurve.Affine F} {P Q : W.Point} {x y z : F}

/-- The affine coordinates of a point that is not at infinity. -/
def Coordinates (P : W.Point) (x y : F) : Prop := ∃ h : W.Nonsingular x y, P = .some x y h

/-- The Jacobian coordinates of a point over the denominator `z`. -/
structure Scaled (P : W.Point) (z : F) (p : F × F) : Prop where
  denominator : z ≠ 0
  coordinates : Coordinates P (p.1 / z ^ 2) (p.2 / z ^ 3)

theorem Coordinates.congr {x' y' : F} (coordinates : Coordinates P x y) (sameX : x = x') (sameY : y = y') :
    Coordinates P x' y' := by
  subst sameX sameY
  exact coordinates

theorem Coordinates.nonzero (coordinates : Coordinates P x y) : P ≠ 0 := by
  obtain ⟨h, rfl⟩ := coordinates
  exact WeierstrassCurve.Affine.Point.some_ne_zero h

theorem Coordinates.unique {x' y' : F} (first : Coordinates P x y) (second : Coordinates P x' y') :
    x = x' ∧ y = y' := by
  obtain ⟨h, rfl⟩ := first
  obtain ⟨h', same⟩ := second
  exact (WeierstrassCurve.Affine.Point.some.injEq ..).mp same

theorem Coordinates.x_eq {x' y' : F} (first : Coordinates P x y) (second : Coordinates Q x' y') :
    x = x' ↔ P = Q ∨ P = -Q := by
  obtain ⟨h, rfl⟩ := first
  obtain ⟨h', rfl⟩ := second
  exact WeierstrassCurve.Affine.Point.X_eq_iff

/-- Two points over one denominator have equal `X` only if they are equal or opposite. -/
theorem Scaled.x_eq {p q : F × F} (first : Scaled P z p) (second : Scaled Q z q) : p.1 = q.1 ↔ P = Q ∨ P = -Q := by
  have square : z ^ 2 ≠ 0 := pow_ne_zero 2 first.denominator
  rw [← first.coordinates.x_eq second.coordinates, div_left_inj' square]

theorem Scaled.rescale {p : F × F} (scaled : Scaled P z p) {factor : F} (nonzero : factor ≠ 0) :
    Scaled P (z * factor) (rescale factor p) := by
  have denominator := scaled.denominator
  refine ⟨mul_ne_zero denominator nonzero, scaled.coordinates.congr ?_ ?_⟩
  · simp only [CoZ.rescale]
    field_simp
  · simp only [CoZ.rescale]
    field_simp

theorem Scaled.add_first {p q : F × F} (first : Scaled P z p) (apart : p.1 ≠ q.1) :
    Scaled P (z * (q.1 - p.1)) (add p q).1 := by
  have denominator := first.denominator
  have difference : q.1 - p.1 ≠ 0 := sub_ne_zero.mpr apart.symm
  refine ⟨mul_ne_zero denominator difference, first.coordinates.congr ?_ ?_⟩
  · simp only [CoZ.add]
    field_simp
  · simp only [CoZ.add]
    field_simp

variable [W.IsShortNF]

theorem Coordinates.neg (coordinates : Coordinates P x y) : Coordinates (-P) x (-y) := by
  obtain ⟨h, rfl⟩ := coordinates
  have value : W.negY x y = -y := by simp [WeierstrassCurve.Affine.negY]
  exact Coordinates.congr ⟨_, WeierstrassCurve.Affine.Point.neg_some h⟩ rfl value

theorem Scaled.neg {p : F × F} (scaled : Scaled P z p) : Scaled (-P) z (p.1, -p.2) :=
  ⟨scaled.denominator, scaled.coordinates.neg.congr rfl (neg_div ..).symm⟩

variable [DecidableEq F]

theorem Coordinates.add {x' y' : F} (first : Coordinates P x y) (second : Coordinates Q x' y') (apart : x ≠ x') :
    Coordinates (P + Q) (((y' - y) / (x' - x)) ^ 2 - x - x')
      ((y' - y) / (x' - x) * (x - (((y' - y) / (x' - x)) ^ 2 - x - x')) - y) := by
  obtain ⟨h, rfl⟩ := first
  obtain ⟨h', rfl⟩ := second
  have slope : W.slope x x' y y' = (y' - y) / (x' - x) := by
    rw [WeierstrassCurve.Affine.slope_of_X_ne apart, ← neg_sub y' y, ← neg_sub x' x, neg_div_neg_eq]
  refine Coordinates.congr ⟨_, WeierstrassCurve.Affine.Point.add_of_X_ne apart⟩ ?_ ?_
  · simp [WeierstrassCurve.Affine.addX, slope]
  · simp only [WeierstrassCurve.Affine.addY, WeierstrassCurve.Affine.negAddY, WeierstrassCurve.Affine.negY,
      WeierstrassCurve.Affine.addX, slope, W.a₁_of_isShortNF, W.a₂_of_isShortNF, W.a₃_of_isShortNF]
    ring

theorem Coordinates.double (coordinates : Coordinates P x y) (nonzero : 2 * y ≠ 0) :
    Coordinates (P + P) (((3 * x ^ 2 + W.a₄) / (2 * y)) ^ 2 - x - x)
      ((3 * x ^ 2 + W.a₄) / (2 * y) * (x - (((3 * x ^ 2 + W.a₄) / (2 * y)) ^ 2 - x - x)) - y) := by
  obtain ⟨h, rfl⟩ := coordinates
  have negY : W.negY x y = -y := by simp [WeierstrassCurve.Affine.negY]
  have apart : y ≠ W.negY x y := by
    rw [negY]
    intro same
    exact nonzero (by linear_combination same)
  have slope : W.slope x x y y = (3 * x ^ 2 + W.a₄) / (2 * y) := by
    rw [WeierstrassCurve.Affine.slope_of_Y_ne rfl apart, negY, W.a₁_of_isShortNF, W.a₂_of_isShortNF]
    ring
  refine Coordinates.congr ⟨_, WeierstrassCurve.Affine.Point.add_self_of_Y_ne apart⟩ ?_ ?_
  · simp [WeierstrassCurve.Affine.addX, slope]
  · simp only [WeierstrassCurve.Affine.addY, WeierstrassCurve.Affine.negAddY, WeierstrassCurve.Affine.negY,
      WeierstrassCurve.Affine.addX, slope, W.a₁_of_isShortNF, W.a₂_of_isShortNF, W.a₃_of_isShortNF]
    ring

theorem Scaled.add {p q : F × F} (first : Scaled P z p) (second : Scaled Q z q) (apart : p.1 ≠ q.1) :
    Scaled (P + Q) (z * (q.1 - p.1)) (CoZ.add p q).2 := by
  have denominator := first.denominator
  have difference : q.1 - p.1 ≠ 0 := sub_ne_zero.mpr apart.symm
  have square : z ^ 2 ≠ 0 := pow_ne_zero 2 denominator
  have sum := first.coordinates.add second.coordinates (fun same => apart ((div_left_inj' square).mp same))
  have slope : (q.2 / z ^ 3 - p.2 / z ^ 3) / (q.1 / z ^ 2 - p.1 / z ^ 2) = (q.2 - p.2) / (z * (q.1 - p.1)) := by
    rw [← sub_div, ← sub_div]
    field_simp
  rw [slope] at sum
  refine ⟨mul_ne_zero denominator difference, sum.congr ?_ ?_⟩
  · simp only [CoZ.add]
    field_simp
  · simp only [CoZ.add]
    field_simp

/-- The difference and the sum, over the denominator of the sum. -/
theorem Scaled.addC {p q : F × F} (first : Scaled P z p) (second : Scaled Q z q) (apart : p.1 ≠ q.1) :
    Scaled (P - Q) (z * (q.1 - p.1)) (CoZ.addC p q).1 ∧ Scaled (P + Q) (z * (q.1 - p.1)) (CoZ.addC p q).2 := by
  rw [addC_first, addC_second, sub_eq_add_neg]
  exact ⟨first.add second.neg apart, first.add second apart⟩

theorem Scaled.double {p : F × F} (scaled : Scaled P z p) (curve : W.a₄ = -3) (two : (2 : F) ≠ 0) (nonzero : p.2 ≠ 0) :
    Scaled (P + P) (CoZ.double z p).2 (CoZ.double z p).1 := by
  have denominator := scaled.denominator
  have double := scaled.coordinates.double (mul_ne_zero two (div_ne_zero nonzero (pow_ne_zero 3 denominator)))
  have slope : (3 * (p.1 / z ^ 2) ^ 2 + W.a₄) / (2 * (p.2 / z ^ 3)) = 3 * (p.1 ^ 2 - z ^ 4) / 2 / (p.2 * z) := by
    rw [curve]
    field_simp
    ring
  rw [slope] at double
  refine ⟨mul_ne_zero nonzero denominator, double.congr ?_ ?_⟩
  · simp only [CoZ.double]
    field_simp
  · simp only [CoZ.double]
    field_simp

end points

end CoZ
