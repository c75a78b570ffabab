import BleGateway.Ecc.EccPointMult
import BleGateway.Lib.PointCount
import Mathlib.FieldTheory.Finite.Basic

namespace BleGateway
open Words Primality CoZ

/-- The curve of `curve_secp256r1`, whose coefficient `a` is -3. -/
def curve : WeierstrassCurve.Affine (ZMod P256) := curveMinusThree (curveB.toNat : ZMod P256)

instance curve_isShortNF : curve.IsShortNF := curveMinusThree_isShortNF _

def B256 : ZMod P256 := 41058363725152142129326129780047268409114441015993725554835256314039467401291

theorem curve_a₆ : curve.a₆ = B256 := by
  have value : (curveB.toNat : ZMod P256) = B256 := by
    rw [show curveB.toNat = 41058363725152142129326129780047268409114441015993725554835256314039467401291 by
      decide +kernel]
    rfl
  exact value

theorem curve_equation {x y : ZMod P256} : curve.Equation x y ↔ y ^ 2 = x ^ 3 - 3 * x + curve.a₆ := by
  rw [WeierstrassCurve.Affine.equation_iff]
  simp only [show curve.a₁ = 0 from rfl, show curve.a₂ = 0 from rfl, show curve.a₃ = 0 from rfl,
    show curve.a₄ = -3 from rfl]
  constructor <;> intro equation <;> linear_combination equation

theorem curve_discriminant : curve.Δ ≠ 0 := by
  have value : curve.Δ = -16 * (4 * (-3) ^ 3 + 27 * B256 ^ 2) := by
    rw [WeierstrassCurve.Δ_of_isShortNF, curve_a₆]
    rfl
  rw [value]
  decide +kernel

theorem curve_nonsingular {x y : ZMod P256} : curve.Nonsingular x y ↔ y ^ 2 = x ^ 3 - 3 * x + curve.a₆ := by
  rw [← curve_equation, WeierstrassCurve.Affine.equation_iff_nonsingular_of_Δ_ne_zero curve_discriminant]

/-- The base point and its double, in affine coordinates. -/
def G256 : ZMod P256 × ZMod P256 :=
  (48439561293906451759052585252797914202762949526041747995844080717082404635286,
    36134250956749795798585127919587881956611106672985015071877198253568414405109)

def D256 : ZMod P256 × ZMod P256 :=
  (56515219790691171413109057904011688695424810155802929973526481321309856242040,
    3377031843712258259223711451491452598088675519751548567112458094635497583569)

/-- The slope at the base point. -/
def slope256 : ZMod P256 := 73404963663004311880882944372748989162084677934852963787452504780932599885725

theorem curveG_congruent : Congruent (@low 8 curveG, @high 8 curveG) G256 := by
  have low : (@low 8 curveG).toNat =
      48439561293906451759052585252797914202762949526041747995844080717082404635286 := by decide +kernel
  have high : (@high 8 curveG).toNat =
      36134250956749795798585127919587881956611106672985015071877198253568414405109 := by decide +kernel
  constructor
  · rw [low]
    rfl
  · rw [high]
    rfl

theorem base_nonsingular : curve.Nonsingular G256.1 G256.2 := by
  rw [curve_nonsingular, curve_a₆]
  decide +kernel

def basePoint : curve.Point := .some _ _ base_nonsingular

theorem basePoint_coordinates : Coordinates basePoint G256.1 G256.2 := ⟨base_nonsingular, rfl⟩

theorem double_coordinates : Coordinates (2 • basePoint) D256.1 D256.2 := by
  have nonzero : 2 * G256.2 ≠ 0 := by decide +kernel
  have double := basePoint_coordinates.double nonzero
  have slope : (3 * G256.1 ^ 2 + curve.a₄) / (2 * G256.2) = slope256 := by
    rw [div_eq_iff nonzero, show curve.a₄ = -3 from rfl]
    decide +kernel
  rw [slope, ← two_nsmul] at double
  refine double.congr ?_ ?_
  · decide +kernel
  · decide +kernel

/-- The bits of a number below its highest. -/
def bitsBelow (k i : Nat) : List Bool := (List.range i).reverse.map k.testBit

set_option maxRecDepth 100000 in
/-- The base point vanishes when multiplied by the order. -/
theorem order_basePoint : N256 • basePoint = 0 := by
  have number : N256 = 2 * climbed 1 (bitsBelow ((N256 - 1) / 2) 254) + 1 := by decide +kernel
  have climbs : climbsToOpposite (bitsBelow ((N256 - 1) / 2) 254) G256 D256 = true := by decide +kernel
  have low : Scaled (1 • basePoint) 1 G256 := by
    rw [one_nsmul]
    exact basePoint_coordinates.scaled
  rw [number]
  exact order_of_climbs basePoint_coordinates.nonzero low double_coordinates.scaled climbs

/-- A residue of polynomials in `x` modulo `x ^ 3 - 3 * x + b`, by its three coefficients. -/
structure Residue where
  c0 : ZMod P256
  c1 : ZMod P256
  c2 : ZMod P256
deriving DecidableEq

namespace Residue

instance : One Residue := ⟨{ c0 := 1, c1 := 0, c2 := 0 }⟩

/-- The product, with `x ^ 3 = -a * x - b` and `x ^ 4 = -a * x ^ 2 - b * x`. -/
instance : Mul Residue where
  mul f g :=
    let x3 := f.c1 * g.c2 + f.c2 * g.c1
    let x4 := f.c2 * g.c2
    { c0 := f.c0 * g.c0 - B256 * x3
      c1 := f.c0 * g.c1 + f.c1 * g.c0 - curve.a₄ * x3 - B256 * x4
      c2 := f.c0 * g.c2 + f.c1 * g.c1 + f.c2 * g.c0 - curve.a₄ * x4 }

def eval (r : ZMod P256) (f : Residue) : ZMod P256 := f.c0 + f.c1 * r + f.c2 * r ^ 2

theorem eval_one (r : ZMod P256) : eval r 1 = 1 := by
  show (1 : ZMod P256) + 0 * r + 0 * r ^ 2 = 1
  ring

theorem eval_mul {r : ZMod P256} (root : r ^ 3 - 3 * r + B256 = 0) (f g : Residue) :
    eval r (f * g) = eval r f * eval r g := by
  show (f.c0 * g.c0 - B256 * (f.c1 * g.c2 + f.c2 * g.c1)) +
    (f.c0 * g.c1 + f.c1 * g.c0 - -3 * (f.c1 * g.c2 + f.c2 * g.c1) - B256 * (f.c2 * g.c2)) * r +
    (f.c0 * g.c2 + f.c1 * g.c1 + f.c2 * g.c0 - -3 * (f.c2 * g.c2)) * r ^ 2 = _
  simp only [eval]
  linear_combination (-(f.c1 * g.c2 + f.c2 * g.c1) - f.c2 * g.c2 * r) * root

end Residue

/-- What `x ^ p` is modulo `x ^ 3 - 3 * x + b`. -/
def frobenius : Residue where
  c0 := 66434390973925144466073271287821796038003695194169110494110089305650096453661
  c1 := 12402202686218762177567235911775779164004716598278868847786114277539554646092
  c2 := 24678849118215552148312087830792888746041224110560601850711771001608500700145

set_option maxRecDepth 100000 in
theorem frobenius_eq : power 256 { c0 := 0, c1 := 1, c2 := 0 : Residue } P256 = frobenius := by
  decide +kernel

/-- The factors with which `x ^ 3 - 3 * x + b` and `x ^ p - x` combine to 1. -/
def cubicFactor : ZMod P256 × ZMod P256 :=
  (107286402702237026811154678719514266289498743974321057492273529440068429825344,
    6389611969556882025875921584714237703390037729321797349080302270353162149340)

def frobeniusFactor : ZMod P256 × ZMod P256 × ZMod P256 :=
  (76626890310466861426869089647039036757962535851890885406097439786770458211455,
    74462945259064871768191128030512052509059297803194871526163573358218695456204,
    34768139465301476436978405170953382516735956999154666452188405812258086013549)

theorem combination_constant : cubicFactor.1 * B256 + frobeniusFactor.1 * frobenius.c0 = 1 := by decide +kernel

theorem combination_linear : cubicFactor.2 * B256 - 3 * cubicFactor.1 + frobeniusFactor.1 * (frobenius.c1 - 1) +
    frobeniusFactor.2.1 * frobenius.c0 = 0 := by decide +kernel

theorem combination_square : frobeniusFactor.1 * frobenius.c2 + frobeniusFactor.2.1 * (frobenius.c1 - 1) +
    frobeniusFactor.2.2 * frobenius.c0 - 3 * cubicFactor.2 = 0 := by decide +kernel

theorem combination_cube : cubicFactor.1 + frobeniusFactor.2.1 * frobenius.c2 +
    frobeniusFactor.2.2 * (frobenius.c1 - 1) = 0 := by decide +kernel

theorem combination_fourth : cubicFactor.2 + frobeniusFactor.2.2 * frobenius.c2 = 0 := by decide +kernel

/-- `x ^ p - x` has no root in common with `x ^ 3 - 3 * x + b`, so that the latter has none in the field. -/
theorem curve_no_root (r : ZMod P256) : r ^ 3 - 3 * r + B256 ≠ 0 := by
  intro root
  have power := power_map (Residue.eval_one r) (Residue.eval_mul root) 256 { c0 := 0, c1 := 1, c2 := 0 } P256
    (by decide +kernel)
  rw [frobenius_eq] at power
  have base : Residue.eval r { c0 := 0, c1 := 1, c2 := 0 } = r := by
    simp [Residue.eval]
  rw [base, ZMod.pow_card] at power
  have fixed : frobenius.c0 + (frobenius.c1 - 1) * r + frobenius.c2 * r ^ 2 = 0 := by
    simp only [Residue.eval] at power
    linear_combination power
  exact no_common_root combination_constant combination_linear combination_square combination_cube
    combination_fourth root fixed

theorem curve_no_two_torsion (P : curve.Point) (double : 2 • P = 0) : P = 0 := by
  by_contra nonzero
  match P, nonzero, double with
  | .zero, nonzero, _ => exact nonzero rfl
  | .some x y h, _, double =>
    have affine : Coordinates (W := curve) (.some x y h) x y := ⟨h, rfl⟩
    have y0 : y = 0 := by
      by_contra yNonzero
      have scaled := affine.double (mul_ne_zero field_two_ne_zero yNonzero)
      rw [← two_nsmul, double] at scaled
      exact scaled.nonzero rfl
    have equation := curve_nonsingular.mp h
    rw [y0, curve_a₆] at equation
    exact curve_no_root x (by linear_combination -equation)

theorem val_neg_eq {y : ZMod P256} (same : decide ((-y).val ≤ (- -y).val) = decide (y.val ≤ (-y).val)) : -y = y := by
  rw [neg_neg, decide_eq_decide] at same
  apply ZMod.val_injective P256
  omega

/-- The curve has as many points as the order given with it. -/
theorem card_curve : Nat.card curve.Point = N256 := by
  have : Finite curve.Point := finite_points
  have bound := @card_points_le _ _ curve _ _ (fun y => decide (y.val ≤ (-y).val)) fun y => val_neg_eq
  rw [Nat.card_zmod] at bound
  have few : 2 * P256 + 1 < 3 * N256 := by decide +kernel
  exact card_eq_of_order p256_n256_prime.2 order_basePoint basePoint_coordinates.nonzero (bound.trans_lt few)
    curve_no_two_torsion

/-- A multiple of a point vanishes only for multiples of the order. -/
theorem nsmul_eq_zero_iff {P : curve.Point} (nonzero : P ≠ 0) {k : Nat} : k • P = 0 ↔ N256 ∣ k := by
  have : Fact N256.Prime := ⟨p256_n256_prime.2⟩
  have vanish : N256 • P = 0 := by
    rw [← card_curve]
    exact card_nsmul_eq_zero'
  rw [← addOrderOf_eq_prime vanish nonzero, addOrderOf_dvd_iff_nsmul_eq_zero]

end BleGateway
