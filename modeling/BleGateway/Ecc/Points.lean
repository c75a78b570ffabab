import BleGateway.Ecc.Field
import BleGateway.Lib.CoZLadder

namespace BleGateway
open Words

/-- Half of `X1` modulo the prime, as `double_jacobian_default` computes it. -/
def halveX1 (X1 : Words 8) : Words 8 :=
  if uECCVliTestBit X1 0 then
    let (X1, l_carry) := uECCVliAdd X1 curveP
    let X1 := uECCVliRshift1 X1
    X1.set 7 (X1.get 7 ||| l_carry <<< 31)
  else uECCVliRshift1 X1

def doubleJacobianDefault (X1 Y1 Z1 : Words 8) : (Words 8 × Words 8) × Words 8 :=
  if uECCVliIsZero Z1 then ((X1, Y1), Z1)
  else
    let t4 := uECCVliModSquareFast Y1
    let t5 := uECCVliModMultFast X1 t4
    let t4 := uECCVliModSquareFast t4
    let Y1 := uECCVliModMultFast Y1 Z1
    let Z1 := uECCVliModSquareFast Z1
    let X1 := uECCVliModAdd X1 Z1 curveP
    let Z1 := uECCVliModAdd Z1 Z1 curveP
    let Z1 := uECCVliModSub X1 Z1 curveP
    let X1 := uECCVliModMultFast X1 Z1
    let Z1 := uECCVliModAdd X1 X1 curveP
    let X1 := uECCVliModAdd X1 Z1 curveP
    let X1 := halveX1 X1
    let Z1 := uECCVliModSquareFast X1
    let Z1 := uECCVliModSub Z1 t5 curveP
    let Z1 := uECCVliModSub Z1 t5 curveP
    let t5 := uECCVliModSub t5 Z1 curveP
    let X1 := uECCVliModMultFast X1 t5
    let t4 := uECCVliModSub X1 t4 curveP
    ((Z1, t4), Y1)

def applyZ (point : Words 8 × Words 8) (Z : Words 8) : Words 8 × Words 8 :=
  let t1 := uECCVliModSquareFast Z
  let X1 := uECCVliModMultFast point.1 t1
  let t1 := uECCVliModMultFast t1 Z
  (X1, uECCVliModMultFast point.2 t1)

/-- `XYcZ_initial_double`: the double of a point and the point. -/
def xyczInitialDouble (point : Words 8 × Words 8) (initial_Z : Option (Words 8)) :
    (Words 8 × Words 8) × (Words 8 × Words 8) :=
  let z := initial_Z.getD (vliOne 7)
  let point1 := applyZ point z
  let (point1, z) := doubleJacobianDefault point1.1 point1.2 z
  (point1, applyZ point z)

def xyczAdd (point1 point2 : Words 8 × Words 8) : (Words 8 × Words 8) × (Words 8 × Words 8) :=
  let (X1, Y1) := point1
  let (X2, Y2) := point2
  let t5 := uECCVliModSub X2 X1 curveP
  let t5 := uECCVliModSquareFast t5
  let X1 := uECCVliModMultFast X1 t5
  let X2 := uECCVliModMultFast X2 t5
  let Y2 := uECCVliModSub Y2 Y1 curveP
  let t5 := uECCVliModSquareFast Y2
  let t5 := uECCVliModSub t5 X1 curveP
  let t5 := uECCVliModSub t5 X2 curveP
  let X2 := uECCVliModSub X2 X1 curveP
  let Y1 := uECCVliModMultFast Y1 X2
  let X2 := uECCVliModSub X1 t5 curveP
  let Y2 := uECCVliModMultFast Y2 X2
  let Y2 := uECCVliModSub Y2 Y1 curveP
  ((X1, Y1), (t5, Y2))

def xyczAddC (point1 point2 : Words 8 × Words 8) : (Words 8 × Words 8) × (Words 8 × Words 8) :=
  let (X1, Y1) := point1
  let (X2, Y2) := point2
  let t5 := uECCVliModSub X2 X1 curveP
  let t5 := uECCVliModSquareFast t5
  let X1 := uECCVliModMultFast X1 t5
  let X2 := uECCVliModMultFast X2 t5
  let t5 := uECCVliModAdd Y2 Y1 curveP
  let Y2 := uECCVliModSub Y2 Y1 curveP
  let t6 := uECCVliModSub X2 X1 curveP
  let Y1 := uECCVliModMultFast Y1 t6
  let t6 := uECCVliModAdd X1 X2 curveP
  let X2 := uECCVliModSquareFast Y2
  let X2 := uECCVliModSub X2 t6 curveP
  let t7 := uECCVliModSub X1 X2 curveP
  let Y2 := uECCVliModMultFast Y2 t7
  let Y2 := uECCVliModSub Y2 Y1 curveP
  let t7 := uECCVliModSquareFast t5
  let t7 := uECCVliModSub t7 t6 curveP
  let t6 := uECCVliModSub t7 X1 curveP
  let t6 := uECCVliModMultFast t6 t5
  let Y1 := uECCVliModSub t6 Y1 curveP
  ((t7, Y1), (X2, Y2))

variable {F : Type*} [Field F]

/-- Coordinates of words for coordinates in the field. -/
structure RepresentsPoint (v : Words 8 × Words 8) (p : F × F) : Prop where
  x : Represents v.1 p.1
  y : Represents v.2 p.2

variable {v w : Words 8 × Words 8} {p q : F × F} {Z : Words 8} {x z : F}

/-- The coordinates stand for `p` whether or not they are reduced. -/
structure Congruent (v : Words 8 × Words 8) (p : F × F) : Prop where
  x : (v.1.toNat : F) = p.1
  y : (v.2.toNat : F) = p.2

theorem RepresentsPoint.congruent (point : RepresentsPoint v p) : Congruent v p := ⟨point.x.cast, point.y.cast⟩

variable [CharP F P256]

theorem xyczAdd_represents (first : RepresentsPoint v p) (second : RepresentsPoint w q) :
    RepresentsPoint (xyczAdd v w).1 (CoZ.add p q).1 ∧ RepresentsPoint (xyczAdd v w).2 (CoZ.add p q).2 := by
  have a := (second.x.sub first.x).square
  have b := first.x.mult a
  have c := second.x.mult a
  have dy := second.y.sub first.y
  have x := (dy.square.sub b).sub c
  have e := first.y.mult (c.sub b)
  have y := (dy.mult (b.sub x)).sub e
  exact ⟨⟨b, e⟩, ⟨x, y⟩⟩

theorem xyczAddC_represents (first : RepresentsPoint v p) (second : RepresentsPoint w q) :
    RepresentsPoint (xyczAddC v w).1 (CoZ.addC p q).1 ∧ RepresentsPoint (xyczAddC v w).2 (CoZ.addC p q).2 := by
  have a := (second.x.sub first.x).square
  have b := first.x.mult a
  have c := second.x.mult a
  have sum := second.y.add first.y
  have dy := second.y.sub first.y
  have e := first.y.mult (c.sub b)
  have x := dy.square.sub (b.add c)
  have y := (dy.mult (b.sub x)).sub e
  have x' := sum.square.sub (b.add c)
  have y' := ((x'.sub b).mult sum).sub e
  exact ⟨⟨x', y'⟩, ⟨x, y⟩⟩

theorem Represents.mult_congruent {v w : Words 8} {x y : F} (left : Represents v x) (right : (w.toNat : F) = y) :
    Represents (uECCVliModMultFast v w) (x * y) := by
  have product := @represents_mult F _ _ v w
  rwa [left.cast, right] at product

theorem applyZ_represents (point : Congruent v p) (denominator : Represents Z z) :
    RepresentsPoint (applyZ v Z) (CoZ.rescale z p) := by
  have first := (represents_mult v.1 (uECCVliModSquareFast Z)).congr
    (congrArg₂ (· * ·) point.x denominator.square.cast)
  have second := (represents_mult v.2 (uECCVliModMultFast (uECCVliModSquareFast Z) Z)).congr
    (congrArg₂ (· * ·) point.y (denominator.square.mult denominator).cast)
  exact ⟨first, second⟩

/-- Half of an odd number is half of its sum with the prime, the carry of the sum included. -/
theorem halveX1_value (X1 : Words 8) :
    2 * (halveX1 X1).toNat = if 2 ∣ X1.toNat then X1.toNat else X1.toNat + P256 := by
  have halved := uECCVliRshift1_toNat X1
  have sum := uECCVliAdd_value X1 curveP
  have carryBound := uECCVliAdd_carry_le X1 curveP
  have halvedSum := uECCVliRshift1_toNat (uECCVliAdd X1 curveP).1
  have sumBound := (uECCVliAdd X1 curveP).1.toNat_lt
  have odd : ¬2 ∣ P256 := by decide +kernel
  rw [curveP_toNat] at sum
  rw [halveX1, uECCVliTestBit_eq]
  by_cases isEven : 2 ∣ X1.toNat
  · have bit : X1.toNat.testBit 0 = false := by simp; omega
    rw [bit, if_pos isEven, if_neg (by decide), halved]
    omega
  · have bit : X1.toNat.testBit 0 = true := by simp; omega
    rw [bit, if_neg isEven, if_pos rfl]
    simp only
    interval_cases carry : (uECCVliAdd X1 curveP).2.toNat
    · have clear : (uECCVliAdd X1 curveP).2 = 0 := UInt32.toNat_inj.mp carry
      have written := set_toNat (uECCVliRshift1 (uECCVliAdd X1 curveP).1) (by decide : 7 < 8)
        ((uECCVliRshift1 (uECCVliAdd X1 curveP).1).get 7)
      rw [clear, UInt32.zero_shiftLeft, UInt32.or_zero]
      omega
    · have set : (uECCVliAdd X1 curveP).2 = 1 := UInt32.toNat_inj.mp carry
      have highest : (1 : UInt32) <<< 31 = 0x80000000 := by decide
      have top := @set_highest_bit 7 (uECCVliRshift1 (uECCVliAdd X1 curveP).1) (by omega)
      have even : 2 ∣ (uECCVliAdd X1 curveP).1.toNat := by omega
      have power : 2 * (2 ^ 31 * 2 ^ (32 * 7)) = 2 ^ (32 * 8) * 1 := by norm_num
      rw [set, highest]
      refine (congrArg (2 * ·) top).trans ?_
      rw [halvedSum, Nat.mul_add, Nat.mul_div_cancel' even, power, sum]

theorem field_two_ne_zero : (2 : F) ≠ 0 := by
  have cast : ((2 : Nat) : F) = 2 := Nat.cast_ofNat
  rw [← cast, ne_eq, CharP.cast_eq_zero_iff F P256]
  decide +kernel

theorem Represents.half {v : Words 8} (represents : Represents v x) : Represents (halveX1 v) (x / 2) := by
  have value := halveX1_value v
  have reduced := represents.reduced
  have double : (2 : F) * ((halveX1 v).toNat : F) = x := by
    have cast : ((2 : Nat) : F) = 2 := Nat.cast_ofNat
    rw [← represents.cast, ← cast, ← Nat.cast_mul, value]
    split
    · rfl
    · rw [Nat.cast_add, CharP.cast_eq_zero F P256, add_zero]
  refine ⟨?_, eq_div_of_mul_eq field_two_ne_zero ((mul_comm _ _).trans double)⟩
  split at value <;> omega

theorem doubleJacobianDefault_represents (point : RepresentsPoint v p) (denominator : Represents Z z)
    (nonzero : z ≠ 0) :
    RepresentsPoint (doubleJacobianDefault v.1 v.2 Z).1 (CoZ.double z p).1 ∧
      Represents (doubleJacobianDefault v.1 v.2 Z).2 (CoZ.double z p).2 := by
  have isNonzero := mt denominator.isZero.mp nonzero
  have ySquare := point.y.square
  have a := point.x.mult ySquare
  have zSquare := denominator.square
  have sum := point.x.add zSquare
  have product := sum.mult (sum.sub (zSquare.add zSquare))
  have b := (product.add (product.add product)).half.congr
    (show _ = 3 * (p.1 ^ 2 - z ^ 4) / 2 by ring)
  have x := (b.square.sub a).sub a
  have y := ((b.mult (a.sub x)).sub ySquare.square).congr
    (show _ = 3 * (p.1 ^ 2 - z ^ 4) / 2 *
        (p.1 * p.2 ^ 2 - ((3 * (p.1 ^ 2 - z ^ 4) / 2) ^ 2 - p.1 * p.2 ^ 2 - p.1 * p.2 ^ 2)) - p.2 ^ 4 by ring)
  rw [doubleJacobianDefault, if_neg isNonzero]
  exact ⟨⟨x, y⟩, point.y.mult denominator⟩

end BleGateway
