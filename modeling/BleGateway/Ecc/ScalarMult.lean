import BleGateway.Ecc.CurveOrder

namespace BleGateway
open Words CoZ

/-- The bits of the order, `num_n_bits` of the curve. -/
def curveNumNBits : Nat := 256

/-- `regularize_k`: the carry, `k0` and `k1`. -/
def regularizeK (k : Words 8) : Bool × Words 8 × Words 8 :=
  let num_n_words := (curveNumNBits + 31) / 32
  let (k0, added) := uECCVliAdd k curveN
  let carry := added != 0 || (decide (curveNumNBits < num_n_words * 4 * 8) && uECCVliTestBit k0 curveNumNBits)
  let (k1, _) := uECCVliAdd k0 curveN
  (carry, k0, k1)

/-- The array `p2[!carry]` with which `EccPoint_mult` is called. -/
def regularScalar (k : Words 8) : Words 8 :=
  let (carry, k0, k1) := regularizeK k
  let p2 := fun index => if index then k1 else k0
  p2 !carry

theorem n256_bounds : 2 ^ 256 < N256 + 2 ^ 224 ∧ N256 + 2 ^ 223 < 2 ^ 256 ∧ ¬2 ∣ N256 := by decide +kernel

/-- A scalar with the multiple of the order that gives it 257 bits. -/
def regularized (k : Nat) : Nat := if 2 ^ 256 ≤ k + N256 then k + N256 else k + 2 * N256

theorem regularized_bounds {k : Nat} (small : k < 2 ^ 256) : 2 ^ 256 ≤ regularized k ∧ regularized k < 2 ^ 257 := by
  obtain ⟨low, high, _⟩ := n256_bounds
  rw [regularized]
  split <;> omega

/-- For 256 bits the second disjunct of the carry is never looked at. -/
theorem regularizeK_carry (k : Words 8) : (regularizeK k).1 = true ↔ (uECCVliAdd k curveN).2 ≠ 0 := by
  have width : ¬curveNumNBits < (curveNumNBits + 31) / 32 * 4 * 8 := by decide
  simp [regularizeK, width]

theorem regularScalar_eq (k : Words 8) :
    regularScalar k = if (uECCVliAdd k curveN).2 = 0 then (uECCVliAdd (uECCVliAdd k curveN).1 curveN).1
      else (uECCVliAdd k curveN).1 := by
  have carried := regularizeK_carry k
  by_cases carry : (uECCVliAdd k curveN).2 = 0
  · have cleared : (regularizeK k).1 = false := Bool.eq_false_iff.mpr fun set => carried.mp set carry
    simp only [regularScalar, cleared, if_pos carry, Bool.not_false, if_true]
    rfl
  · simp only [regularScalar, carried.mpr carry, if_neg carry, Bool.not_true, Bool.false_eq_true, if_false]
    rfl

/-- The highest bit of the regularized scalar is the one the ladder starts from. -/
theorem regularScalar_toNat (k : Words 8) :
    2 ^ 256 + (regularScalar k).toNat = regularized k.toNat := by
  obtain ⟨low, high, _⟩ := n256_bounds
  have first := uECCVliAdd_value k curveN
  have firstCarry := uECCVliAdd_carry_le k curveN
  have second := uECCVliAdd_value (uECCVliAdd k curveN).1 curveN
  have secondCarry := uECCVliAdd_carry_le (uECCVliAdd k curveN).1 curveN
  have bound := k.toNat_lt
  have firstBound := (uECCVliAdd k curveN).1.toNat_lt
  have secondBound := (uECCVliAdd (uECCVliAdd k curveN).1 curveN).1.toNat_lt
  rw [curveN_toNat] at first second
  have isZero : (uECCVliAdd k curveN).2 = 0 ↔ (uECCVliAdd k curveN).2.toNat = 0 := UInt32.toNat_inj.symm
  rw [regularScalar_eq, regularized]
  by_cases carry : (uECCVliAdd k curveN).2.toNat = 0
  · rw [if_pos (isZero.mpr carry), if_neg (by omega)]
    omega
  · rw [if_neg (mt isZero.mp carry), if_pos (by omega)]
    omega

/-- A regularized scalar has its highest bit at one fixed place, and differs from the scalar by the order or its
double, as the carry tells. -/
theorem regularizeK_regularizes (k : Words 8) :
    ((regularizeK k).1 = true ↔ 2 ^ 256 ≤ k.toNat + N256) ∧
      2 ^ 256 + (regularScalar k).toNat = k.toNat + (if (regularizeK k).1 then 1 else 2) * N256 := by
  have value := regularScalar_toNat k
  have sum := uECCVliAdd_value k curveN
  have bound := (uECCVliAdd k curveN).1.toNat_lt
  have carryBound := uECCVliAdd_carry_le k curveN
  rw [curveN_toNat] at sum
  have carry : (regularizeK k).1 = true ↔ 2 ^ 256 ≤ k.toNat + N256 := by
    rw [regularizeK_carry, ne_eq, ← UInt32.toNat_inj, UInt32.toNat_zero]
    omega
  refine ⟨carry, ?_⟩
  rw [value, regularized]
  by_cases carried : 2 ^ 256 ≤ k.toNat + N256
  · rw [if_pos carried, if_pos (carry.mpr carried), Nat.one_mul]
  · rw [if_neg carried, if_neg (mt carry.mp carried)]

/-- The scalars for which the ladder meets equal or opposite points. -/
def Exceptional (k : Nat) : Prop := k ≤ 1 ∨ N256 ≤ k + 2 ∧ k ≤ N256 + 1

instance (k : Nat) : Decidable (Exceptional k) := inferInstanceAs (Decidable (_ ∨ _))

theorem regularized_exceptional {k : Nat} (small : k < 2 ^ 256) :
    2 * N256 ≤ regularized k + 2 ∧ regularized k < 2 * N256 + 2 ↔ Exceptional k := by
  obtain ⟨low, high, _⟩ := n256_bounds
  rw [regularized, Exceptional]
  split <;> omega

theorem Exceptional.of_dvd {k : Nat} (small : k < 2 ^ 256) (multiple : N256 ∣ k) : Exceptional k := by
  obtain ⟨low, _, _⟩ := n256_bounds
  obtain ⟨c, rfl⟩ := multiple
  have few : c < 2 := by
    by_contra many
    have large := Nat.mul_le_mul_left N256 (Nat.not_lt.mp many)
    omega
  rw [Exceptional]
  interval_cases c <;> omega

/-- Below three times the order its multiples are 0, the order and its double. -/
theorem dvd_iff_of_lt {m : Nat} (bound : m < 3 * N256) : N256 ∣ m ↔ m = 0 ∨ m = N256 ∨ m = 2 * N256 := by
  constructor
  · rintro ⟨c, rfl⟩
    have few : c < 3 := by
      by_contra many
      have large := Nat.mul_le_mul_left N256 (Nat.not_lt.mp many)
      omega
    interval_cases c <;> omega
  · rintro (rfl | rfl | rfl)
    · exact Nat.dvd_zero _
    · exact Nat.dvd_refl _
    · exact Nat.dvd_mul_left _ _

theorem regular_iff {P : curve.Point} (nonzero : P ≠ 0) (m : Nat) :
    Regular P m ↔ ¬N256 ∣ 2 * m ∧ ¬N256 ∣ 2 * m + 1 ∧ ¬N256 ∣ 2 * m + 2 := by
  have divides := fun k => not_congr (@nsmul_eq_zero_iff P nonzero k)
  rw [← divides, ← divides, ← divides]
  exact ⟨fun ⟨low, sum, high⟩ => ⟨low, sum, high⟩, fun ⟨low, sum, high⟩ => ⟨low, sum, high⟩⟩

/-- Some prefix of a scalar of 257 bits meets equal or opposite points exactly if the scalar is within two of the
double of the order: such a prefix is its half or its quarter. -/
theorem irregular_iff {P : curve.Point} (nonzero : P ≠ 0) {k : Nat} (low : 2 ^ 256 ≤ k) (high : k < 2 ^ 257) :
    (∃ j, 1 ≤ j ∧ j ≤ 256 ∧ ¬Regular P (k / 2 ^ j)) ↔ 2 * N256 ≤ k + 2 ∧ k < 2 * N256 + 2 := by
  obtain ⟨orderLow, orderHigh, odd⟩ := n256_bounds
  have bounded : ∀ m, 2 * m + 2 ≤ 2 ^ 257 → (¬Regular P m ↔ m = 0 ∨ 2 * m + 1 = N256 ∨ m = N256 ∨ m + 1 = N256) := by
    intro m bound
    rw [regular_iff nonzero, dvd_iff_of_lt (by omega), dvd_iff_of_lt (by omega), dvd_iff_of_lt (by omega)]
    omega
  constructor
  · rintro ⟨j, first, last, irregular⟩
    by_cases far : 3 ≤ j
    · obtain ⟨d, rfl⟩ := Nat.exists_eq_add_of_le far
      have below : k / 2 ^ (3 + d) ≤ k / 2 ^ 3 := Nat.div_le_div_left (Nat.pow_le_pow_right (by decide) far) (by decide)
      have positive : 0 < k / 2 ^ (3 + d) :=
        Nat.div_pos ((Nat.pow_le_pow_right (by decide) last).trans low) (Nat.two_pow_pos _)
      have position := (bounded _ (by omega)).mp irregular
      omega
    · have near : j = 1 ∨ j = 2 := by omega
      rcases near with rfl | rfl
      · have position := (bounded _ (by omega)).mp irregular
        omega
      · have position := (bounded _ (by omega)).mp irregular
        omega
  · rintro ⟨below, above⟩
    refine ⟨2, by decide, by decide, (bounded _ (by omega)).mpr ?_⟩
    omega

/-- Both coordinates of a point in an array. -/
abbrev coordinatesOf (point : Words 16) : Words 8 × Words 8 := (@low 8 point, @high 8 point)

/-- The number that a scalar stands for in a multiplication with `i + 2` bits: the highest bit is never looked at, and
taken to be set. -/
def scalarOf (scalar : Words 8) (i : Nat) : Nat := 2 ^ (i + 1) + scalar.toNat % 2 ^ (i + 1)

theorem scalarOf_top (scalar : Words 8) (i : Nat) : scalarOf scalar i / 2 ^ (i + 1) = 1 := by
  have positive := Nat.two_pow_pos (i + 1)
  rw [scalarOf, Nat.add_div_left _ positive, Nat.div_eq_of_lt (Nat.mod_lt _ positive)]

theorem scalarOf_testBit (scalar : Words 8) {i j : Nat} (low : j ≤ i) :
    (scalarOf scalar i).testBit j = scalar.toNat.testBit j := by
  rw [scalarOf, Nat.testBit_two_pow_add_gt (by omega), Nat.testBit_mod_two_pow, decide_eq_true (by omega),
    Bool.true_and]

theorem scalarOf_regularScalar (k : Words 8) : scalarOf (regularScalar k) 255 = regularized k.toNat := by
  rw [scalarOf, Nat.mod_eq_of_lt (regularScalar k).toNat_lt]
  exact regularScalar_toNat k

section anyCurve

variable {W : WeierstrassCurve.Affine (ZMod P256)} [W.IsShortNF] {P : W.Point} {x y z : ZMod P256} {point : Words 16}
  {initial_Z : Option (Words 8)}

/-- `EccPoint_mult` on a point of any curve with `a = -3`. -/
theorem eccPointMult_multiple (a₄ : W.a₄ = -3) (affine : Coordinates P x y)
    (congruent : Congruent (coordinatesOf point) (x, y)) (denominator : Represents (initial_Z.getD (vliOne 7)) z)
    (nonzero : z ≠ 0) (scalar : Words 8) (i : Nat) :
    RepresentsPoint (coordinatesOf (eccPointMult point scalar initial_Z (i + 2)))
      (CoZ.multiple P i (scalarOf scalar i)) := by
  have words := @eccPointMult_represents _ _ _ _ scalar _ _ _ _ i congruent denominator nonzero
    fun _ low => scalarOf_testBit scalar low
  rwa [mult_eq_multiple affine a₄ field_two_ne_zero nonzero (scalarOf_top scalar i)] at words

/-- On every curve with `a = -3` and for every number of bits the result is the multiple by the scalar, the highest of
these bits taken to be set, whatever the denominator at the start. It is two zeros where the ladder meets equal or
opposite points, and for the points with a coordinate zero. -/
theorem eccPointMult_exact (a₄ : W.a₄ = -3) (affine : Coordinates P x y)
    (congruent : Congruent (coordinatesOf point) (x, y)) (denominator : Represents (initial_Z.getD (vliOne 7)) z)
    (nonzero : z ≠ 0) (scalar : Words 8) (i : Fin 256) :
    (Degenerate P i (scalarOf scalar i) →
        RepresentsPoint (coordinatesOf (eccPointMult point scalar initial_Z (i + 2))) (0 : ZMod P256 × ZMod P256)) ∧
      (¬Degenerate P i (scalarOf scalar i) →
        ∃ p : ZMod P256 × ZMod P256, Coordinates (scalarOf scalar i • P) p.1 p.2 ∧
          RepresentsPoint (coordinatesOf (eccPointMult point scalar initial_Z (i + 2))) p) := by
  have words := eccPointMult_multiple a₄ affine congruent denominator nonzero scalar i
  constructor
  · intro degenerate
    rwa [CoZ.multiple, if_pos degenerate] at words
  · intro regular
    exact ⟨_, multiple_coordinates affine a₄ field_two_ne_zero (scalarOf_top scalar i) regular, words⟩

theorem eccPointMult_exact_base :
    ∃ p : ZMod P256 × ZMod P256, Coordinates (scalarOf (vliOne 7) 1 • basePoint) p.1 p.2 ∧
      RepresentsPoint (coordinatesOf (eccPointMult curveG (vliOne 7) none 3)) p := by
  have five : scalarOf (vliOne 7) 1 = 5 := by
    rw [scalarOf, vliOne_toNat]
    rfl
  have regular : ¬Degenerate basePoint 1 (scalarOf (vliOne 7) 1) := by
    rw [five, Degenerate, basePoint_coordinates.affineOf]
    rintro (xZero | yZero | ⟨j, low, high, irregular⟩)
    · exact absurd xZero (by decide +kernel)
    · exact absurd yZero (by decide +kernel)
    · rw [regular_iff basePoint_coordinates.nonzero] at irregular
      interval_cases j
      · exact irregular (by decide +kernel)
      · exact irregular (by decide +kernel)
  exact (eccPointMult_exact rfl basePoint_coordinates curveG_congruent represents_none one_ne_zero (vliOne 7) 1).2
    regular

end anyCurve

theorem nsmul_regularized (P : curve.Point) (k : Nat) : regularized k • P = k • P := by
  have vanish : N256 • P = 0 := by
    rw [← card_curve]
    exact card_nsmul_eq_zero'
  rw [regularized]
  split
  · rw [add_nsmul, vanish, add_zero]
  · rw [add_nsmul, mul_comm, mul_nsmul, vanish, nsmul_zero, add_zero]

theorem y_ne_zero {P : curve.Point} {x y : ZMod P256} (affine : Coordinates P x y) : y ≠ 0 :=
  affine.y_ne fun double => affine.nonzero (curve_no_two_torsion P double)

/-- On the curve itself only the exceptional scalars and the points with `x = 0` are degenerate. -/
theorem degenerate_iff {P : curve.Point} {x y : ZMod P256} (affine : Coordinates P x y) {k : Nat}
    (small : k < 2 ^ 256) : Degenerate P 255 (regularized k) ↔ Exceptional k ∨ x = 0 := by
  obtain ⟨low, high⟩ := regularized_bounds small
  rw [Degenerate, affine.affineOf, irregular_iff affine.nonzero low high, regularized_exceptional small,
    or_iff_right (y_ne_zero affine), or_comm]

theorem multiple_regularized {P : curve.Point} {x y : ZMod P256} (affine : Coordinates P x y) {k : Nat}
    (small : k < 2 ^ 256) :
    CoZ.multiple P 255 (regularized k) = if Exceptional k ∨ x = 0 then 0 else affineOf (k • P) := by
  have degenerate := degenerate_iff affine small
  rw [CoZ.multiple, nsmul_regularized]
  by_cases reason : Exceptional k ∨ x = 0
  · rw [if_pos reason, if_pos (degenerate.mpr reason)]
  · rw [if_neg reason, if_neg (mt degenerate.mp reason)]

/-- `EccPoint_mult` with a regularized scalar, on a point of the curve itself: there are six scalars below the width of
the array, next to the multiples of the order, for which it gives two zeros. -/
theorem eccPointMult_curve {P : curve.Point} {x y z : ZMod P256} {point : Words 16} {initial_Z : Option (Words 8)}
    (affine : Coordinates P x y) (congruent : Congruent (coordinatesOf point) (x, y))
    (denominator : Represents (initial_Z.getD (vliOne 7)) z) (nonzero : z ≠ 0) (k : Words 8) :
    (Exceptional k.toNat ∨ x = 0 → RepresentsPoint
        (coordinatesOf (eccPointMult point (regularScalar k) initial_Z (curveNumNBits + 1)))
        (0 : ZMod P256 × ZMod P256)) ∧
      (¬(Exceptional k.toNat ∨ x = 0) → ∃ p : ZMod P256 × ZMod P256, Coordinates (k.toNat • P) p.1 p.2 ∧
        RepresentsPoint (coordinatesOf (eccPointMult point (regularScalar k) initial_Z (curveNumNBits + 1))) p) := by
  have words := eccPointMult_multiple rfl affine congruent denominator nonzero (regularScalar k) 255
  have top := scalarOf_top (regularScalar k) 255
  rw [scalarOf_regularScalar] at words top
  have degenerate := degenerate_iff affine k.toNat_lt
  constructor
  · intro reason
    rw [CoZ.multiple, if_pos (degenerate.mpr reason)] at words
    exact words
  · intro regular
    have coordinates := multiple_coordinates affine rfl field_two_ne_zero top (mt degenerate.mp regular)
    rw [nsmul_regularized] at coordinates
    exact ⟨_, coordinates, words⟩

theorem eccPointMult_curve_base :
    ∃ p : ZMod P256 × ZMod P256, Coordinates (curveP.toNat • basePoint) p.1 p.2 ∧
      RepresentsPoint (coordinatesOf (eccPointMult curveG (regularScalar curveP) none (curveNumNBits + 1))) p :=
  (eccPointMult_curve basePoint_coordinates curveG_congruent represents_none one_ne_zero curveP).2 (by decide +kernel)

/-- The point with both coordinates zero, the code's point at infinity, is none of the curve. -/
theorem affineOf_ne_zero {P : curve.Point} (nonzero : P ≠ 0) : affineOf P ≠ 0 := by
  intro zero
  match P, nonzero, zero with
  | .zero, nonzero, _ => exact nonzero rfl
  | .some x y h, _, zero =>
    obtain ⟨rfl, rfl⟩ := Prod.mk.inj zero
    have equation := curve_nonsingular.mp h
    rw [curve_a₆] at equation
    exact curve_no_root 0 (by linear_combination -equation)

theorem multiple_eq_zero {P : curve.Point} {x y : ZMod P256} (affine : Coordinates P x y) {k : Nat}
    (small : k < 2 ^ 256) : CoZ.multiple P 255 (regularized k) = 0 ↔ Exceptional k ∨ x = 0 := by
  rw [multiple_regularized affine small]
  by_cases reason : Exceptional k ∨ x = 0
  · rw [if_pos reason]
    exact iff_of_true rfl reason
  · have nonzero : k • P ≠ 0 := by
      rw [ne_eq, nsmul_eq_zero_iff affine.nonzero]
      exact fun divides => reason (Or.inl (Exceptional.of_dvd small divides))
    rw [if_neg reason]
    exact iff_of_false (affineOf_ne_zero nonzero) reason

theorem regularized_top {k : Nat} (small : k < 2 ^ 256) : regularized k / 2 ^ (255 + 1) = 1 := by
  obtain ⟨low, high⟩ := regularized_bounds small
  omega

section through

variable {x y : ZMod P256}

theorem through_nonsingular (yNonzero : y ≠ 0) : (curveThrough x y).Nonsingular x y := by
  rw [WeierstrassCurve.Affine.nonsingular_iff, WeierstrassCurve.Affine.equation_iff]
  simp only [curveThrough, curveMinusThree]
  refine ⟨by ring, Or.inr fun opposite => ?_⟩
  have double : 2 * y = 0 := by linear_combination opposite
  exact mul_ne_zero field_two_ne_zero yNonzero double

def pointThrough (x : ZMod P256) (yNonzero : y ≠ 0) : (curveThrough x y).Point :=
  .some _ _ (through_nonsingular yNonzero)

open Classical in
/-- What the ladder makes of a pair of coordinates, whether or not it is a point of the curve. -/
noncomputable def multipleThrough (k : Nat) (x y : ZMod P256) : ZMod P256 × ZMod P256 :=
  if yZero : y = 0 then 0 else CoZ.multiple (pointThrough x yZero) 255 k

/-- The code never uses the coefficient `b`: it multiplies any pair of coordinates on the curve it lies on. -/
theorem eccPointMult_through {z : ZMod P256} {point : Words 16} {initial_Z : Option (Words 8)}
    (congruent : Congruent (coordinatesOf point) (x, y)) (denominator : Represents (initial_Z.getD (vliOne 7)) z)
    (nonzero : z ≠ 0) (k : Words 8) :
    RepresentsPoint (coordinatesOf (eccPointMult point (regularScalar k) initial_Z (curveNumNBits + 1)))
      (multipleThrough (regularized k.toNat) x y) := by
  rw [multipleThrough]
  split_ifs with yZero
  · have words := @eccPointMult_represents _ _ _ _ (regularScalar k) _ _ _ _ 255 congruent denominator nonzero
      fun _ _ => rfl
    rwa [yZero, mult_y_zero] at words
  · rw [← scalarOf_regularScalar]
    exact eccPointMult_multiple rfl ⟨through_nonsingular yZero, rfl⟩ congruent denominator nonzero _ 255

theorem multiple_congr {W W' : WeierstrassCurve.Affine (ZMod P256)} (same : W = W') (h : W.Nonsingular x y)
    (h' : W'.Nonsingular x y) {i k : Nat} :
    CoZ.multiple (.some x y h : W.Point) i k = CoZ.multiple (.some x y h' : W'.Point) i k := by
  subst same
  rfl

/-- A point of the curve is multiplied on the curve. -/
theorem multipleThrough_curve {P : curve.Point} (affine : Coordinates P x y) (k : Nat) :
    multipleThrough k x y = CoZ.multiple P 255 k := by
  obtain ⟨h, point⟩ := affine
  have yNonzero := y_ne_zero ⟨h, point⟩
  have same : curveThrough x y = curve := by
    have equation := curve_nonsingular.mp h
    ext
    · rfl
    · rfl
    · rfl
    · rfl
    · show y ^ 2 - x ^ 3 + 3 * x = curve.a₆
      linear_combination equation
  rw [multipleThrough, dif_neg yNonzero, point, pointThrough]
  exact multiple_congr same _ h

end through

end BleGateway
