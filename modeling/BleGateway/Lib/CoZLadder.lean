import BleGateway.Lib.CoZ

namespace CoZ

variable {F : Type*} [Field F]

/-- One step of the ladder: the point of the bit is doubled, the other becomes the sum of both. -/
def step (bit : Bool) (R : Bool → F × F) : Bool → F × F :=
  let (difference, sum) := addC (R bit) (R !bit)
  let (sum, double) := add sum difference
  fun index => if index = bit then double else sum

/-- The steps for the bits `i`, ..., 1 of `k`. -/
def ladder (k : Nat) : Nat → (Bool → F × F) → Bool → F × F
  | 0, R => R
  | i + 1, R => ladder k i (step (k.testBit (i + 1)) R)

/-- The step for the last bit, in which the denominator is found from the affine point `(x, y)`. -/
def lastStep (bit : Bool) (R : Bool → F × F) (x y : F) : F × F :=
  let (difference, sum) := addC (R bit) (R !bit)
  let z := ((if bit then difference.1 - sum.1 else sum.1 - difference.1) * difference.2 * x)⁻¹ * y * difference.1
  let (sum, double) := add sum difference
  rescale z (if bit then sum else double)

/-- The ladder at its first bit: the double and the point itself. -/
def start (z : F) (p : F × F) (index : Bool) : F × F := if index then (initialDouble z p).1 else (initialDouble z p).2

/-- The multiple of an affine point by a number of `i + 2` bits, with `z` as the denominator at the start. -/
def mult (k i : Nat) (z : F) (p : F × F) : F × F := lastStep (k.testBit 0) (ladder k i (start z p)) p.1 p.2

/-- The prefix of a number after one more bit. -/
theorem prefix_step (k i : Nat) : 2 * (k / 2 ^ (i + 1)) + (k.testBit i).toNat = k / 2 ^ i := by
  rw [Nat.toNat_testBit, Nat.pow_succ, ← Nat.div_div_eq_div_mul]
  omega

section collapse

theorem add_collapsed_pair {p q : F × F} (collapsed : Collapsed p q) :
    Collapsed (add p q).1 (add p q).2 := by
  obtain ⟨zero, cusp⟩ := collapsed.add
  exact Or.inr ⟨zero, cusp⟩

/-- A step gives two collapsed points if its first formula does, or if its second meets one `X` twice. -/
theorem step_collapsed {bit : Bool} {R : Bool → F × F}
    (reason : Collapsed (addC (R bit) (R !bit)).1 (addC (R bit) (R !bit)).2 ∨
      (addC (R bit) (R !bit)).2.1 = (addC (R bit) (R !bit)).1.1) :
    Collapsed (step bit R false) (step bit R true) := by
  have pair : Collapsed (add (addC (R bit) (R !bit)).2 (addC (R bit) (R !bit)).1).1
      (add (addC (R bit) (R !bit)).2 (addC (R bit) (R !bit)).1).2 := by
    rcases reason with collapsed | same
    · exact add_collapsed_pair collapsed.symm
    · exact add_collapsed same
  cases bit
  · exact pair.symm
  · exact pair

theorem Collapsed.pair {R : Bool → F × F} (collapsed : Collapsed (R false) (R true)) (bit : Bool) :
    Collapsed (R bit) (R !bit) := by
  cases bit
  · exact collapsed
  · exact collapsed.symm

theorem Collapsed.step {R : Bool → F × F} (collapsed : Collapsed (R false) (R true)) (bit : Bool) :
    Collapsed (CoZ.step bit R false) (CoZ.step bit R true) := by
  apply step_collapsed
  rw [(collapsed.pair bit).addC]
  exact Or.inr rfl

theorem Collapsed.ladder {k i : Nat} {R : Bool → F × F} (collapsed : Collapsed (R false) (R true)) :
    Collapsed (CoZ.ladder k i R false) (CoZ.ladder k i R true) := by
  induction i generalizing R with
  | zero => exact collapsed
  | succ i ih => exact ih (collapsed.step _)

variable {x y : F}

/-- The last step gives two zeros for a point with `x = 0`, and wherever its formulas have met or meet equal or
opposite points. -/
theorem lastStep_zero {bit : Bool} {R : Bool → F × F}
    (reason : x = 0 ∨ Collapsed (addC (R bit) (R !bit)).1 (addC (R bit) (R !bit)).2 ∨
      (addC (R bit) (R !bit)).2.1 = (addC (R bit) (R !bit)).1.1) :
    CoZ.lastStep bit R x y = 0 := by
  have zeroDenominator : ∀ p : F × F, rescale 0 p = 0 := fun p => by simp [rescale]
  have zeroPoint : ∀ factor : F, rescale factor 0 = 0 := fun factor => by simp [rescale]
  rcases reason with zero | (⟨zero, _⟩ | ⟨zero, cusp⟩) | same
  · simp [CoZ.lastStep, zero, zeroDenominator]
  · simp [CoZ.lastStep, zero, zeroDenominator]
  · have collapsed : Collapsed (addC (R bit) (R !bit)).2 (addC (R bit) (R !bit)).1 := Or.inl ⟨zero, cusp⟩
    have sum := collapsed.add.1
    have first : (add (addC (R bit) (R !bit)).2 (addC (R bit) (R !bit)).1).1 = 0 := by
      rw [zero]
      simp [add]
    simp [CoZ.lastStep, sum, first, zeroPoint]
  · simp [CoZ.lastStep, same, zeroDenominator]

end collapse

/-- For a point with `y = 0` the first double already has the denominator zero. -/
theorem start_collapsed (z x : F) : Collapsed (start z (x, 0) false) (start z (x, 0) true) := by
  refine Or.inl ⟨?_, ?_⟩
  · simp [start, initialDouble, double, rescale]
  · simp only [start, initialDouble, double, rescale, if_true]
    ring

theorem mult_collapsed {k i : Nat} {z x y : F}
    (collapsed : Collapsed (ladder k i (start z (x, y)) false) (ladder k i (start z (x, y)) true)) :
    mult k i z (x, y) = 0 := by
  apply lastStep_zero
  rw [(collapsed.pair (k.testBit 0)).addC]
  exact Or.inr (Or.inr rfl)

/-- The result for a point with `y = 0` is two zeros, whatever the scalar. -/
theorem mult_y_zero (k i : Nat) (z x : F) : mult k i z (x, 0) = 0 :=
  mult_collapsed (start_collapsed z x).ladder

variable {W : WeierstrassCurve.Affine F} {P Q : W.Point} {x y z : F}

/-- The affine coordinates of a point, two zeros for the one at infinity. -/
def affineOf : W.Point → F × F
  | .zero => 0
  | .some x y _ => (x, y)

theorem Coordinates.affineOf (affine : Coordinates P x y) : affineOf P = (x, y) := by
  obtain ⟨_, rfl⟩ := affine
  rfl

theorem Coordinates.scaled (affine : Coordinates P x y) : Scaled P 1 (x, y) :=
  ⟨one_ne_zero, affine.congr (by simp) (by simp)⟩

section opposite

variable [W.IsShortNF]

/-- Equal or opposite points over one denominator have equal squares of `Y`. -/
theorem Scaled.y_sq {p q : F × F} (first : Scaled P z p) (second : Scaled Q z q) (same : p.1 = q.1) :
    p.2 ^ 2 = q.2 ^ 2 := by
  have cube : z ^ 3 ≠ 0 := pow_ne_zero 3 first.denominator
  rcases (first.x_eq second).mp same with equal | opposite
  · subst equal
    rw [(div_left_inj' cube).mp (first.coordinates.unique second.coordinates).2]
  · subst opposite
    have value := (div_left_inj' cube).mp (first.coordinates.unique second.neg.coordinates).2
    rw [value, neg_sq]

/-- The denominator of the last sum, from the coordinates of the point at its start. -/
theorem lastStep_denominator {bit : Bool} {p q : F × F} {d : W.Point} (difference : Scaled d z p)
    (affine : Coordinates P x y) (point : d = if bit then P else -P) (apart : q.1 ≠ p.1) (xNonzero : x ≠ 0)
    (yNonzero : y ≠ 0) :
    ((if bit then p.1 - q.1 else q.1 - p.1) * p.2 * x)⁻¹ * y * p.1 = (z * (p.1 - q.1))⁻¹ := by
  have denominator := difference.denominator
  have square : z ^ 2 ≠ 0 := pow_ne_zero 2 denominator
  have cube : z ^ 3 ≠ 0 := pow_ne_zero 3 denominator
  have first : p.1 - q.1 ≠ 0 := sub_ne_zero.mpr apart.symm
  have second : q.1 - p.1 ≠ 0 := sub_ne_zero.mpr apart
  obtain ⟨X, Y⟩ := p
  cases bit
  · subst point
    obtain ⟨sameX, sameY⟩ := difference.coordinates.unique affine.neg
    obtain rfl : X = x * z ^ 2 := (div_eq_iff square).mp sameX
    obtain rfl : Y = -y * z ^ 3 := (div_eq_iff cube).mp sameY
    simp only [Bool.false_eq_true, if_false]
    field_simp
    ring
  · subst point
    obtain ⟨sameX, sameY⟩ := difference.coordinates.unique affine
    obtain rfl : X = x * z ^ 2 := (div_eq_iff square).mp sameX
    obtain rfl : Y = y * z ^ 3 := (div_eq_iff cube).mp sameY
    simp only [if_true]
    field_simp

end opposite

variable [DecidableEq F]

/-- The two points of the ladder over one denominator. -/
structure Climbing (P : W.Point) (m : Nat) (z : F) (R : Bool → F × F) : Prop where
  low : Scaled (m • P) z (R false)
  high : Scaled ((m + 1) • P) z (R true)

/-- The formulas meet no equal or opposite points in the step that starts at `m`. -/
structure Regular (P : W.Point) (m : Nat) : Prop where
  low : (2 * m) • P ≠ 0
  sum : (2 * m + 1) • P ≠ 0
  high : (2 * m + 2) • P ≠ 0

/-- The points of the bit and of the other bit. -/
theorem Climbing.points {m : Nat} {R : Bool → F × F} (climbing : Climbing P m z R) (bit : Bool) :
    Scaled ((m + bit.toNat) • P) z (R bit) ∧ Scaled ((m + (!bit).toNat) • P) z (R !bit) := by
  cases bit
  · exact ⟨climbing.low, climbing.high⟩
  · exact ⟨climbing.high, climbing.low⟩

theorem Climbing.x_eq {m : Nat} {R : Bool → F × F} (climbing : Climbing P m z R) (nonzero : P ≠ 0) (bit : Bool) :
    (R bit).1 = (R !bit).1 ↔ (2 * m + 1) • P = 0 := by
  obtain ⟨first, second⟩ := climbing.points bit
  have distinct : (m + bit.toNat) • P ≠ (m + (!bit).toNat) • P := by
    intro same
    apply nonzero
    cases bit
    · simpa [add_nsmul] using same
    · simpa [add_nsmul] using same
  have total : m + bit.toNat + (m + (!bit).toNat) = 2 * m + 1 := by
    cases bit <;> simp <;> omega
  rw [first.x_eq second, or_iff_right distinct, eq_neg_iff_add_eq_zero, ← add_nsmul, total]

variable [W.IsShortNF]

/-- Both formulas of a step, on points `A` and `B` over one denominator. -/
theorem step_scaled {A B : W.Point} {p q : F × F} (first : Scaled A z p) (second : Scaled B z q) (apart : p.1 ≠ q.1)
    (apart' : (addC p q).2.1 ≠ (addC p q).1.1) :
    ∃ z', Scaled (A + B) z' (add (addC p q).2 (addC p q).1).1 ∧
      Scaled (A + A) z' (add (addC p q).2 (addC p q).1).2 := by
  obtain ⟨difference, sum⟩ := first.addC second apart
  have double := sum.add difference apart'
  rw [add_add_sub_cancel] at double
  exact ⟨_, sum.add_first apart', double⟩

/-- Where the second formula of a step meets equal or opposite points. -/
theorem step_apart {A B : W.Point} {p q : F × F} (first : Scaled A z p) (second : Scaled B z q) (apart : p.1 ≠ q.1) :
    (addC p q).2.1 = (addC p q).1.1 ↔ B + B = 0 ∨ A + A = 0 := by
  obtain ⟨difference, sum⟩ := first.addC second apart
  rw [sum.x_eq difference, eq_neg_iff_add_eq_zero, add_add_sub_cancel, sub_eq_add_neg, add_right_inj,
    eq_neg_iff_add_eq_zero]

/-- Where the second formula of a climbing step meets equal or opposite points. -/
theorem Climbing.x_eq_second {m : Nat} {R : Bool → F × F} (climbing : Climbing P m z R) (nonzero : P ≠ 0) (bit : Bool)
    (sum : (2 * m + 1) • P ≠ 0) :
    (addC (R bit) (R !bit)).2.1 = (addC (R bit) (R !bit)).1.1 ↔ (2 * m) • P = 0 ∨ (2 * m + 2) • P = 0 := by
  obtain ⟨first, second⟩ := climbing.points bit
  have even : m + m = 2 * m := by omega
  have next : m + 1 + (m + 1) = 2 * m + 2 := by omega
  rw [step_apart first second (mt (climbing.x_eq nonzero bit).mp sum), ← add_nsmul, ← add_nsmul]
  cases bit
  · simp [even, next, or_comm]
  · simp [even, next]

theorem Climbing.step {m : Nat} {R : Bool → F × F} (climbing : Climbing P m z R) (nonzero : P ≠ 0)
    (regular : Regular P m) (bit : Bool) : ∃ z', Climbing P (2 * m + bit.toNat) z' (CoZ.step bit R) := by
  obtain ⟨first, second⟩ := climbing.points bit
  have apart := mt (climbing.x_eq nonzero bit).mp regular.sum
  have apart' := mt (climbing.x_eq_second nonzero bit regular.sum).mp (not_or.mpr ⟨regular.low, regular.high⟩)
  obtain ⟨z', sum, double⟩ := step_scaled first second apart apart'
  rw [← add_nsmul] at sum double
  refine ⟨z', ?_⟩
  cases bit
  · refine ⟨?_, ?_⟩
    · simpa [CoZ.step, two_mul] using double
    · simpa [CoZ.step, two_mul, add_assoc] using sum
  · refine ⟨?_, ?_⟩
    · simpa [CoZ.step, two_mul, add_assoc, add_comm, add_left_comm] using sum
    · simpa [CoZ.step, two_mul, add_assoc, add_comm, add_left_comm] using double

/-- What the formulas of a step make of equal or opposite points, wherever it meets them. -/
theorem Climbing.irregular {m : Nat} {R : Bool → F × F} (climbing : Climbing P m z R) (nonzero : P ≠ 0)
    (irregular : ¬Regular P m) (bit : Bool) :
    Collapsed (addC (R bit) (R !bit)).1 (addC (R bit) (R !bit)).2 ∨
      (addC (R bit) (R !bit)).2.1 = (addC (R bit) (R !bit)).1.1 := by
  by_cases sum : (2 * m + 1) • P = 0
  · obtain ⟨first, second⟩ := climbing.points bit
    have same := (climbing.x_eq nonzero bit).mpr sum
    exact Or.inl (addC_collapsed same (first.y_sq second same))
  · refine Or.inr ((climbing.x_eq_second nonzero bit sum).mpr ?_)
    by_contra none
    obtain ⟨low, high⟩ := not_or.mp none
    exact irregular ⟨low, sum, high⟩

/-- While no prefix of the scalar meets equal or opposite points, the ladder climbs to the scalar's half. -/
theorem Climbing.ladder {k i : Nat} {R : Bool → F × F} (nonzero : P ≠ 0)
    (climbing : Climbing P (k / 2 ^ (i + 1)) z R) (regular : ∀ j, 2 ≤ j → j ≤ i + 1 → Regular P (k / 2 ^ j)) :
    ∃ z', Climbing P (k / 2) z' (CoZ.ladder k i R) := by
  induction i generalizing z R with
  | zero =>
    rw [Nat.zero_add, Nat.pow_one] at climbing
    exact ⟨z, climbing⟩
  | succ i ih =>
    obtain ⟨z', next⟩ := climbing.step nonzero (regular (i + 2) (by omega) le_rfl) (k.testBit (i + 1))
    rw [prefix_step] at next
    exact ih next fun j low high => regular j low (by omega)

theorem Climbing.ladder_collapsed {k i : Nat} {R : Bool → F × F} (nonzero : P ≠ 0)
    (climbing : Climbing P (k / 2 ^ (i + 1)) z R)
    (irregular : ∃ j, 2 ≤ j ∧ j ≤ i + 1 ∧ ¬Regular P (k / 2 ^ j)) :
    Collapsed (CoZ.ladder k i R false) (CoZ.ladder k i R true) := by
  induction i generalizing z R with
  | zero =>
    obtain ⟨j, low, high, _⟩ := irregular
    omega
  | succ i ih =>
    by_cases first : Regular P (k / 2 ^ (i + 2))
    · obtain ⟨z', next⟩ := climbing.step nonzero first (k.testBit (i + 1))
      rw [prefix_step] at next
      obtain ⟨j, low, high, fails⟩ := irregular
      have before : j ≠ i + 2 := by
        rintro rfl
        exact fails first
      exact ih next ⟨j, low, by omega, fails⟩
    · exact (step_collapsed (climbing.irregular nonzero first _)).ladder

theorem Climbing.lastStep {m : Nat} {R : Bool → F × F} (climbing : Climbing P m z R) (affine : Coordinates P x y)
    (xNonzero : x ≠ 0) (yNonzero : y ≠ 0) (regular : Regular P m) (bit : Bool) :
    Coordinates ((2 * m + bit.toNat) • P) (CoZ.lastStep bit R x y).1 (CoZ.lastStep bit R x y).2 := by
  obtain ⟨first, second⟩ := climbing.points bit
  have apart := mt (climbing.x_eq affine.nonzero bit).mp regular.sum
  have apart' := mt (climbing.x_eq_second affine.nonzero bit regular.sum).mp (not_or.mpr ⟨regular.low, regular.high⟩)
  obtain ⟨difference, sum⟩ := first.addC second apart
  have point : (m + bit.toNat) • P - (m + (!bit).toNat) • P = if bit then P else -P := by
    cases bit
    · simp [add_nsmul]
    · simp [add_nsmul]
  have denominator := lastStep_denominator difference affine point apart' xNonzero yNonzero
  have double := sum.add difference apart'
  rw [add_add_sub_cancel, ← add_nsmul] at double
  have total := sum.add_first apart'
  rw [← add_nsmul] at total
  simp only [CoZ.lastStep, denominator]
  cases bit
  · have affineDouble := (double.rescale (inv_ne_zero double.denominator)).coordinates
    rw [mul_inv_cancel₀ double.denominator] at affineDouble
    simpa [two_mul] using affineDouble
  · have affineSum := (total.rescale (inv_ne_zero total.denominator)).coordinates
    rw [mul_inv_cancel₀ total.denominator] at affineSum
    simpa [two_mul, add_assoc, add_comm, add_left_comm] using affineSum

theorem Coordinates.y_ne (affine : Coordinates P x y) (double : 2 • P ≠ 0) : y ≠ 0 := by
  rintro rfl
  have opposite := affine.neg
  rw [neg_zero] at opposite
  obtain ⟨_, point⟩ := affine
  obtain ⟨_, negative⟩ := opposite
  have same : P = -P := point.trans negative.symm
  rw [eq_neg_iff_add_eq_zero, ← two_nsmul] at same
  exact double same

theorem climbing_start (affine : Coordinates P x y) (curve : W.a₄ = -3) (two : (2 : F) ≠ 0) (yNonzero : y ≠ 0)
    (nonzero : z ≠ 0) :
    ∃ z', Climbing P 1 z' (start z (x, y)) := by
  have point := affine.scaled.rescale nonzero
  rw [one_mul] at point
  have scaledY : (rescale z (x, y)).2 ≠ 0 := mul_ne_zero yNonzero (mul_ne_zero (pow_ne_zero 2 nonzero) nonzero)
  have double := point.double curve two scaledY
  have low := affine.scaled.rescale double.denominator
  rw [one_mul] at low
  refine ⟨(CoZ.double z (rescale z (x, y))).2, ?_, ?_⟩
  · simpa [start, initialDouble] using low
  · simpa [start, initialDouble, two_nsmul] using double

/-- Where no prefix of the scalar meets equal or opposite points, the result is the affine multiple. -/
theorem mult_regular {k i : Nat} (affine : Coordinates P x y) (curve : W.a₄ = -3) (two : (2 : F) ≠ 0)
    (xNonzero : x ≠ 0) (yNonzero : y ≠ 0) (nonzero : z ≠ 0) (top : k / 2 ^ (i + 1) = 1)
    (regular : ∀ j, 1 ≤ j → j ≤ i + 1 → Regular P (k / 2 ^ j)) :
    Coordinates (k • P) (mult k i z (x, y)).1 (mult k i z (x, y)).2 := by
  obtain ⟨_, climbs⟩ := climbing_start affine curve two yNonzero nonzero
  rw [← top] at climbs
  obtain ⟨_, climbing⟩ := climbs.ladder affine.nonzero fun j low high => regular j (by omega) high
  have last := regular 1 le_rfl (by omega)
  rw [Nat.pow_one] at last
  have result := climbing.lastStep affine xNonzero yNonzero last (k.testBit 0)
  have total : 2 * (k / 2) + (k.testBit 0).toNat = k := by simpa using prefix_step k 0
  rwa [total] at result

/-- Where some prefix meets equal or opposite points, and for a point with `x = 0`, the result is two zeros. -/
theorem mult_irregular {k i : Nat} (affine : Coordinates P x y) (curve : W.a₄ = -3) (two : (2 : F) ≠ 0)
    (yNonzero : y ≠ 0) (nonzero : z ≠ 0) (top : k / 2 ^ (i + 1) = 1)
    (reason : x = 0 ∨ ∃ j, 1 ≤ j ∧ j ≤ i + 1 ∧ ¬Regular P (k / 2 ^ j)) : mult k i z (x, y) = 0 := by
  obtain ⟨_, climbs⟩ := climbing_start affine curve two yNonzero nonzero
  rw [← top] at climbs
  rcases reason with zero | ⟨j, low, high, irregular⟩
  · exact lastStep_zero (Or.inl zero)
  · by_cases regular : ∀ j, 2 ≤ j → j ≤ i + 1 → Regular P (k / 2 ^ j)
    · obtain ⟨_, climbing⟩ := climbs.ladder affine.nonzero regular
      have last : ¬Regular P (k / 2) := by
        by_cases first : j = 1
        · subst first
          rwa [Nat.pow_one] at irregular
        · exact absurd (regular j (by omega) high) irregular
      exact lastStep_zero (Or.inr (climbing.irregular affine.nonzero last _))
    · push Not at regular
      exact mult_collapsed (climbs.ladder_collapsed affine.nonzero regular)

section result

/-- The ladder gives up on these: a coordinate is zero, or a prefix of the scalar meets equal or opposite points. -/
def Degenerate (P : W.Point) (i k : Nat) : Prop :=
  (affineOf P).1 = 0 ∨ (affineOf P).2 = 0 ∨ ∃ j, 1 ≤ j ∧ j ≤ i + 1 ∧ ¬Regular P (k / 2 ^ j)

open Classical in
/-- What the ladder computes for a number of `i + 2` bits. -/
noncomputable def multiple (P : W.Point) (i k : Nat) : F × F := if Degenerate P i k then 0 else affineOf (k • P)

/-- The ladder on any affine point, whatever its order and that of the curve. -/
theorem mult_eq_multiple {k i : Nat} (affine : Coordinates P x y) (curve : W.a₄ = -3) (two : (2 : F) ≠ 0)
    (nonzero : z ≠ 0) (top : k / 2 ^ (i + 1) = 1) : mult k i z (x, y) = multiple P i k := by
  have coordinates := affine.affineOf
  by_cases yZero : y = 0
  · have degenerate : Degenerate P i k := Or.inr (Or.inl (by rw [coordinates, yZero]))
    rw [multiple, if_pos degenerate, yZero, mult_y_zero]
  · by_cases degenerate : Degenerate P i k
    · rw [multiple, if_pos degenerate]
      rw [Degenerate, coordinates] at degenerate
      rcases degenerate with xZero | zero | irregular
      · exact mult_irregular affine curve two yZero nonzero top (Or.inl xZero)
      · exact absurd zero yZero
      · exact mult_irregular affine curve two yZero nonzero top (Or.inr irregular)
    · rw [multiple, if_neg degenerate]
      rw [Degenerate, coordinates, not_or, not_or] at degenerate
      obtain ⟨xNonzero, _, regular⟩ := degenerate
      push Not at regular
      exact (mult_regular affine curve two xNonzero yZero nonzero top regular).affineOf.symm

/-- Elsewhere the multiple is an affine point, and its coordinates are computed. -/
theorem multiple_coordinates {k i : Nat} (affine : Coordinates P x y) (curve : W.a₄ = -3) (two : (2 : F) ≠ 0)
    (top : k / 2 ^ (i + 1) = 1) (regular : ¬Degenerate P i k) :
    Coordinates (k • P) (multiple P i k).1 (multiple P i k).2 := by
  have ladder := mult_eq_multiple affine curve two one_ne_zero top
  rw [Degenerate, affine.affineOf, not_or, not_or] at regular
  obtain ⟨xNonzero, yNonzero, prefixes⟩ := regular
  push Not at prefixes
  rw [← ladder]
  exact mult_regular affine curve two xNonzero yNonzero one_ne_zero top prefixes

end result

end CoZ
