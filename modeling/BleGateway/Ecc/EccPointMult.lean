import BleGateway.Ecc.Points

namespace BleGateway
open Words

def eccPointIsZero (point : Words 16) : Bool := uECCVliIsZero point

/-- One round of the loop of `EccPoint_mult`, on the points `R[0]` and `R[1]`. -/
def eccMultRound (bit : Bool) (R : Bool → Words 8 × Words 8) : Bool → Words 8 × Words 8 :=
  let nb := !bit
  let (difference, sum) := xyczAddC (R !nb) (R nb)
  let (sum, double) := xyczAdd sum difference
  fun index => if index = nb then sum else double

/-- The rounds for the bits `i`, ..., 1 of the scalar. -/
def eccMultLoop (scalar : Words 8) : Nat → (Bool → Words 8 × Words 8) → Bool → Words 8 × Words 8
  | 0, R => R
  | i + 1, R => eccMultLoop scalar i (eccMultRound (uECCVliTestBit scalar (i + 1)) R)

/-- What follows the loop: the last round, in which the inverse of the final denominator is found. -/
def eccMultLast (bit : Bool) (R : Bool → Words 8 × Words 8) (point : Words 8 × Words 8) : Words 8 × Words 8 :=
  let nb := !bit
  let (difference, sum) := xyczAddC (R !nb) (R nb)
  let R := fun index => if index = nb then sum else difference
  let z := uECCVliModSub (R true).1 (R false).1 curveP
  let z := uECCVliModMultFast z (R !nb).2
  let z := uECCVliModMultFast z point.1
  let z := @uECCVliModInv 7 z curveP
  let z := uECCVliModMultFast z point.2
  let z := uECCVliModMultFast z (R !nb).1
  let (sum, double) := xyczAdd (R nb) (R !nb)
  let R := fun index => if index = nb then sum else double
  applyZ (R false) z

def eccPointMult (point : Words 16) (scalar : Words 8) (initial_Z : Option (Words 8)) (num_bits : Nat) : Words 16 :=
  let coordinates := (@low 8 point, @high 8 point)
  let (double, single) := xyczInitialDouble coordinates initial_Z
  let R := eccMultLoop scalar (num_bits - 2) fun index => if index then double else single
  let result := eccMultLast (uECCVliTestBit scalar 0) R coordinates
  join result.1 result.2

variable {F : Type*} [Field F] [CharP F P256]

/-- Both points of the ladder. -/
def RepresentsLadder (R : Bool → Words 8 × Words 8) (S : Bool → F × F) : Prop :=
  ∀ index, RepresentsPoint (R index) (S index)

variable {R : Bool → Words 8 × Words 8} {S : Bool → F × F}

theorem eccMultRound_represents (ladder : RepresentsLadder R S) (bit : Bool) :
    RepresentsLadder (eccMultRound bit R) (CoZ.step bit S) := by
  obtain ⟨difference, sum⟩ := xyczAddC_represents (ladder bit) (ladder !bit)
  obtain ⟨total, double⟩ := xyczAdd_represents sum difference
  intro index
  cases bit <;> cases index
  · exact double
  · exact total
  · exact total
  · exact double

theorem eccMultLoop_represents {scalar : Words 8} {k i : Nat} (ladder : RepresentsLadder R S)
    (bits : ∀ j ≤ i, k.testBit j = scalar.toNat.testBit j) :
    RepresentsLadder (eccMultLoop scalar i R) (CoZ.ladder k i S) := by
  induction i generalizing R S with
  | zero => exact ladder
  | succ i ih =>
    have bit := bits (i + 1) le_rfl
    rw [eccMultLoop, CoZ.ladder, uECCVliTestBit_eq, bit]
    exact ih (eccMultRound_represents ladder _) fun j low => bits j (by omega)

theorem eccMultLast_represents {point : Words 8 × Words 8} {p : F × F} (ladder : RepresentsLadder R S)
    (congruent : Congruent point p) (bit : Bool) :
    RepresentsPoint (eccMultLast bit R point) (CoZ.lastStep bit S p.1 p.2) := by
  obtain ⟨difference, sum⟩ := xyczAddC_represents (ladder bit) (ladder !bit)
  obtain ⟨total, double⟩ := xyczAdd_represents sum difference
  cases bit
  · have z := ((((sum.x.sub difference.x).mult difference.y).mult_congruent congruent.x).inv.mult_congruent
      congruent.y).mult difference.x
    exact applyZ_represents double.congruent z
  · have z := ((((difference.x.sub sum.x).mult difference.y).mult_congruent congruent.x).inv.mult_congruent
      congruent.y).mult difference.x
    exact applyZ_represents total.congruent z

theorem xyczInitialDouble_represents {point : Words 8 × Words 8} {initial_Z : Option (Words 8)} {p : F × F} {z : F}
    (congruent : Congruent point p) (denominator : Represents (initial_Z.getD (vliOne 7)) z) (nonzero : z ≠ 0) :
    RepresentsPoint (xyczInitialDouble point initial_Z).1 (CoZ.initialDouble z p).1 ∧
      RepresentsPoint (xyczInitialDouble point initial_Z).2 (CoZ.initialDouble z p).2 := by
  have scaled := applyZ_represents congruent denominator
  obtain ⟨double, next⟩ := doubleJacobianDefault_represents scaled denominator nonzero
  exact ⟨double, applyZ_represents congruent next⟩

/-- The words computed are those of the ladder over the field, for every scalar, whatever `point` is. -/
theorem eccPointMult_represents {point : Words 16} {scalar : Words 8} {initial_Z : Option (Words 8)} {p : F × F}
    {z : F} {k i : Nat} (congruent : Congruent (@low 8 point, @high 8 point) p)
    (denominator : Represents (initial_Z.getD (vliOne 7)) z) (nonzero : z ≠ 0)
    (bits : ∀ j ≤ i, k.testBit j = scalar.toNat.testBit j) :
    RepresentsPoint (@low 8 (eccPointMult point scalar initial_Z (i + 2)),
      @high 8 (eccPointMult point scalar initial_Z (i + 2))) (CoZ.mult k i z p) := by
  obtain ⟨double, single⟩ := xyczInitialDouble_represents congruent denominator nonzero
  have start : RepresentsLadder (fun index => if index
      then (xyczInitialDouble (@low 8 point, @high 8 point) initial_Z).1
      else (xyczInitialDouble (@low 8 point, @high 8 point) initial_Z).2) (CoZ.start z p) := by
    intro index
    cases index
    · exact single
    · exact double
  have climbs := eccMultLoop_represents start bits
  have last := eccMultLast_represents climbs congruent (k.testBit 0)
  rw [bits 0 (Nat.zero_le i), ← uECCVliTestBit_eq] at last
  simp only [eccPointMult, join_low, join_high]
  rw [CoZ.mult, bits 0 (Nat.zero_le i), ← uECCVliTestBit_eq]
  exact last

end BleGateway
