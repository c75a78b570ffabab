import BleGateway.Ecc.ScalarMult
import BleGateway.Ecc.Bytes

namespace BleGateway
open Words CoZ

/-- `x_side_default`: the right side of the equation of the curve. -/
def xSideDefault (x : Words 8) : Words 8 :=
  let _3 := (uECCVliClear 8).set 0 3
  let result := uECCVliModSquareFast x
  let result := uECCVliModSub result _3 curveP
  let result := uECCVliModMultFast result x
  uECCVliModAdd result curveB curveP

def uECCValidPoint (point : Words 16) : Int :=
  let (x, y) := coordinatesOf point
  if eccPointIsZero point then -1
  else if uECCVliCmpUnsafe curveP x ≠ 1 ∨ uECCVliCmpUnsafe curveP y ≠ 1 then -2
  else
    let tmp1 := uECCVliModSquareFast y
    let tmp2 := xSideDefault x
    if uECCVliEqual tmp1 tmp2 then -3 else 0

/-- The array that a public key is converted to. -/
def nativePublic (public_key : Buffer 64) : Words 16 :=
  join (uECCVliBytesToNative (public_key.slice 0 32)) (uECCVliBytesToNative (public_key.slice 32 32))

def uECCValidPublicKey (public_key : Buffer 64) : Int :=
  let _public := nativePublic public_key
  if uECCVliCmpUnsafe _public curveG = 0 then -4 else uECCValidPoint _public

/-- `EccPoint_compute_public_key`: what it returns, and `result`. -/
def eccPointComputePublicKey (private_key : Words 8) : Bool × Words 16 :=
  let (carry, tmp1, tmp2) := regularizeK private_key
  let p2 := fun index => if index then tmp2 else tmp1
  let result := eccPointMult curveG (p2 !carry) none (curveNumNBits + 1)
  (!eccPointIsZero result, result)

/-- The public key with the bytes of a point written to it. -/
def storePublic (public_key : Buffer 64) (_public : Words 16) : Buffer 64 :=
  (public_key.store 0 (uECCVliNativeToBytes 32 (@low 8 _public)).bytes).store 32
    (uECCVliNativeToBytes 32 (@high 8 _public)).bytes

/-- `uECC_compute_public_key`: what it returns, and the public key it leaves behind. -/
def uECCComputePublicKey (private_key : Buffer 32) (public_key : Buffer 64) : Int × Buffer 64 :=
  let _private : Words 8 := uECCVliBytesToNative private_key
  if uECCVliIsZero _private then (0, public_key)
  else if uECCVliCmp curveN _private ≠ 1 then (0, public_key)
  else
    let (computed, _public) := eccPointComputePublicKey _private
    if !computed then (0, public_key) else (1, storePublic public_key _public)

section validation

variable {F : Type*} [Field F] [CharP F P256]

theorem xSideDefault_represents {v : Words 8} {x : F} (represents : Represents v x) :
    Represents (xSideDefault v) (x ^ 3 - 3 * x + (curveB.toNat : F)) := by
  have three : Represents ((uECCVliClear 8).set 0 3) (3 : F) := by
    have value : ((uECCVliClear 8).set 0 3).toNat = 3 % P256 := by decide +kernel
    exact (represents_mod value).congr (Nat.cast_ofNat)
  have b : Represents curveB (curveB.toNat : F) := ⟨by decide +kernel, rfl⟩
  exact (((represents.square.sub three).mult represents).add b).congr (by ring)

end validation

/-- The words are those of the affine coordinates of a point of the curve. -/
def RepresentsCurvePoint (point : Words 16) (P : curve.Point) : Prop :=
  P ≠ 0 ∧ RepresentsPoint (coordinatesOf point) (affineOf P)

theorem affineOf_coordinates {P : curve.Point} (nonzero : P ≠ 0) : Coordinates P (affineOf P).1 (affineOf P).2 := by
  match P, nonzero with
  | .zero, nonzero => exact absurd rfl nonzero
  | .some _ _ h, _ => exact ⟨h, rfl⟩

theorem coordinates_zero {point : Words 16} (zero : point.toNat = 0) :
    (@low 8 point).toNat = 0 ∧ (@high 8 point).toNat = 0 := by
  have halves := @toNat_halves 8 point
  have positive := Nat.two_pow_pos (32 * 8)
  constructor
  · omega
  · by_contra nonzero
    have large := Nat.mul_le_mul_left (2 ^ (32 * 8)) (Nat.one_le_iff_ne_zero.mpr nonzero)
    omega

instance (x y : ZMod P256) : Decidable (curve.Nonsingular x y) :=
  decidable_of_iff (y ^ 2 = x ^ 3 + curve.a₄ * x + curve.a₆) (by
    rw [curve_nonsingular, show curve.a₄ = -3 from rfl, neg_mul, sub_eq_add_neg])

/-- The checks of `uECC_valid_point`, in their order. -/
theorem uECCValidPoint_eq (point : Words 16) :
    uECCValidPoint point = if point.toNat = 0 then -1
      else if ¬((@low 8 point).toNat < P256 ∧ (@high 8 point).toNat < P256) then -2
      else if curve.Nonsingular ((@low 8 point).toNat : ZMod P256) ((@high 8 point).toNat : ZMod P256) then 0
      else -3 := by
  have zero : eccPointIsZero point = true ↔ point.toNat = 0 := uECCVliIsZero_iff
  have range : uECCVliCmpUnsafe curveP (@low 8 point) ≠ 1 ∨ uECCVliCmpUnsafe curveP (@high 8 point) ≠ 1 ↔
      ¬((@low 8 point).toNat < P256 ∧ (@high 8 point).toNat < P256) := by
    rw [ne_eq, ne_eq, uECCVliCmpUnsafe_eq_one, uECCVliCmpUnsafe_eq_one, curveP_toNat, not_and_or]
  have unfolded : uECCValidPoint point = if eccPointIsZero point then -1
      else if uECCVliCmpUnsafe curveP (@low 8 point) ≠ 1 ∨ uECCVliCmpUnsafe curveP (@high 8 point) ≠ 1 then -2
      else if uECCVliEqual (uECCVliModSquareFast (@high 8 point)) (xSideDefault (@low 8 point)) then -3 else 0 := rfl
  rw [unfolded]
  by_cases isZero : point.toNat = 0
  · rw [if_pos (zero.mpr isZero), if_pos isZero]
  · rw [if_neg (mt zero.mp isZero), if_neg isZero]
    by_cases outside : ¬((@low 8 point).toNat < P256 ∧ (@high 8 point).toNat < P256)
    · rw [if_pos (range.mpr outside), if_pos outside]
    · rw [if_neg (mt range.mp outside), if_neg outside]
      obtain ⟨xReduced, yReduced⟩ := not_not.mp outside
      have x : Represents (@low 8 point) ((@low 8 point).toNat : ZMod P256) := ⟨xReduced, rfl⟩
      have y : Represents (@high 8 point) ((@high 8 point).toNat : ZMod P256) := ⟨yReduced, rfl⟩
      have same := y.square.eq_iff (xSideDefault_represents x)
      rw [← uECCVliEqual_eq_false] at same
      by_cases nonsingular : curve.Nonsingular ((@low 8 point).toNat : ZMod P256) ((@high 8 point).toNat : ZMod P256)
      · rw [if_neg (Bool.eq_false_iff.mp (same.mpr (curve_nonsingular.mp nonsingular))), if_pos nonsingular]
      · rw [if_pos (Bool.eq_true_of_not_eq_false (mt same.mp (mt curve_nonsingular.mpr nonsingular))),
          if_neg nonsingular]

/-- `uECC_valid_point` accepts the reduced affine points of the curve and nothing else. -/
theorem uECCValidPoint_eq_zero {point : Words 16} :
    uECCValidPoint point = 0 ↔ ∃ P : curve.Point, RepresentsCurvePoint point P := by
  rw [uECCValidPoint_eq]
  constructor
  · intro accepted
    split_ifs at accepted with _ reduced nonsingular
    obtain ⟨xReduced, yReduced⟩ := reduced
    exact ⟨.some _ _ nonsingular, WeierstrassCurve.Affine.Point.some_ne_zero _, ⟨xReduced, rfl⟩, ⟨yReduced, rfl⟩⟩
  · rintro ⟨P, nonzero, x, y⟩
    obtain ⟨nonsingular, _⟩ := affineOf_coordinates nonzero
    rw [← x.cast, ← y.cast] at nonsingular
    have reduced : (@low 8 point).toNat < P256 ∧ (@high 8 point).toNat < P256 := ⟨x.reduced, y.reduced⟩
    have apart : point.toNat ≠ 0 := by
      intro zero
      obtain ⟨lowZero, highZero⟩ := coordinates_zero zero
      refine affineOf_ne_zero nonzero (Prod.ext ?_ ?_)
      · rw [← x.cast, lowZero, Nat.cast_zero]
        rfl
      · rw [← y.cast, highZero, Nat.cast_zero]
        rfl
    rw [if_neg apart, if_neg (not_not.mpr reduced), if_pos nonsingular]

/-- An accepted point has the order of the curve: no smaller multiple of it vanishes. -/
theorem uECCValidPoint_order (point : Words 16) :
    uECCValidPoint point = 0 ↔
      ∃ P : curve.Point, RepresentsCurvePoint point P ∧ ∀ k : Nat, k • P = 0 ↔ N256 ∣ k := by
  rw [uECCValidPoint_eq_zero]
  constructor
  · rintro ⟨P, represents⟩
    exact ⟨P, represents, fun _ => nsmul_eq_zero_iff represents.1⟩
  · rintro ⟨P, represents, _⟩
    exact ⟨P, represents⟩

/-- One array for one point. -/
theorem RepresentsCurvePoint.unique {v w : Words 16} {P Q : curve.Point} (first : RepresentsCurvePoint v P)
    (second : RepresentsCurvePoint w Q) : v = w ↔ P = Q := by
  obtain ⟨pNonzero, pPoint⟩ := first
  obtain ⟨qNonzero, qPoint⟩ := second
  have x := pPoint.x.eq_iff qPoint.x
  have y := pPoint.y.eq_iff qPoint.y
  constructor
  · rintro rfl
    have xSame := x.mp rfl
    have ySame := y.mp rfl
    obtain ⟨_, p⟩ := affineOf_coordinates pNonzero
    obtain ⟨_, q⟩ := affineOf_coordinates qNonzero
    rw [p, q]
    exact (WeierstrassCurve.Affine.Point.some.injEq ..).mpr ⟨xSame, ySame⟩
  · rintro rfl
    have low : @low 8 v = @low 8 w := x.mpr rfl
    have high : @high 8 v = @high 8 w := y.mpr rfl
    rw [← @join_low_high 8 v, ← @join_low_high 8 w, low, high]

theorem curveG_represents : RepresentsCurvePoint curveG basePoint := by
  refine ⟨basePoint_coordinates.nonzero, ⟨?_, curveG_congruent.x⟩, ⟨?_, curveG_congruent.y⟩⟩
  · decide +kernel
  · decide +kernel

theorem nativePublic_low (public_key : Buffer 64) :
    (@low 8 (nativePublic public_key)).toNat = BigEndian.value (public_key.slice 0 32) := by
  rw [nativePublic, join_low]
  exact uECCVliBytesToNative_toNat _

theorem nativePublic_high (public_key : Buffer 64) :
    (@high 8 (nativePublic public_key)).toNat = BigEndian.value (public_key.slice 32 32) := by
  rw [nativePublic, join_high]
  exact uECCVliBytesToNative_toNat _

/-- `uECC_valid_public_key` accepts the encodings of the points of the curve other than the base point. -/
theorem uECCValidPublicKey_eq_zero {public_key : Buffer 64} :
    uECCValidPublicKey public_key = 0 ↔
      ∃ P : curve.Point, P ≠ basePoint ∧ RepresentsCurvePoint (nativePublic public_key) P := by
  have unfolded : uECCValidPublicKey public_key = if uECCVliCmpUnsafe (nativePublic public_key) curveG = 0 then -4
      else uECCValidPoint (nativePublic public_key) := rfl
  rw [unfolded]
  by_cases base : nativePublic public_key = curveG
  · rw [if_pos (uECCVliCmpUnsafe_eq_zero.mpr base), base]
    refine iff_of_false (by decide) ?_
    rintro ⟨P, apart, represents⟩
    exact apart ((represents.unique curveG_represents).mp rfl)
  · rw [if_neg (mt uECCVliCmpUnsafe_eq_zero.mp base), uECCValidPoint_eq_zero]
    constructor
    · rintro ⟨P, represents⟩
      exact ⟨P, fun same => base ((represents.unique curveG_represents).mpr same), represents⟩
    · rintro ⟨P, _, represents⟩
      exact ⟨P, represents⟩

/-- The codes of `uECC_valid_public_key` in terms of the bytes: the base point, two zeros, a coordinate that is not
reduced, a pair off the curve. -/
theorem uECCValidPublicKey_codes (public_key : Buffer 64) :
    let x := BigEndian.value (public_key.slice 0 32)
    let y := BigEndian.value (public_key.slice 32 32)
    uECCValidPublicKey public_key = if x = G256.1.val ∧ y = G256.2.val then -4
      else if x = 0 ∧ y = 0 then -1
      else if P256 ≤ x ∨ P256 ≤ y then -2
      else if (y : ZMod P256) ^ 2 = (x : ZMod P256) ^ 3 - 3 * (x : ZMod P256) + B256 then 0 else -3 := by
  intro x y
  have low : (@low 8 (nativePublic public_key)).toNat = x := nativePublic_low public_key
  have high : (@high 8 (nativePublic public_key)).toNat = y := nativePublic_high public_key
  have halves := @toNat_halves 8 (nativePublic public_key)
  have base : nativePublic public_key = curveG ↔ x = G256.1.val ∧ y = G256.2.val := by
    have xBase : (@Words.low 8 curveG).toNat = G256.1.val := by decide +kernel
    have yBase : (@Words.high 8 curveG).toNat = G256.2.val := by decide +kernel
    rw [← low, ← high, ← xBase, ← yBase, toNat_inj, toNat_inj]
    constructor
    · intro same
      rw [same]
      exact ⟨rfl, rfl⟩
    · rintro ⟨sameLow, sameHigh⟩
      rw [← @join_low_high 8 (nativePublic public_key), sameLow, sameHigh]
      exact @join_low_high 8 curveG
  have zero : (nativePublic public_key).toNat = 0 ↔ x = 0 ∧ y = 0 := by
    constructor
    · intro zero
      rw [← low, ← high]
      exact coordinates_zero zero
    · rintro ⟨xZero, yZero⟩
      rw [halves, low, high, xZero, yZero, Nat.mul_zero]
  have range : ¬(x < P256 ∧ y < P256) ↔ P256 ≤ x ∨ P256 ≤ y := by
    rw [not_and_or, Nat.not_lt, Nat.not_lt]
  have onCurve := @curve_nonsingular (x : ZMod P256) (y : ZMod P256)
  rw [curve_a₆] at onCurve
  have unfolded : uECCValidPublicKey public_key = if uECCVliCmpUnsafe (nativePublic public_key) curveG = 0 then -4
      else uECCValidPoint (nativePublic public_key) := rfl
  rw [unfolded, uECCValidPoint_eq, low, high]
  simp only [uECCVliCmpUnsafe_eq_zero, base, zero, range, onCurve]

theorem eccPointComputePublicKey_eq (private_key : Words 8) :
    eccPointComputePublicKey private_key =
      (!eccPointIsZero (eccPointMult curveG (regularScalar private_key) none (curveNumNBits + 1)),
        eccPointMult curveG (regularScalar private_key) none (curveNumNBits + 1)) := by
  obtain ⟨⟨carry, tmp1, tmp2⟩, regularized⟩ : ∃ result, regularizeK private_key = result := ⟨_, rfl⟩
  simp only [eccPointComputePublicKey, regularScalar, regularized]

/-- The computed point is the multiple of the base point, and two zeros for the exceptional keys. -/
theorem eccPointComputePublicKey_represents (private_key : Words 8) :
    RepresentsPoint (coordinatesOf (eccPointComputePublicKey private_key).2)
      (if Exceptional private_key.toNat then 0 else affineOf (private_key.toNat • basePoint)) := by
  have bits : curveNumNBits + 1 = 255 + 2 := rfl
  rw [eccPointComputePublicKey_eq, bits]
  have point := eccPointMult_multiple rfl basePoint_coordinates curveG_congruent represents_none one_ne_zero
    (regularScalar private_key) 255
  rw [scalarOf_regularScalar, multiple_regularized basePoint_coordinates private_key.toNat_lt] at point
  have xNonzero : G256.1 ≠ 0 := by decide +kernel
  rwa [if_congr (or_iff_left xNonzero) rfl rfl] at point

theorem RepresentsPoint.isZero {F : Type*} [Field F] [CharP F P256] {point : Words 16} {p : F × F}
    (represents : RepresentsPoint (coordinatesOf point) p) : eccPointIsZero point = true ↔ p = 0 := by
  have halves := @toNat_halves 8 point
  have x := represents.x.isZero
  have y := represents.y.isZero
  rw [uECCVliIsZero_iff] at x y
  rw [eccPointIsZero, uECCVliIsZero_iff, Prod.ext_iff]
  constructor
  · intro zero
    obtain ⟨lowZero, highZero⟩ := coordinates_zero zero
    exact ⟨x.mp lowZero, y.mp highZero⟩
  · rintro ⟨xZero, yZero⟩
    have lowZero : (@low 8 point).toNat = 0 := x.mpr xZero
    have highZero : (@high 8 point).toNat = 0 := y.mpr yZero
    rw [halves, lowZero, highZero, Nat.mul_zero]

/-- No key is computed for the exceptional keys. -/
theorem eccPointComputePublicKey_computed (private_key : Words 8) :
    (eccPointComputePublicKey private_key).1 = true ↔ ¬Exceptional private_key.toNat := by
  have isZero := (eccPointComputePublicKey_represents private_key).isZero
  have returned : (eccPointComputePublicKey private_key).1 =
      !eccPointIsZero (eccPointComputePublicKey private_key).2 := by
    rw [eccPointComputePublicKey_eq]
  have nonzero : ¬Exceptional private_key.toNat → affineOf (private_key.toNat • basePoint) ≠ 0 := by
    intro regular
    refine affineOf_ne_zero (mt (nsmul_eq_zero_iff basePoint_coordinates.nonzero).mp ?_)
    exact mt (Exceptional.of_dvd private_key.toNat_lt) regular
  rw [returned, Bool.not_eq_true', ← Bool.not_eq_true, isZero, not_iff_not]
  by_cases exceptional : Exceptional private_key.toNat
  · rw [if_pos exceptional]
    exact iff_of_true rfl exceptional
  · rw [if_neg exceptional]
    exact iff_of_false (nonzero exceptional) exceptional

/-- A computed key is the multiple of the base point. -/
theorem eccPointComputePublicKey_point {private_key : Words 8} (regular : ¬Exceptional private_key.toNat) :
    RepresentsCurvePoint (eccPointComputePublicKey private_key).2 (private_key.toNat • basePoint) := by
  have represents := eccPointComputePublicKey_represents private_key
  rw [if_neg regular] at represents
  refine ⟨mt (nsmul_eq_zero_iff basePoint_coordinates.nonzero).mp ?_, represents⟩
  exact mt (Exceptional.of_dvd private_key.toNat_lt) regular

theorem bytesToNative_words (native : Words 8) : uECCVliBytesToNative (uECCVliNativeToBytes 32 native) = native :=
  toNat_inj.mp (@bytesToNative_nativeToBytes 8 native)

theorem value_nativeToBytes (native : Words 8) : BigEndian.value (uECCVliNativeToBytes 32 native) = native.toNat := by
  rw [← uECCVliBytesToNative_toNat, bytesToNative_words]

theorem nativePublic_storePublic (public_key : Buffer 64) (_public : Words 16) :
    nativePublic (storePublic public_key _public) = _public := by
  have x : (storePublic public_key _public).slice 0 32 = uECCVliNativeToBytes 32 (@low 8 _public) := by
    rw [storePublic, Buffer.slice_store_before _ _ (by decide), Buffer.slice_store_bytes _ _ (by decide)]
  have y : (storePublic public_key _public).slice 32 32 = uECCVliNativeToBytes 32 (@high 8 _public) :=
    Buffer.slice_store_bytes _ _ (by decide)
  rw [nativePublic, x, y, bytesToNative_words, bytesToNative_words, join_low_high]

/-- The private keys for which a public key is computed: 1 and the two numbers below the order are not among them. -/
def UsableKey (key : Nat) : Prop := 1 < key ∧ key + 2 < N256

instance (key : Nat) : Decidable (UsableKey key) := inferInstanceAs (Decidable (_ ∧ _))

theorem UsableKey.regular {key : Nat} (usable : UsableKey key) : ¬Exceptional key := by
  obtain ⟨low, high⟩ := usable
  rw [Exceptional]
  omega

theorem usableKey_iff {key : Nat} (below : key < N256) : UsableKey key ↔ ¬Exceptional key := by
  constructor
  · exact UsableKey.regular
  · intro regular
    rw [Exceptional] at regular
    rw [UsableKey]
    omega

/-- A public key is computed for the usable private keys. For all others the key is left as it was. -/
theorem uECCComputePublicKey_eq (private_key : Buffer 32) (public_key : Buffer 64) :
    uECCComputePublicKey private_key public_key = if UsableKey (BigEndian.value private_key)
      then (1, storePublic public_key (eccPointComputePublicKey (uECCVliBytesToNative private_key)).2)
      else (0, public_key) := by
  obtain ⟨_private, native⟩ : ∃ native : Words 8, uECCVliBytesToNative private_key = native := ⟨_, rfl⟩
  have value : _private.toNat = BigEndian.value private_key := by
    rw [← native]
    exact uECCVliBytesToNative_toNat private_key
  have zero : uECCVliIsZero _private = true ↔ _private.toNat = 0 := uECCVliIsZero_iff
  have below : uECCVliCmp curveN _private = 1 ↔ _private.toNat < N256 := by
    rw [uECCVliCmp_eq, uECCVliCmpUnsafe_eq_one, curveN_toNat]
  have computed := eccPointComputePublicKey_computed _private
  have unfolded : uECCComputePublicKey private_key public_key =
      if uECCVliIsZero _private then (0, public_key)
      else if uECCVliCmp curveN _private ≠ 1 then (0, public_key)
      else if !(eccPointComputePublicKey _private).1 then (0, public_key)
        else (1, storePublic public_key (eccPointComputePublicKey _private).2) := by
    obtain ⟨⟨computed, _public⟩, result⟩ : ∃ result, eccPointComputePublicKey _private = result := ⟨_, rfl⟩
    simp only [uECCComputePublicKey, native, result]
  rw [unfolded, native, ← value]
  by_cases usable : UsableKey _private.toNat
  · have regular := usable.regular
    obtain ⟨low, high⟩ := usable
    rw [if_neg (mt zero.mp (by omega)), if_neg (not_not.mpr (below.mpr (by omega))), computed.mpr regular,
      Bool.not_true, if_neg Bool.false_ne_true, if_pos ⟨low, high⟩]
  · rw [if_neg usable]
    split_ifs with isZero above refused
    · rfl
    · rfl
    · rfl
    · have regular := computed.mp (by simpa using refused)
      exact absurd ((usableKey_iff (below.mp (not_not.mp above))).mpr regular) usable

/-- The computed key is the multiple of the base point. -/
theorem uECCComputePublicKey_point {private_key : Buffer 32} (usable : UsableKey (BigEndian.value private_key))
    (public_key : Buffer 64) :
    RepresentsCurvePoint (nativePublic (uECCComputePublicKey private_key public_key).2)
      (BigEndian.value private_key • basePoint) := by
  have value : (uECCVliBytesToNative private_key : Words 8).toNat = BigEndian.value private_key :=
    uECCVliBytesToNative_toNat private_key
  have point := @eccPointComputePublicKey_point (uECCVliBytesToNative private_key) (by
    rw [value]
    exact usable.regular)
  rw [value] at point
  rw [uECCComputePublicKey_eq, if_pos usable, nativePublic_storePublic]
  exact point

theorem uECCComputePublicKey_usable {private_key : Buffer 32} {public_key : Buffer 64}
    (computed : (uECCComputePublicKey private_key public_key).1 = 1) : UsableKey (BigEndian.value private_key) := by
  rw [uECCComputePublicKey_eq] at computed
  by_contra unusable
  rw [if_neg unusable] at computed
  cases computed

/-- A public key is computed exactly for the private keys from 2 to the order less 3, and is that multiple of the base
point. For all others, 1 and the two numbers below the order among them, the key is left as it was. -/
theorem uECCComputePublicKey_exact (private_key : Buffer 32) (public_key : Buffer 64) :
    (UsableKey (BigEndian.value private_key) → (uECCComputePublicKey private_key public_key).1 = 1 ∧
        RepresentsCurvePoint (nativePublic (uECCComputePublicKey private_key public_key).2)
          (BigEndian.value private_key • basePoint)) ∧
      (¬UsableKey (BigEndian.value private_key) →
        uECCComputePublicKey private_key public_key = (0, public_key)) := by
  refine ⟨fun usable => ⟨?_, uECCComputePublicKey_point usable public_key⟩, fun unusable => ?_⟩
  · rw [uECCComputePublicKey_eq, if_pos usable]
  · rw [uECCComputePublicKey_eq, if_neg unusable]

/-- The key computed for a private key is one that `uECC_valid_public_key` accepts. -/
theorem uECCValidPublicKey_computePublicKey {private_key : Buffer 32} {public_key : Buffer 64}
    (computed : (uECCComputePublicKey private_key public_key).1 = 1) :
    uECCValidPublicKey (uECCComputePublicKey private_key public_key).2 = 0 := by
  have usable := uECCComputePublicKey_usable computed
  rw [uECCValidPublicKey_eq_zero]
  refine ⟨_, ?_, uECCComputePublicKey_point usable public_key⟩
  intro same
  obtain ⟨low, high⟩ := usable
  have difference : (BigEndian.value private_key - 1) • basePoint = 0 := by
    apply add_right_cancel (b := basePoint)
    rw [zero_add, ← succ_nsmul, Nat.sub_add_cancel (by omega), same]
  have divides := (nsmul_eq_zero_iff basePoint_coordinates.nonzero).mp difference
  have large := Nat.le_of_dvd (by omega) divides
  omega

/-- The private key 2. -/
def keyTwo : Buffer 32 := fun i => if i = 31 then 2 else 0

theorem keyTwo_value : BigEndian.value keyTwo = 2 := by decide +kernel

theorem keyTwo_usable : UsableKey (BigEndian.value keyTwo) := by
  rw [keyTwo_value]
  decide +kernel

theorem keyTwo_computed (public_key : Buffer 64) : (uECCComputePublicKey keyTwo public_key).1 = 1 := by
  rw [uECCComputePublicKey_eq, if_pos keyTwo_usable]

theorem uECCValidPublicKey_computePublicKey_two :
    uECCValidPublicKey (uECCComputePublicKey keyTwo fun _ => 0).2 = 0 :=
  uECCValidPublicKey_computePublicKey (keyTwo_computed fun _ => 0)

end BleGateway
