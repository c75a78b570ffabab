import BleGateway.Ecc.RandomKeys
import BleGateway.Serial

namespace BleGateway
open Words CoZ

variable {σ : Type}

/-- `uECC_shared_secret`: what it leaves behind, and the state of the generator. `regularize_k` writes `k0` over
`_private`, and the number drawn goes to the array that is not the scalar. -/
def uECCSharedSecret (g_rng_function : Option (UECCRNGFunction σ)) (public_key : Buffer 64)
    (private_key secret : Buffer 32) (s : σ) : SharedSecret × σ :=
  let _private : Words 8 := uECCVliBytesToNative private_key
  let _public := nativePublic public_key
  let (carry, _private, tmp) := regularizeK _private
  let p2 := fun index => if index then tmp else _private
  let finish := fun initial_Z =>
    let _public := eccPointMult _public (p2 !carry) initial_Z (curveNumNBits + 1)
    { secret := uECCVliNativeToBytes 32 (@low 8 _public), ret := (!eccPointIsZero _public).toInt : SharedSecret }
  match g_rng_function with
  | none => (finish none, s)
  | some rng_function =>
    match @uECCGenerateRandomInt _ 7 (some rng_function) curveP s with
    | (none, s) => ({ secret, ret := 0 }, s)
    | (some initial_Z, s) => (finish (some initial_Z), s)

/-- The shared point of a public and a private key, two zeros if there is none. -/
noncomputable def sharedPoint (public_key : Buffer 64) (private_key : Buffer 32) : ZMod P256 × ZMod P256 :=
  multipleThrough (regularized (BigEndian.value private_key))
    (BigEndian.value (public_key.slice 0 32) : ZMod P256) (BigEndian.value (public_key.slice 32 32) : ZMod P256)

/-- The secret is the first coordinate of the point, and the return code tells whether there is a point. -/
structure SharedFrom (result : SharedSecret) (p : ZMod P256 × ZMod P256) : Prop where
  secret : BigEndian.value result.secret = p.1.val
  ret : result.ret = if p = 0 then 0 else 1

theorem SharedFrom.unique {first second : SharedSecret} {p : ZMod P256 × ZMod P256} (one : SharedFrom first p)
    (other : SharedFrom second p) : first = second := by
  have secrets := BigEndian.value_inj.mp (one.secret.trans other.secret.symm)
  have codes := one.ret.trans other.ret.symm
  cases first
  cases second
  simp only at secrets codes
  rw [secrets, codes]

section run

variable (public_key : Buffer 64) (private_key : Buffer 32)

/-- What is left behind once the denominator at the start is chosen. -/
def sharedWith (initial_Z : Option (Words 8)) : SharedSecret :=
  let _public := eccPointMult (nativePublic public_key) (regularScalar (uECCVliBytesToNative private_key)) initial_Z
    (curveNumNBits + 1)
  { secret := uECCVliNativeToBytes 32 (@low 8 _public), ret := (!eccPointIsZero _public).toInt }

theorem uECCSharedSecret_eq (g_rng_function : Option (UECCRNGFunction σ)) (secret : Buffer 32) (s : σ) :
    uECCSharedSecret g_rng_function public_key private_key secret s =
      match g_rng_function with
      | none => (sharedWith public_key private_key none, s)
      | some rng_function =>
        match @uECCGenerateRandomInt _ 7 (some rng_function) curveP s with
        | (none, s) => ({ secret, ret := 0 }, s)
        | (some initial_Z, s) => (sharedWith public_key private_key (some initial_Z), s) := by
  obtain ⟨⟨carry, k0, k1⟩, regularized⟩ : ∃ result, regularizeK (uECCVliBytesToNative private_key) = result := ⟨_, rfl⟩
  simp only [uECCSharedSecret, sharedWith, regularScalar, regularized]

variable {public_key private_key}

theorem nativePublic_congruent (public_key : Buffer 64) :
    Congruent (coordinatesOf (nativePublic public_key))
      ((BigEndian.value (public_key.slice 0 32) : ZMod P256),
        (BigEndian.value (public_key.slice 32 32) : ZMod P256)) := by
  have x := nativePublic_low public_key
  have y := nativePublic_high public_key
  exact ⟨congrArg Nat.cast x, congrArg Nat.cast y⟩

theorem Represents.val {v : Words 8} {x : ZMod P256} (represents : Represents v x) : v.toNat = x.val := by
  rw [← represents.cast, ZMod.val_natCast_of_lt represents.reduced]

/-- Any denominator but zero gives the shared point. -/
theorem sharedWith_sharedFrom {initial_Z : Option (Words 8)} {z : ZMod P256}
    (denominator : Represents (initial_Z.getD (vliOne 7)) z) (nonzero : z ≠ 0) :
    SharedFrom (sharedWith public_key private_key initial_Z) (sharedPoint public_key private_key) := by
  have scalar : (uECCVliBytesToNative private_key : Words 8).toNat = BigEndian.value private_key :=
    uECCVliBytesToNative_toNat private_key
  have point := eccPointMult_through (nativePublic_congruent public_key) denominator nonzero
    (uECCVliBytesToNative private_key)
  rw [scalar] at point
  have isZero := point.isZero
  refine ⟨?_, ?_⟩
  · exact (value_nativeToBytes _).trans point.x.val
  · rw [sharedWith, sharedPoint]
    split_ifs with none
    · simp only [isZero.mpr none]
      rfl
    · simp only [Bool.eq_false_iff.mpr (mt isZero.mp none)]
      rfl

/-- With a generator the outcome is the shared point too, unless the generator gives no number. -/
theorem uECCSharedSecret_cases (g_rng_function : Option (UECCRNGFunction σ)) (secret : Buffer 32) (s : σ) :
    SharedFrom (uECCSharedSecret g_rng_function public_key private_key secret s).1
        (sharedPoint public_key private_key) ∨
      g_rng_function ≠ none ∧ (@uECCGenerateRandomInt _ 7 g_rng_function curveP s).1 = none ∧
        (uECCSharedSecret g_rng_function public_key private_key secret s).1 = { secret, ret := 0 } := by
  rw [uECCSharedSecret_eq]
  cases g_rng_function with
  | none => exact Or.inl (@sharedWith_sharedFrom public_key private_key none 1 represents_one one_ne_zero)
  | some rng_function =>
    obtain ⟨⟨number, s'⟩, drawn⟩ : ∃ result, @uECCGenerateRandomInt _ 7 (some rng_function) curveP s = result :=
      ⟨_, rfl⟩
    simp only [drawn]
    match number with
    | none => exact Or.inr ⟨Option.some_ne_none _, rfl, rfl⟩
    | some initial_Z =>
      obtain ⟨positive, below⟩ := uECCGenerateRandomInt_range (by decide) drawn
      rw [curveP_toNat] at below
      have denominator : Represents ((some initial_Z).getD (vliOne 7)) (initial_Z.toNat : ZMod P256) := ⟨below, rfl⟩
      have nonzero : (initial_Z.toNat : ZMod P256) ≠ 0 := by
        rw [ne_eq, ZMod.natCast_eq_zero_iff]
        intro divides
        exact Nat.not_le_of_lt below (Nat.le_of_dvd positive divides)
      exact Or.inl (sharedWith_sharedFrom denominator nonzero)

/-- A return code of 1 stands for a shared point. -/
theorem uECCSharedSecret_ret {g_rng_function : Option (UECCRNGFunction σ)} {secret : Buffer 32} {s : σ}
    (returned : (uECCSharedSecret g_rng_function public_key private_key secret s).1.ret = 1) :
    BigEndian.value (uECCSharedSecret g_rng_function public_key private_key secret s).1.secret =
        (sharedPoint public_key private_key).1.val ∧ sharedPoint public_key private_key ≠ 0 := by
  rcases uECCSharedSecret_cases g_rng_function secret s with shared | ⟨_, _, failed⟩
  · refine ⟨shared.secret, fun zero => ?_⟩
    rw [shared.ret, if_pos zero] at returned
    cases returned
  · rw [failed] at returned
    cases returned

/-- The bytes of a public key are the coordinates of a point of the curve, whether or not these are reduced. -/
structure EncodesPoint (public_key : Buffer 64) (P : curve.Point) : Prop where
  nonzero : P ≠ 0
  congruent : Congruent (coordinatesOf (nativePublic public_key)) (affineOf P)

theorem RepresentsCurvePoint.encodes {P : curve.Point} (represents : RepresentsCurvePoint (nativePublic public_key) P) :
    EncodesPoint public_key P := ⟨represents.1, represents.2.congruent⟩

theorem sharedPoint_multiple {P : curve.Point} (encodes : EncodesPoint public_key P) :
    sharedPoint public_key private_key = CoZ.multiple P 255 (regularized (BigEndian.value private_key)) := by
  have native := nativePublic_congruent public_key
  have x : (BigEndian.value (public_key.slice 0 32) : ZMod P256) = (affineOf P).1 :=
    native.x.symm.trans encodes.congruent.x
  have y : (BigEndian.value (public_key.slice 32 32) : ZMod P256) = (affineOf P).2 :=
    native.y.symm.trans encodes.congruent.y
  rw [sharedPoint, x, y, multipleThrough_curve (affineOf_coordinates encodes.nonzero)]

theorem private_value_lt (private_key : Buffer 32) : BigEndian.value private_key < 2 ^ 256 :=
  (BigEndian.value_lt private_key).trans_eq (by norm_num)

/-- On the curve the shared point is the multiple by the private key. -/
theorem sharedPoint_curve {P : curve.Point} (encodes : EncodesPoint public_key P) :
    sharedPoint public_key private_key =
      if Exceptional (BigEndian.value private_key) ∨ (affineOf P).1 = 0 then 0
      else affineOf (BigEndian.value private_key • P) := by
  rw [sharedPoint_multiple encodes,
    multiple_regularized (affineOf_coordinates encodes.nonzero) (private_value_lt private_key)]

theorem sharedPoint_eq_zero {P : curve.Point} (encodes : EncodesPoint public_key P) :
    sharedPoint public_key private_key = 0 ↔ Exceptional (BigEndian.value private_key) ∨ (affineOf P).1 = 0 := by
  rw [sharedPoint_multiple encodes,
    multiple_eq_zero (affineOf_coordinates encodes.nonzero) (private_value_lt private_key)]

theorem sharedPoint_public {a b : Buffer 32} (usable : UsableKey (BigEndian.value b)) {before : Buffer 64}
    (shared : sharedPoint (uECCComputePublicKey b before).2 a ≠ 0) :
    sharedPoint (uECCComputePublicKey b before).2 a =
      affineOf ((BigEndian.value a * BigEndian.value b) • basePoint) := by
  have encodes := (uECCComputePublicKey_point usable before).encodes
  have point := @sharedPoint_curve (uECCComputePublicKey b before).2 a _ encodes
  rw [point] at shared ⊢
  split_ifs at shared with reason
  · exact absurd rfl shared
  · rw [if_neg reason, mul_comm, mul_nsmul]

theorem uECCSharedSecret_plain (secret : Buffer 32) (s : σ) :
    SharedFrom (uECCSharedSecret none public_key private_key secret s).1 (sharedPoint public_key private_key) := by
  rcases uECCSharedSecret_cases none secret s with shared | ⟨some, _⟩
  · exact shared
  · exact absurd rfl some

theorem SharedFrom.ret_eq_one {result : SharedSecret} {p : ZMod P256 × ZMod P256} (shared : SharedFrom result p) :
    result.ret = 1 ↔ p ≠ 0 := by
  rw [shared.ret]
  split_ifs with zero
  · exact iff_of_false (by decide) (not_not.mpr zero)
  · exact iff_of_true rfl zero

theorem SharedFrom.zeros {result : SharedSecret} (shared : SharedFrom result 0) :
    result.ret = 0 ∧ result.secret = fun _ => 0 := by
  have secret := shared.secret
  rw [Prod.fst_zero, ZMod.val_zero, BigEndian.value_eq_zero] at secret
  exact ⟨shared.ret.trans (if_pos rfl), secret⟩

/-- Without a generator, as this program is, and with the public key of a point of the curve the secret is the first
coordinate of its multiple by the private key. For the exceptional private keys and the points with `x = 0` it is zeros,
and the return code 0. -/
theorem uECCSharedSecret_curve {P : curve.Point} (encodes : EncodesPoint public_key P) (secret : Buffer 32) (s : σ) :
    let result := (uECCSharedSecret none public_key private_key secret s).1
    (Exceptional (BigEndian.value private_key) ∨ (affineOf P).1 = 0 → result.ret = 0 ∧ result.secret = fun _ => 0) ∧
      (¬(Exceptional (BigEndian.value private_key) ∨ (affineOf P).1 = 0) →
        result.ret = 1 ∧ ∃ x y, Coordinates (BigEndian.value private_key • P) x y ∧
          BigEndian.value result.secret = x.val) := by
  have shared := @uECCSharedSecret_plain σ public_key private_key secret s
  have zero := @sharedPoint_eq_zero public_key private_key P encodes
  have point := @sharedPoint_curve public_key private_key P encodes
  constructor
  · intro reason
    rw [zero.mpr reason] at shared
    exact shared.zeros
  · intro regular
    rw [if_neg regular] at point
    have nonzero : BigEndian.value private_key • P ≠ 0 := by
      rw [ne_eq, nsmul_eq_zero_iff encodes.nonzero]
      exact fun divides => regular (Or.inl (Exceptional.of_dvd (private_value_lt private_key) divides))
    refine ⟨shared.ret_eq_one.mpr (mt zero.mp regular), _, _, affineOf_coordinates nonzero, ?_⟩
    rw [shared.secret, point]

/-- The public key of 2 and its point. -/
theorem keyTwo_encodes (before : Buffer 64) :
    EncodesPoint (uECCComputePublicKey keyTwo before).2 (2 • basePoint) ∧ (affineOf (2 • basePoint)).1 ≠ 0 := by
  have point := (uECCComputePublicKey_point keyTwo_usable before).encodes
  rw [keyTwo_value] at point
  refine ⟨point, ?_⟩
  rw [double_coordinates.affineOf]
  decide +kernel

theorem uECCSharedSecret_curve_two :
    (uECCSharedSecret none (uECCComputePublicKey keyTwo fun _ => 0).2 keyTwo (fun _ => 0) ()).1.ret = 1 := by
  obtain ⟨encodes, xNonzero⟩ := keyTwo_encodes fun _ => 0
  exact ((uECCSharedSecret_curve encodes (fun _ => 0) ()).2
    (not_or.mpr ⟨keyTwo_usable.regular, xNonzero⟩)).1

/-- Nothing is asked of the public key: with the bytes of any pair of coordinates the code computes on the curve that
these lie on, with the regularized private key for the scalar. No generator is installed. -/
theorem uECCSharedSecret_anyKey (public_key : Buffer 64) (private_key secret : Buffer 32) (s : σ) :
    let x : ZMod P256 := BigEndian.value (public_key.slice 0 32)
    let y : ZMod P256 := BigEndian.value (public_key.slice 32 32)
    let k := regularized (BigEndian.value private_key)
    let result := (uECCSharedSecret none public_key private_key secret s).1
    (y = 0 → result.ret = 0 ∧ result.secret = fun _ => 0) ∧
      ∀ yNonzero : y ≠ 0,
        (Degenerate (pointThrough x yNonzero) 255 k → result.ret = 0 ∧ result.secret = fun _ => 0) ∧
          (¬Degenerate (pointThrough x yNonzero) 255 k →
            ∃ p : ZMod P256 × ZMod P256, Coordinates (k • pointThrough x yNonzero) p.1 p.2 ∧
              BigEndian.value result.secret = p.1.val ∧ (result.ret = 1 ↔ p ≠ 0)) := by
  intro x y k result
  have shared : SharedFrom result (multipleThrough k x y) := uECCSharedSecret_plain secret s
  constructor
  · intro yZero
    rw [multipleThrough, dif_pos yZero] at shared
    exact shared.zeros
  · intro yNonzero
    rw [multipleThrough, dif_neg yNonzero] at shared
    constructor
    · intro degenerate
      rw [CoZ.multiple, if_pos degenerate] at shared
      exact shared.zeros
    · intro regular
      have top : k / 2 ^ (255 + 1) = 1 := regularized_top (private_value_lt private_key)
      have affine : Coordinates (pointThrough x yNonzero) x y := ⟨through_nonsingular yNonzero, rfl⟩
      exact ⟨_, multiple_coordinates affine rfl field_two_ne_zero top regular, shared.secret, shared.ret_eq_one⟩

/-- A random denominator does not change what is left behind; without one nothing is written. -/
theorem uECCSharedSecret_blinded (rng_function : UECCRNGFunction σ) (secret before : Buffer 32) (s s' : σ) :
    (uECCSharedSecret (some rng_function) public_key private_key secret s).1 =
      if (@uECCGenerateRandomInt _ 7 (some rng_function) curveP s).1.isNone then { secret, ret := 0 }
      else (uECCSharedSecret none public_key private_key before s').1 := by
  rcases uECCSharedSecret_cases (some rng_function) secret s with shared | ⟨_, failed, untouched⟩
  · split_ifs with none
    · rw [Option.isNone_iff_eq_none] at none
      rw [uECCSharedSecret_eq]
      obtain ⟨⟨number, after⟩, drawn⟩ : ∃ result, @uECCGenerateRandomInt _ 7 (some rng_function) curveP s = result :=
        ⟨_, rfl⟩
      rw [drawn] at none
      subst none
      simp only [drawn]
    · exact shared.unique (uECCSharedSecret_plain before s')
  · rw [failed, untouched]
    rfl

/-- Two parties that each have a secret with the other's public key have the same secret. -/
theorem uECCSharedSecret_agreement {τ : Type} {a b secretA secretB : Buffer 32} {beforeA beforeB : Buffer 64}
    {rngA : Option (UECCRNGFunction σ)} {rngB : Option (UECCRNGFunction τ)} {s : σ} {t : τ}
    (keyA : (uECCComputePublicKey a beforeA).1 = 1) (keyB : (uECCComputePublicKey b beforeB).1 = 1)
    (returnedA : (uECCSharedSecret rngA (uECCComputePublicKey b beforeB).2 a secretA s).1.ret = 1)
    (returnedB : (uECCSharedSecret rngB (uECCComputePublicKey a beforeA).2 b secretB t).1.ret = 1) :
    (uECCSharedSecret rngA (uECCComputePublicKey b beforeB).2 a secretA s).1.secret =
      (uECCSharedSecret rngB (uECCComputePublicKey a beforeA).2 b secretB t).1.secret := by
  have usableA := uECCComputePublicKey_usable keyA
  have usableB := uECCComputePublicKey_usable keyB
  obtain ⟨valueA, sharedA⟩ := uECCSharedSecret_ret returnedA
  obtain ⟨valueB, sharedB⟩ := uECCSharedSecret_ret returnedB
  rw [← BigEndian.value_inj, valueA, valueB, sharedPoint_public usableB sharedA,
    sharedPoint_public usableA sharedB, Nat.mul_comm]

theorem uECCSharedSecret_agreement_two :
    (uECCSharedSecret none (uECCComputePublicKey keyTwo fun _ => 0).2 keyTwo (fun _ => 1) ()).1.secret =
      (uECCSharedSecret none (uECCComputePublicKey keyTwo fun _ => 0).2 keyTwo (fun _ => 0) ()).1.secret := by
  obtain ⟨encodes, xNonzero⟩ := keyTwo_encodes fun _ => 0
  have shared : sharedPoint (uECCComputePublicKey keyTwo fun _ => 0).2 keyTwo ≠ 0 := by
    rw [ne_eq, sharedPoint_eq_zero encodes, not_or]
    exact ⟨keyTwo_usable.regular, xNonzero⟩
  exact uECCSharedSecret_agreement (keyTwo_computed _) (keyTwo_computed _)
    ((uECCSharedSecret_plain _ ()).ret_eq_one.mpr shared) ((uECCSharedSecret_plain _ ()).ret_eq_one.mpr shared)

end run

end BleGateway
