import BleGateway.Ecc.Secp256r1

namespace BleGateway
open Words

variable {F : Type*} [Field F]

/-- The words are those of the reduced number that stands for `x`, in a field of the curve's characteristic. -/
structure Represents (v : Words 8) (x : F) : Prop where
  reduced : v.toNat < P256
  cast : (v.toNat : F) = x

variable {v l r : Words 8} {x y : F}

theorem Represents.congr (represents : Represents v x) (same : x = y) : Represents v y := by
  subst same
  exact represents

theorem Represents.below (represents : Represents v x) : v.toNat < curveP.toNat :=
  represents.reduced.trans_eq curveP_toNat.symm

variable [CharP F P256]

/-- Two arrays for one number of the field are the same words. -/
theorem Represents.eq_iff (left : Represents l x) (right : Represents r y) : l = r ↔ x = y := by
  rw [← left.cast, ← right.cast, ← toNat_inj]
  constructor
  · exact congrArg _
  · intro same
    have residues := (CharP.natCast_eq_natCast F P256).mp same
    rwa [Nat.ModEq, Nat.mod_eq_of_lt left.reduced, Nat.mod_eq_of_lt right.reduced] at residues

theorem represents_mod {number : Nat} (value : v.toNat = number % P256) : Represents v (number : F) := by
  refine ⟨?_, ?_⟩
  · rw [value]
    exact Nat.mod_lt _ (by decide +kernel)
  · rw [value, ← CharP.cast_eq_mod]

theorem represents_clear : Represents (uECCVliClear 8) (0 : F) :=
  (represents_mod (uECCVliClear_toNat 8)).congr Nat.cast_zero

theorem represents_one : Represents (vliOne 7) (1 : F) :=
  (represents_mod (vliOne_toNat 7)).congr Nat.cast_one

/-- Without an `initial_Z` the denominator is one. -/
theorem represents_none : Represents ((none : Option (Words 8)).getD (vliOne 7)) (1 : F) := represents_one

theorem Represents.isZero (represents : Represents v x) : uECCVliIsZero v = true ↔ x = 0 := by
  rw [uECCVliIsZero_iff, ← represents.eq_iff represents_clear, ← toNat_inj, uECCVliClear_toNat]

theorem represents_mult (l r : Words 8) : Represents (uECCVliModMultFast l r) ((l.toNat : F) * (r.toNat : F)) :=
  (represents_mod (uECCVliModMultFast_value l r)).congr (Nat.cast_mul ..)

theorem Represents.mult (left : Represents l x) (right : Represents r y) :
    Represents (uECCVliModMultFast l r) (x * y) := by
  have product := @represents_mult F _ _ l r
  rwa [left.cast, right.cast] at product

theorem Represents.square (represents : Represents v x) : Represents (uECCVliModSquareFast v) (x ^ 2) := by
  rw [uECCVliModSquareFast_eq, sq]
  exact represents.mult represents

theorem Represents.add (left : Represents l x) (right : Represents r y) :
    Represents (uECCVliModAdd l r curveP) (x + y) := by
  have value := uECCVliModAdd_value left.below right.below
  rw [curveP_toNat] at value
  refine (represents_mod value).congr ?_
  rw [Nat.cast_add, left.cast, right.cast]

theorem Represents.sub (left : Represents l x) (right : Represents r y) :
    Represents (uECCVliModSub l r curveP) (x - y) := by
  have value := uECCVliModSub_value left.below right.below
  rw [curveP_toNat] at value
  refine (represents_mod value).congr ?_
  rw [Nat.cast_add, Nat.cast_sub right.reduced.le, CharP.cast_eq_zero F P256, left.cast, right.cast]
  ring

/-- The binary inversion is the inverse of the field, and zero for zero. -/
theorem Represents.inv (represents : Represents v x) : Represents (@uECCVliModInv 7 v curveP) x⁻¹ := by
  have odd : ¬2 ∣ curveP.toNat := by
    rw [curveP_toNat]
    decide +kernel
  have large : 1 < curveP.toNat := by
    rw [curveP_toNat]
    decide +kernel
  obtain ⟨multiple, reduced⟩ := @uECCVliModInv_value 7 v curveP odd large
  rw [curveP_toNat] at multiple reduced
  refine ⟨reduced, ?_⟩
  by_cases zero : x = 0
  · have isZero := represents.isZero.mpr zero
    rw [zero, inv_zero, uECCVliModInv, if_pos isZero, uECCVliClear_toNat, Nat.cast_zero]
  · have coprime : Nat.gcd v.toNat P256 = 1 := by
      apply Nat.Coprime.symm
      apply (Nat.Prime.coprime_iff_not_dvd p256_fact.out).mpr
      rwa [← CharP.cast_eq_zero_iff F P256, represents.cast]
    rw [coprime, ← CharP.natCast_eq_natCast F P256, Nat.cast_mul, represents.cast, Nat.cast_one] at multiple
    exact eq_inv_of_mul_eq_one_left multiple

end BleGateway
