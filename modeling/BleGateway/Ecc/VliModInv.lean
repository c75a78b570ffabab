import BleGateway.Ecc.VliMod
import Mathlib.Data.Int.ModEq

namespace BleGateway
open Words

variable {n : Nat}

/-- The macro `EVEN`. -/
def even (vli : Words n) : Bool := vli.get 0 &&& 1 == 0

theorem even_iff {vli : Words n} : even vli = true ↔ 2 ∣ vli.toNat := by
  have word := get_toNat vli 0
  rw [Nat.mul_zero, Nat.pow_zero, Nat.div_one] at word
  have parity : (vli.get 0 &&& 1).toNat = vli.toNat % 2 := by
    rw [UInt32.toNat_and, word, UInt32.toNat_one, Nat.and_one_is_mod]
    omega
  rw [even, beq_iff_eq, ← UInt32.toNat_inj, parity, UInt32.toNat_zero]
  omega

def vliModInvUpdate (uv mod : Words (n + 1)) : Words (n + 1) :=
  let (uv, carry) := if even uv then (uv, 0) else uECCVliAdd uv mod
  let uv := uECCVliRshift1 uv
  if carry != 0 then uv.set n (uv.get n ||| 0x80000000) else uv

structure ModInvState (n : Nat) where
  a : Words n
  b : Words n
  u : Words n
  v : Words n

/-- `u - v`, with `mod` added first where it would be negative. -/
def subCofactor (u v mod : Words n) : Words n :=
  (uECCVliSub (if uECCVliCmpUnsafe u v < 0 then (uECCVliAdd u mod).1 else u) v).1

/-- One round of the loop of `uECC_vli_modInv`. -/
def modInvRound (mod : Words (n + 1)) (state : ModInvState (n + 1)) : ModInvState (n + 1) :=
  let { a, b, u, v } := state
  if even a then
    { a := uECCVliRshift1 a, b := b, u := vliModInvUpdate u mod, v := v }
  else if even b then
    { a := a, b := uECCVliRshift1 b, u := u, v := vliModInvUpdate v mod }
  else if uECCVliCmpUnsafe a b > 0 then
    let a := uECCVliRshift1 (uECCVliSub a b).1
    { a := a, b := b, u := vliModInvUpdate (subCofactor u v mod) mod, v := v }
  else
    let b := uECCVliRshift1 (uECCVliSub b a).1
    { a := a, b := b, u := u, v := vliModInvUpdate (subCofactor v u mod) mod }

/-- The loop, left as soon as `a` and `b` are equal, or after `fuel` rounds. -/
def modInvLoop (mod : Words (n + 1)) : Nat → ModInvState (n + 1) → ModInvState (n + 1)
  | 0, state => state
  | fuel + 1, state =>
    if uECCVliCmpUnsafe state.a state.b = 0 then state else modInvLoop mod fuel (modInvRound mod state)

def uECCVliModInv (input mod : Words (n + 1)) : Words (n + 1) :=
  if uECCVliIsZero input then uECCVliClear (n + 1)
  else
    (modInvLoop mod (64 * (n + 1)) { a := input, b := mod, u := vliOne n, v := uECCVliClear (n + 1) }).u

/-- A carry set as the highest bit of a halved number. -/
theorem set_highest_bit (half : Words (n + 1)) (below : half.toNat < 2 ^ 31 * 2 ^ (32 * n)) :
    (half.set n (half.get n ||| 0x80000000)).toNat = half.toNat + 2 ^ 31 * 2 ^ (32 * n) := by
  have written := set_toNat half (Nat.lt_succ_self n) (half.get n ||| 0x80000000)
  have word := get_toNat half n
  have quotient : half.toNat / 2 ^ (32 * n) < 2 ^ 31 := by
    rw [Nat.div_lt_iff_lt_mul (Nat.two_pow_pos _)]
    exact below
  have small := (word.le.trans (Nat.mod_le _ _)).trans_lt quotient
  have joined : (half.get n ||| 0x80000000).toNat = (half.get n).toNat + 2 ^ 31 * 1 :=
    or_toNat small rfl
  rw [joined, Nat.mul_add, Nat.mul_one, Nat.mul_comm _ (2 ^ 31)] at written
  omega

/-- Half of `uv`, or of `uv + mod` where `uv` is odd, also when the sum leaves the array. -/
theorem vliModInvUpdate_value {uv mod : Words (n + 1)} (odd : ¬2 ∣ mod.toNat) :
    2 * (vliModInvUpdate uv mod).toNat = if 2 ∣ uv.toNat then uv.toNat else uv.toNat + mod.toNat := by
  have parity := @even_iff _ uv
  have halved := uECCVliRshift1_toNat uv
  have sum := uECCVliAdd_value uv mod
  have carryBound := uECCVliAdd_carry_le uv mod
  have halvedSum := uECCVliRshift1_toNat (uECCVliAdd uv mod).1
  have sumBound := (uECCVliAdd uv mod).1.toNat_lt
  rw [pow_words_succ] at sum sumBound
  simp only [vliModInvUpdate]
  by_cases isEven : 2 ∣ uv.toNat
  · rw [if_pos (parity.mpr isEven), if_pos isEven, if_neg (fun set => by cases set), halved]
    omega
  · rw [if_neg (mt parity.mp isEven), if_neg isEven]
    interval_cases carry : (uECCVliAdd uv mod).2.toNat
    · have clear : (uECCVliAdd uv mod).2 = 0 := UInt32.toNat_inj.mp carry
      rw [clear, if_neg (by decide), halvedSum]
      omega
    · have set : (uECCVliAdd uv mod).2 = 1 := UInt32.toNat_inj.mp carry
      rw [set, if_pos (by decide), set_highest_bit _ (by omega), halvedSum]
      omega

/-- `uv` is reduced and stands for `ab` as a multiple of the input. -/
structure Cofactor (input mod ab uv : Nat) : Prop where
  reduced : uv < mod
  multiple : ab ≡ uv * input [MOD mod]

theorem Cofactor.halve {input ab : Nat} {uv mod : Words (n + 1)} (cofactor : Cofactor input mod.toNat ab uv.toNat)
    (odd : ¬2 ∣ mod.toNat) (even : 2 ∣ ab) :
    Cofactor input mod.toNat (ab / 2) (vliModInvUpdate uv mod).toNat := by
  obtain ⟨reduced, multiple⟩ := cofactor
  have value := @vliModInvUpdate_value _ uv mod odd
  have double : 2 * (vliModInvUpdate uv mod).toNat ≡ uv.toNat [MOD mod.toNat] := by
    rw [value]
    split
    · rfl
    · exact Nat.add_modEq_right
  have coprime : mod.toNat.gcd 2 = 1 := Nat.coprime_comm.mp ((Nat.Prime.coprime_iff_not_dvd Nat.prime_two).mpr odd)
  refine ⟨?_, Nat.ModEq.cancel_left_of_coprime coprime ?_⟩
  · split at value <;> omega
  · calc
      2 * (ab / 2) = ab := Nat.mul_div_cancel' even
      _ ≡ uv.toNat * input [MOD mod.toNat] := multiple
      _ ≡ 2 * (vliModInvUpdate uv mod).toNat * input [MOD mod.toNat] := (double.mul_right input).symm
      _ = 2 * ((vliModInvUpdate uv mod).toNat * input) := Nat.mul_assoc ..

/-- The sum with `mod` may leave the array; the difference is back in it. -/
theorem subCofactor_value {u v mod : Words n} (vReduced : v.toNat < mod.toNat) :
    (subCofactor u v mod).toNat + v.toNat = if u.toNat < v.toNat then u.toNat + mod.toNat else u.toNat := by
  have sum := uECCVliAdd_value u mod
  have carryBound := uECCVliAdd_carry_le u mod
  have modBound := mod.toNat_lt
  rw [subCofactor]
  by_cases below : u.toNat < v.toNat
  · have value := uECCVliSub_value (uECCVliAdd u mod).1 v
    have borrowBound := uECCVliSub_borrow_le (uECCVliAdd u mod).1 v
    have sumBound := (uECCVliAdd u mod).1.toNat_lt
    have bound := (uECCVliSub (uECCVliAdd u mod).1 v).1.toNat_lt
    rw [if_pos (uECCVliCmpUnsafe_neg.mpr below), if_pos below]
    interval_cases carry : (uECCVliAdd u mod).2.toNat <;>
      interval_cases borrow : (uECCVliSub (uECCVliAdd u mod).1 v).2.toNat <;> omega
  · have value := uECCVliSub_of_le (Nat.not_lt.mp below)
    rw [if_neg (mt uECCVliCmpUnsafe_neg.mp below), if_neg below, value]
    omega

theorem Cofactor.sub {input a b : Nat} {u v mod : Words n} (left : Cofactor input mod.toNat a u.toNat)
    (right : Cofactor input mod.toNat b v.toNat) (ordered : b ≤ a) :
    Cofactor input mod.toNat (a - b) (subCofactor u v mod).toNat := by
  obtain ⟨leftReduced, leftMultiple⟩ := left
  obtain ⟨rightReduced, rightMultiple⟩ := right
  have value := @subCofactor_value _ u v mod rightReduced
  refine ⟨?_, ?_⟩
  · split at value <;> omega
  · apply Nat.ModEq.add_right_cancel rightMultiple
    rw [Nat.sub_add_cancel ordered, ← Nat.add_mul, value]
    split
    · exact leftMultiple.trans (Nat.add_modEq_right.symm.mul_right input)
    · exact leftMultiple

/-- What every round keeps: one of `a` and `b` is odd, and their greatest common divisor is that of the
input and `mod`. -/
structure Inverting (input : Nat) (mod : Words n) (state : ModInvState n) : Prop where
  left : Cofactor input mod.toNat state.a.toNat state.u.toNat
  right : Cofactor input mod.toNat state.b.toNat state.v.toNat
  positive : 0 < state.a.toNat ∧ 0 < state.b.toNat
  odd : ¬(2 ∣ state.a.toNat ∧ 2 ∣ state.b.toNat)
  gcd : Nat.gcd state.a.toNat state.b.toNat = Nat.gcd input mod.toNat

/-- Halving the even one of two numbers keeps their greatest common divisor. -/
theorem gcd_half {a b : Nat} (even : 2 ∣ a) (odd : ¬2 ∣ b) : Nat.gcd (a / 2) b = Nat.gcd a b := by
  obtain ⟨half, rfl⟩ := even
  rw [Nat.mul_div_cancel_left half (by decide)]
  exact (Nat.Coprime.gcd_mul_left_cancel half ((Nat.Prime.coprime_iff_not_dvd Nat.prime_two).mpr odd)).symm

/-- A round on two odd numbers, the first of them larger. -/
theorem odd_difference {a b : Words n} (aOdd : ¬2 ∣ a.toNat) (bOdd : ¬2 ∣ b.toNat) (above : b.toNat < a.toNat) :
    (uECCVliRshift1 (uECCVliSub a b).1).toNat = (a.toNat - b.toNat) / 2 ∧ 2 ∣ a.toNat - b.toNat ∧
      0 < (a.toNat - b.toNat) / 2 ∧
      Nat.gcd ((a.toNat - b.toNat) / 2) b.toNat = Nat.gcd a.toNat b.toNat ∧
      2 * ((a.toNat - b.toNat) / 2 * b.toNat) ≤ a.toNat * b.toNat := by
  have even : 2 ∣ a.toNat - b.toNat := by omega
  refine ⟨?_, even, by omega, ?_, ?_⟩
  · rw [uECCVliRshift1_toNat, uECCVliSub_of_le above.le]
  · rw [gcd_half even bOdd, Nat.gcd_sub_self_left above.le]
  · rw [← Nat.mul_assoc, Nat.mul_div_cancel' even]
    exact Nat.mul_le_mul_right _ (Nat.sub_le ..)

theorem Inverting.round {input : Nat} {mod : Words (n + 1)} {state : ModInvState (n + 1)}
    (inverting : Inverting input mod state) (oddMod : ¬2 ∣ mod.toNat)
    (apart : uECCVliCmpUnsafe state.a state.b ≠ 0) :
    Inverting input mod (modInvRound mod state) ∧
      2 * ((modInvRound mod state).a.toNat * (modInvRound mod state).b.toNat) ≤ state.a.toNat * state.b.toNat := by
  obtain ⟨a, b, u, v⟩ := state
  obtain ⟨left, right, ⟨aPositive, bPositive⟩, odd, gcd⟩ := inverting
  simp only at left right aPositive bPositive odd gcd apart
  simp only [modInvRound]
  by_cases aEven : 2 ∣ a.toNat
  · have bOdd : ¬2 ∣ b.toNat := fun bEven => odd ⟨aEven, bEven⟩
    have half := left.halve oddMod aEven
    have halfPositive : 0 < a.toNat / 2 := Nat.div_pos (Nat.le_of_dvd aPositive aEven) (by decide)
    rw [if_pos (even_iff.mpr aEven)]
    simp only [← uECCVliRshift1_toNat a] at half halfPositive
    refine ⟨⟨half, right, ⟨halfPositive, bPositive⟩, fun both => bOdd both.2, ?_⟩, ?_⟩
    · rwa [uECCVliRshift1_toNat, gcd_half aEven bOdd]
    · rw [uECCVliRshift1_toNat, ← Nat.mul_assoc, Nat.mul_div_cancel' aEven]
  rw [if_neg (mt even_iff.mp aEven)]
  by_cases bEven : 2 ∣ b.toNat
  · have half := right.halve oddMod bEven
    have halfPositive : 0 < b.toNat / 2 := Nat.div_pos (Nat.le_of_dvd bPositive bEven) (by decide)
    rw [if_pos (even_iff.mpr bEven)]
    simp only [← uECCVliRshift1_toNat b] at half halfPositive
    refine ⟨⟨left, half, ⟨aPositive, halfPositive⟩, fun both => aEven both.1, ?_⟩, ?_⟩
    · rwa [uECCVliRshift1_toNat, Nat.gcd_comm, gcd_half bEven aEven, Nat.gcd_comm]
    · rw [uECCVliRshift1_toNat, Nat.mul_left_comm, Nat.mul_div_cancel' bEven]
  rw [if_neg (mt even_iff.mp bEven)]
  have unequal : a.toNat ≠ b.toNat := fun equal => apart (uECCVliCmpUnsafe_eq_zero.mpr (toNat_inj.mp equal))
  have sign : uECCVliCmpUnsafe a b > 0 ↔ b.toNat < a.toNat := by
    rw [uECCVliCmpUnsafe_eq, gt_iff_lt, Int.sign_pos_iff]
    omega
  by_cases above : b.toNat < a.toNat
  · obtain ⟨value, even, positive, common, measure⟩ := odd_difference aEven bEven above
    have half := (left.sub right above.le).halve oddMod even
    rw [if_pos (sign.mpr above)]
    rw [← value] at half positive common measure
    exact ⟨⟨half, right, ⟨positive, bPositive⟩, fun both => bEven both.2, common.trans gcd⟩, measure⟩
  · have below : a.toNat < b.toNat := by omega
    obtain ⟨value, even, positive, common, measure⟩ := odd_difference bEven aEven below
    have half := (right.sub left below.le).halve oddMod even
    rw [if_neg (mt sign.mp above)]
    rw [← value] at half positive common measure
    refine ⟨⟨left, half, ⟨aPositive, positive⟩, fun both => aEven both.1, ?_⟩, ?_⟩
    · rwa [Nat.gcd_comm, common, Nat.gcd_comm]
    · rwa [Nat.mul_comm _ a.toNat, Nat.mul_comm b.toNat] at measure

/-- Every round halves the product of `a` and `b`, so that the loop is left while fuel remains. -/
theorem modInvLoop_exit {input : Nat} {mod : Words (n + 1)} (oddMod : ¬2 ∣ mod.toNat) (fuel : Nat)
    {state : ModInvState (n + 1)} (inverting : Inverting input mod state)
    (enough : state.a.toNat * state.b.toNat < 2 ^ fuel) :
    Inverting input mod (modInvLoop mod fuel state) ∧
      (modInvLoop mod fuel state).a = (modInvLoop mod fuel state).b := by
  induction fuel generalizing state with
  | zero =>
    have positive := Nat.mul_pos inverting.positive.1 inverting.positive.2
    omega
  | succ fuel ih =>
    rw [modInvLoop]
    by_cases equal : uECCVliCmpUnsafe state.a state.b = 0
    · rw [if_pos equal]
      exact ⟨inverting, uECCVliCmpUnsafe_eq_zero.mp equal⟩
    · obtain ⟨next, halved⟩ := inverting.round oddMod equal
      rw [if_neg equal]
      exact ih next (by omega)

theorem modInv_start {input mod : Words (n + 1)} (oddMod : ¬2 ∣ mod.toNat) (large : 1 < mod.toNat)
    (nonzero : input.toNat ≠ 0) :
    Inverting input.toNat mod { a := input, b := mod, u := vliOne n, v := uECCVliClear (n + 1) } := by
  refine ⟨⟨?_, ?_⟩, ⟨?_, ?_⟩, ⟨Nat.pos_of_ne_zero nonzero, Nat.zero_lt_of_lt large⟩, fun both => oddMod both.2, rfl⟩
  · rwa [vliOne_toNat]
  · rw [vliOne_toNat, Nat.one_mul]
  · rw [uECCVliClear_toNat]
    omega
  · rw [uECCVliClear_toNat, Nat.zero_mul]
    exact Nat.mod_self mod.toNat

theorem product_lt (left right : Words (n + 1)) : left.toNat * right.toNat < 2 ^ (64 * (n + 1)) := by
  rw [show 64 * (n + 1) = 32 * (n + 1) + 32 * (n + 1) by omega, Nat.pow_add]
  exact Nat.mul_lt_mul'' left.toNat_lt right.toNat_lt

/-- For an odd modulus the result times the input is their greatest common divisor, and the result is reduced. -/
theorem uECCVliModInv_value {input mod : Words (n + 1)} (oddMod : ¬2 ∣ mod.toNat) (large : 1 < mod.toNat) :
    (uECCVliModInv input mod).toNat * input.toNat ≡ Nat.gcd input.toNat mod.toNat [MOD mod.toNat] ∧
      (uECCVliModInv input mod).toNat < mod.toNat := by
  rw [uECCVliModInv]
  by_cases zero : input.toNat = 0
  · rw [if_pos (uECCVliIsZero_iff.mpr zero), uECCVliClear_toNat, zero, Nat.gcd_zero_left]
    exact ⟨(Nat.mod_self _).symm, by omega⟩
  · rw [if_neg (mt uECCVliIsZero_iff.mp zero)]
    obtain ⟨inverting, equal⟩ := modInvLoop_exit oddMod _ (modInv_start oddMod large zero) (product_lt input mod)
    have gcd := inverting.gcd
    rw [← equal, Nat.gcd_self] at gcd
    have multiple := inverting.left.multiple
    rw [gcd] at multiple
    exact ⟨multiple.symm, inverting.left.reduced⟩

/-- For an odd modulus the loop is left with `a` equal to `b`, and its result is reduced; it is the inverse of every
number that has one. -/
theorem uECCVliModInv_inverse (input : Words (n + 1)) {mod : Words (n + 1)} (oddMod : ¬2 ∣ mod.toNat)
    (large : 1 < mod.toNat) :
    (uECCVliIsZero input = false → ∃ rounds ≤ 64 * (n + 1),
        let state := modInvLoop mod rounds { a := input, b := mod, u := vliOne n, v := uECCVliClear (n + 1) }
        state.a = state.b ∧ uECCVliModInv input mod = state.u) ∧
      (uECCVliModInv input mod).toNat < mod.toNat ∧
      (Nat.Coprime input.toNat mod.toNat → (uECCVliModInv input mod).toNat * input.toNat % mod.toNat = 1) := by
  obtain ⟨multiple, reduced⟩ := @uECCVliModInv_value n input mod oddMod large
  refine ⟨fun isNonzero => ⟨64 * (n + 1), le_rfl, ?_⟩, reduced, fun coprime => ?_⟩
  · have nonzero : input.toNat ≠ 0 := by
      intro zero
      rw [uECCVliIsZero_iff.mpr zero] at isNonzero
      cases isNonzero
    refine ⟨(modInvLoop_exit oddMod _ (modInv_start oddMod large nonzero) (product_lt input mod)).2, ?_⟩
    rw [uECCVliModInv, if_neg (Bool.eq_false_iff.mp isNonzero)]
  · rw [Nat.Coprime] at coprime
    rwa [coprime, Nat.ModEq, Nat.mod_eq_of_lt large] at multiple

theorem uECCVliModInv_inverse_two_words :
    (@uECCVliModInv 1 ⟨[3, 0], rfl⟩ ⟨[7, 1], rfl⟩).toNat * @Words.toNat (1 + 1) ⟨[3, 0], rfl⟩ %
      @Words.toNat (1 + 1) ⟨[7, 1], rfl⟩ = 1 := by
  have odd : ¬2 ∣ @Words.toNat (1 + 1) ⟨[7, 1], rfl⟩ := by decide +kernel
  have large : 1 < @Words.toNat (1 + 1) ⟨[7, 1], rfl⟩ := by decide +kernel
  have coprime : Nat.Coprime (@Words.toNat (1 + 1) ⟨[3, 0], rfl⟩) (@Words.toNat (1 + 1) ⟨[7, 1], rfl⟩) := by
    decide +kernel
  exact (@uECCVliModInv_inverse 1 ⟨[3, 0], rfl⟩ ⟨[7, 1], rfl⟩ odd large).2.2 coprime

end BleGateway
