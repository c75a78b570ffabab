import BleGateway.Ecc.VliMult

namespace BleGateway
open Words

variable {n : Nat}

def uECCVliModAdd (left right mod : Words n) : Words n :=
  let (result, carry) := uECCVliAdd left right
  if carry != 0 || uECCVliCmpUnsafe mod result != 1 then (uECCVliSub result mod).1 else result

def uECCVliModSub (left right mod : Words n) : Words n :=
  let (result, l_borrow) := uECCVliSub left right
  if l_borrow != 0 then (uECCVliAdd result mod).1 else result

/-- The sum of two reduced numbers is reduced, whether or not it leaves the array. -/
theorem uECCVliModAdd_value {left right mod : Words n} (leftReduced : left.toNat < mod.toNat)
    (rightReduced : right.toNat < mod.toNat) :
    (uECCVliModAdd left right mod).toNat = (left.toNat + right.toNat) % mod.toNat := by
  have value := uECCVliAdd_value left right
  have carryBound := uECCVliAdd_carry_le left right
  have modBound := mod.toNat_lt
  have difference := uECCVliSub_value (uECCVliAdd left right).1 mod
  have borrow := uECCVliSub_borrow (uECCVliAdd left right).1 mod
  have test : ((uECCVliAdd left right).2 != 0 || uECCVliCmpUnsafe mod (uECCVliAdd left right).1 != 1) = true ↔
      mod.toNat ≤ left.toNat + right.toNat := by
    rw [Bool.or_eq_true, bne_iff_ne, bne_iff_ne, ne_eq, ne_eq, uECCVliCmpUnsafe_eq_one, ← UInt32.toNat_inj,
      UInt32.toNat_zero]
    have bound := (uECCVliAdd left right).1.toNat_lt
    interval_cases carry : (uECCVliAdd left right).2.toNat <;> omega
  simp only [uECCVliModAdd]
  by_cases large : mod.toNat ≤ left.toNat + right.toNat
  · rw [if_pos (test.mpr large), Nat.mod_eq_sub_mod large, Nat.mod_eq_of_lt (by omega)]
    have sumBound := (uECCVliSub (uECCVliAdd left right).1 mod).1.toNat_lt
    rw [borrow] at difference
    interval_cases carry : (uECCVliAdd left right).2.toNat
    · rw [if_neg (by omega)] at difference
      omega
    · rw [if_pos (by omega)] at difference
      omega
  · rw [if_neg (mt test.mp large), Nat.mod_eq_of_lt (Nat.not_le.mp large)]
    interval_cases carry : (uECCVliAdd left right).2.toNat <;> omega

/-- A negative difference of two reduced numbers comes back as its residue. -/
theorem uECCVliModSub_value {left right mod : Words n} (leftReduced : left.toNat < mod.toNat)
    (rightReduced : right.toNat < mod.toNat) :
    (uECCVliModSub left right mod).toNat = (left.toNat + (mod.toNat - right.toNat)) % mod.toNat := by
  have value := uECCVliSub_value left right
  have borrow := uECCVliSub_borrow left right
  have modBound := mod.toNat_lt
  have sum := uECCVliAdd_value (uECCVliSub left right).1 mod
  have carryBound := uECCVliAdd_carry_le (uECCVliSub left right).1 mod
  have sumBound := (uECCVliAdd (uECCVliSub left right).1 mod).1.toNat_lt
  simp only [uECCVliModSub]
  by_cases below : left.toNat < right.toNat
  · rw [if_pos below] at borrow
    rw [borrow] at value
    have set : (uECCVliSub left right).2 = 1 := UInt32.toNat_inj.mp borrow
    rw [set, if_pos (by decide), Nat.mod_eq_of_lt (by omega)]
    interval_cases carry : (uECCVliAdd (uECCVliSub left right).1 mod).2.toNat <;> omega
  · rw [if_neg below] at borrow
    rw [borrow] at value
    have clear : (uECCVliSub left right).2 = 0 := UInt32.toNat_inj.mp borrow
    rw [clear, if_neg (by decide), Nat.mod_eq_sub_mod (by omega), Nat.mod_eq_of_lt (by omega)]
    omega

attribute [irreducible] uECCVliModAdd uECCVliModSub

/-- The words of `mod << bit_shift`, with the carry into each. -/
def shiftWords (bit_shift : Nat) : List UInt32 → UInt32 → List UInt32
  | [], _ => []
  | word :: rest, carry =>
    (word <<< UInt32.ofNat bit_shift ||| carry) :: shiftWords bit_shift rest (word >>> UInt32.ofNat (32 - bit_shift))

/-- `mod_multiple` before the loop of `uECC_vli_mmod`, whose array is twice as long as `mod`. -/
def modMultiple (mod : Words n) : Words (2 * n) where
  words :=
    let shift := n * 2 * 32 - uECCVliNumBits mod
    let word_shift := shift / 32
    let bit_shift := shift % 32
    let shifted := if bit_shift > 0 then shiftWords bit_shift mod.words 0 else mod.words
    (List.replicate word_shift 0 ++ shifted ++ List.replicate (2 * n) 0).take (2 * n)
  length_eq := by
    rw [List.length_take, List.length_append, List.length_replicate]
    omega

theorem shift_word (word carry : UInt32) {bit_shift : Nat} (positive : 0 < bit_shift) (small : bit_shift < 32)
    (below : carry.toNat < 2 ^ bit_shift) :
    (word <<< UInt32.ofNat bit_shift ||| carry).toNat +
        2 ^ 32 * (word >>> UInt32.ofNat (32 - bit_shift)).toNat = 2 ^ bit_shift * word.toNat + carry.toNat ∧
      (word >>> UInt32.ofNat (32 - bit_shift)).toNat < 2 ^ bit_shift := by
  have bound := word.toNat_lt
  have base : 2 ^ 32 = 2 ^ (32 - bit_shift) * 2 ^ bit_shift := (pow_sub_mul_pow 2 small.le).symm
  have up : (word <<< UInt32.ofNat bit_shift).toNat = 2 ^ bit_shift * (word.toNat % 2 ^ (32 - bit_shift)) := by
    rw [shiftLeft_toNat word small, base, Nat.mul_comm, Nat.mul_mod_mul_right, Nat.mul_comm]
  have down : (word >>> UInt32.ofNat (32 - bit_shift)).toNat = word.toNat / 2 ^ (32 - bit_shift) :=
    shiftRight_toNat word (by omega)
  rw [UInt32.toNat_or, up, down, ← Nat.two_pow_add_eq_or_of_lt below]
  constructor
  · calc
      _ = 2 ^ bit_shift * (2 ^ (32 - bit_shift) * (word.toNat / 2 ^ (32 - bit_shift)) +
            word.toNat % 2 ^ (32 - bit_shift)) + carry.toNat := by
        rw [base]
        ring
      _ = _ := by rw [Nat.div_add_mod]
  · rw [Nat.div_lt_iff_lt_mul (Nat.two_pow_pos _), Nat.mul_comm, ← base]
    exact bound

theorem shiftWords_length (bit_shift : Nat) (words : List UInt32) (carry : UInt32) :
    (shiftWords bit_shift words carry).length = words.length := by
  induction words generalizing carry with
  | nil => rfl
  | cons word rest ih => exact congrArg (· + 1) (ih _)

theorem shiftWords_value {bit_shift : Nat} (positive : 0 < bit_shift) (small : bit_shift < 32)
    (words : List UInt32) (carry : UInt32) (below : carry.toNat < 2 ^ bit_shift) :
    ∃ out, valueOf (shiftWords bit_shift words carry) + 2 ^ (32 * words.length) * out =
      2 ^ bit_shift * valueOf words + carry.toNat := by
  induction words generalizing carry with
  | nil => exact ⟨carry.toNat, by simp [shiftWords]⟩
  | cons word rest ih =>
    obtain ⟨step, next⟩ := shift_word word carry positive small below
    obtain ⟨out, value⟩ := ih _ next
    refine ⟨out, ?_⟩
    simp only [shiftWords, valueOf_cons, List.length_cons, pow_words_succ, Nat.mul_assoc]
    have scaled : 2 ^ bit_shift * (word.toNat + 2 ^ 32 * valueOf rest) =
        2 ^ bit_shift * word.toNat + 2 ^ 32 * (2 ^ bit_shift * valueOf rest) := by ring
    rw [scaled]
    omega

theorem full_of_get {mod : Words (n + 1)} (highest : mod.get n ≠ 0) : 2 ^ (32 * n) ≤ mod.toNat := by
  by_contra below
  apply highest
  rw [← UInt32.toNat_inj, get_toNat, Nat.div_eq_of_lt (Nat.not_le.mp below), Nat.zero_mod, UInt32.toNat_zero]

theorem mod_size {mod : Words (n + 1)} (full : 2 ^ (32 * n) ≤ mod.toNat) :
    32 * n < mod.toNat.size ∧ mod.toNat.size ≤ 32 * (n + 1) :=
  ⟨Nat.lt_size.mpr full, Nat.size_le.mpr mod.toNat_lt⟩

/-- Where the highest word of `mod` is not zero, `mod_multiple` is `mod` with its highest bit moved to the top. -/
theorem modMultiple_value {mod : Words (n + 1)} (full : 2 ^ (32 * n) ≤ mod.toNat) :
    (modMultiple mod).toNat = 2 ^ (64 * (n + 1) - mod.toNat.size) * mod.toNat := by
  obtain ⟨low, high⟩ := mod_size full
  obtain ⟨s, shift⟩ : ∃ s, 64 * (n + 1) - mod.toNat.size = 32 * (n + 1) + s := ⟨32 * (n + 1) - mod.toNat.size, by omega⟩
  have small : s < 32 := by omega
  have shift' : (n + 1) * 2 * 32 - uECCVliNumBits mod = 32 * (n + 1) + s := by
    rw [uECCVliNumBits_eq]
    omega
  have words : (modMultiple mod).words = List.replicate (n + 1) 0 ++
      (if s > 0 then shiftWords s mod.words 0 else mod.words) := by
    have wordShift : (32 * (n + 1) + s) / 32 = n + 1 := by omega
    have bitShift : (32 * (n + 1) + s) % 32 = s := by omega
    simp only [modMultiple, shift', wordShift, bitShift]
    apply List.take_left'
    split <;> simp [shiftWords_length, mod.length_eq] <;> omega
  have zeros : valueOf (List.replicate (n + 1) 0) = 0 := uECCVliClear_toNat (n + 1)
  rw [Words.toNat, words, valueOf_append, zeros, List.length_replicate, shift, Nat.pow_add, Nat.zero_add, Nat.mul_assoc]
  congr 1
  by_cases positive : s > 0
  · obtain ⟨out, value⟩ := shiftWords_value positive small mod.words 0 (Nat.two_pow_pos s)
    have fits : 2 ^ s * mod.toNat < 2 ^ (32 * (n + 1)) := by
      have scaled := Nat.mul_lt_mul_of_pos_left (Nat.lt_size_self mod.toNat) (Nat.two_pow_pos s)
      rwa [← Nat.pow_add, show s + mod.toNat.size = 32 * (n + 1) by omega] at scaled
    rw [if_pos positive]
    rw [mod.length_eq] at value
    change _ = 2 ^ s * mod.toNat at value
    have none : out = 0 := by
      by_contra some
      have large := Nat.mul_le_mul_left (2 ^ (32 * (n + 1))) (Nat.one_le_iff_ne_zero.mpr some)
      omega
    rw [none] at value
    exact value
  · obtain rfl : s = 0 := by omega
    rw [if_neg positive, Nat.pow_zero, Nat.one_mul]
    rfl

/-- The subtraction written out in `uECC_vli_mmod`. -/
def mmodSubLoop : List UInt32 → List UInt32 → UInt32 → List UInt32 × UInt32
  | v :: rest, multiple :: multiples, borrow =>
    let diff := v - multiple - borrow
    let borrow := if diff != v then truth (diff > v) else borrow
    let (diffs, borrow) := mmodSubLoop rest multiples borrow
    (diff :: diffs, borrow)
  | _, _, borrow => ([], borrow)

theorem mmodSubLoop_eq (left right : List UInt32) (borrow : UInt32) :
    mmodSubLoop left right borrow = vliSubLoop left right borrow := by
  induction left generalizing right borrow with
  | nil => rfl
  | cons v rest ih =>
    cases right with
    | nil => rfl
    | cons multiple multiples => simp only [mmodSubLoop, vliSubLoop, condSet_truth, ih]

structure MmodState (n : Nat) where
  tmp : Words (2 * n)
  product : Words (2 * n)
  index : Bool
  mod_multiple : Words (2 * n)

namespace MmodState

def v (state : MmodState n) (index : Bool) : Words (2 * n) := if index then state.product else state.tmp

end MmodState

/-- The shift of `mod_multiple` by one, one half at a time. -/
def halveMultiple (multiple : Words (2 * n)) : Words (2 * n) :=
  let low := uECCVliRshift1 multiple.low
  join (low.set (n - 1) (low.get (n - 1) ||| multiple.high.get 0 <<< 31)) (uECCVliRshift1 multiple.high)

theorem halveMultiple_value (multiple : Words (2 * (n + 1))) :
    (halveMultiple multiple).toNat = multiple.toNat / 2 := by
  have low := uECCVliRshift1_toNat multiple.low
  have written := set_toNat (uECCVliRshift1 multiple.low) (Nat.lt_succ_self n)
    ((uECCVliRshift1 multiple.low).get n ||| multiple.high.get 0 <<< 31)
  have word := get_toNat (uECCVliRshift1 multiple.low) n
  have first := get_toNat multiple.high 0
  have lowBound := multiple.low.toNat_lt
  rw [pow_words_succ] at lowBound
  rw [low] at word
  have topBound : ((uECCVliRshift1 multiple.low).get n).toNat < 2 ^ 31 := by
    have quotient : multiple.low.toNat / 2 / 2 ^ (32 * n) < 2 ^ 31 := by
      rw [Nat.div_div_eq_div_mul, Nat.div_lt_iff_lt_mul (by positivity)]
      omega
    exact (word.le.trans (Nat.mod_le _ _)).trans_lt quotient
  have shifted : (multiple.high.get 0 <<< 31).toNat = 2 ^ 31 * (multiple.high.toNat % 2) := by
    rw [Nat.mul_zero, Nat.pow_zero, Nat.div_one] at first
    simp [Nat.shiftLeft_eq]
    omega
  have joined : ((uECCVliRshift1 multiple.low).get n ||| multiple.high.get 0 <<< 31).toNat =
      ((uECCVliRshift1 multiple.low).get n).toNat + 2 ^ 31 * (multiple.high.toNat % 2) :=
    or_toNat topBound shifted
  have high := uECCVliRshift1_toNat multiple.high
  rw [halveMultiple, join_toNat, high, toNat_halves multiple]
  simp only [Nat.add_sub_cancel]
  rw [joined, low] at written
  rw [Nat.mul_add] at written
  have spread : 2 ^ (32 * n) * (2 ^ 31 * (multiple.high.toNat % 2)) * 2 =
      2 ^ (32 * (n + 1)) * (multiple.high.toNat % 2) := by
    rw [pow_words_succ]
    ring
  have even : 2 ^ (32 * (n + 1)) * multiple.high.toNat =
      2 ^ (32 * (n + 1)) * (multiple.high.toNat / 2) * 2 + 2 ^ (32 * (n + 1)) * (multiple.high.toNat % 2) := by
    rw [Nat.mul_assoc, ← Nat.mul_add, Nat.mul_comm (_ / 2), Nat.div_add_mod]
  omega

def mmodSub (left right : Words n) : Words n × UInt32 where
  fst :=
    { words := (mmodSubLoop left.words right.words 0).1
      length_eq := by
        rw [mmodSubLoop_eq, vliSubLoop_length _ _ _ (left.length_eq.trans right.length_eq.symm), left.length_eq] }
  snd := (mmodSubLoop left.words right.words 0).2

theorem mmodSub_eq (left right : Words n) : mmodSub left right = uECCVliSub left right := by
  simp only [mmodSub, uECCVliSub, mmodSubLoop_eq]

/-- One round of the loop of `uECC_vli_mmod`; `index` stays at a difference that borrows nothing. -/
def mmodRound (state : MmodState n) : MmodState n :=
  let (difference, borrow) := mmodSub (state.v state.index) state.mod_multiple
  { tmp := if state.index then difference else state.tmp
    product := if state.index then state.product else difference
    index := state.index == (borrow != 0)
    mod_multiple := halveMultiple state.mod_multiple }

/-- `product % mod`; the array `tmp` is written before it is read. -/
def uECCVliMmod (product : Words (2 * n)) (mod : Words n) : Words n :=
  let shift := n * 2 * 32 - uECCVliNumBits mod
  let state := mmodRound^[shift + 1]
    { tmp := uECCVliClear (2 * n), product := product, index := true, mod_multiple := modMultiple mod }
  (state.v state.index).low

theorem mmodRound_v (state : MmodState n) :
    ((mmodRound state).v (mmodRound state).index).toNat =
      if (state.v state.index).toNat < state.mod_multiple.toNat then (state.v state.index).toNat
      else (state.v state.index).toNat - state.mod_multiple.toNat := by
  have borrow := uECCVliSub_borrow (state.v state.index) state.mod_multiple
  by_cases below : (state.v state.index).toNat < state.mod_multiple.toNat
  · rw [if_pos below] at borrow ⊢
    have set : (uECCVliSub (state.v state.index) state.mod_multiple).2 = 1 := UInt32.toNat_inj.mp borrow
    cases index : state.index <;> rw [index] at set <;> simp [mmodRound, mmodSub_eq, MmodState.v, index] at set ⊢ <;>
      simp [set]
  · have value := uECCVliSub_of_le (Nat.not_lt.mp below)
    rw [if_neg below] at borrow ⊢
    have clear : (uECCVliSub (state.v state.index) state.mod_multiple).2 = 0 := UInt32.toNat_inj.mp borrow
    rw [← value]
    cases index : state.index <;> rw [index] at clear <;>
      simp [mmodRound, mmodSub_eq, MmodState.v, index] at clear ⊢ <;> simp [clear]

/-- With `shift` still to go the number left is below twice the multiple and has the residue of the product. -/
structure Reducing (product mod shift : Nat) (state : MmodState (n + 1)) : Prop where
  multiple : state.mod_multiple.toNat = 2 ^ shift * mod
  below : (state.v state.index).toNat < 2 ^ (shift + 1) * mod
  residue : (state.v state.index).toNat % mod = product % mod

theorem mmodRound_residue {product mod shift : Nat} {state : MmodState (n + 1)}
    (reducing : Reducing product mod shift state) :
    ((mmodRound state).v (mmodRound state).index).toNat < 2 ^ shift * mod ∧
      ((mmodRound state).v (mmodRound state).index).toNat % mod = product % mod := by
  obtain ⟨multiple, below, residue⟩ := reducing
  have double : 2 ^ (shift + 1) * mod = 2 * (2 ^ shift * mod) := by ring
  rw [double] at below
  rw [mmodRound_v, multiple]
  split
  · next less => exact ⟨less, residue⟩
  · next above =>
    refine ⟨by omega, ?_⟩
    rw [← residue]
    conv_rhs => rw [← Nat.sub_add_cancel (Nat.not_lt.mp above)]
    rw [Nat.add_mul_mod_self_right]

theorem Reducing.round {product mod shift : Nat} {state : MmodState (n + 1)}
    (reducing : Reducing product mod (shift + 1) state) : Reducing product mod shift (mmodRound state) := by
  obtain ⟨below, residue⟩ := mmodRound_residue reducing
  refine ⟨?_, below, residue⟩
  have halved : (mmodRound state).mod_multiple = halveMultiple state.mod_multiple := rfl
  have double : 2 ^ (shift + 1) * mod = 2 * (2 ^ shift * mod) := by ring
  rw [halved, halveMultiple_value, reducing.multiple, double, Nat.mul_div_cancel_left _ (by decide)]

theorem Reducing.rounds {product mod shift : Nat} {state : MmodState (n + 1)}
    (reducing : Reducing product mod shift state) :
    ((mmodRound^[shift + 1] state).v (mmodRound^[shift + 1] state).index).toNat = product % mod := by
  induction shift generalizing state with
  | zero =>
    obtain ⟨below, residue⟩ := mmodRound_residue reducing
    rw [Nat.pow_zero, Nat.one_mul] at below
    rw [Function.iterate_one, ← residue, Nat.mod_eq_of_lt below]
  | succ shift ih => exact ih reducing.round

/-- The remainder is exact for every modulus whose highest word is not zero. -/
theorem uECCVliMmod_value (product : Words (2 * (n + 1))) {mod : Words (n + 1)} (full : 2 ^ (32 * n) ≤ mod.toNat) :
    (uECCVliMmod product mod).toNat = product.toNat % mod.toNat := by
  obtain ⟨low, high⟩ := mod_size full
  obtain ⟨s, size⟩ := Nat.exists_eq_add_one.mpr (by omega : 0 < mod.toNat.size)
  have shift : (n + 1) * 2 * 32 - uECCVliNumBits mod = 64 * (n + 1) - mod.toNat.size := by
    rw [uECCVliNumBits_eq]
    omega
  have large : 2 ^ s ≤ mod.toNat := Nat.lt_size.mp (by omega)
  have start : Reducing product.toNat mod.toNat (64 * (n + 1) - mod.toNat.size)
      { tmp := uECCVliClear (2 * (n + 1)), product := product, index := true, mod_multiple := modMultiple mod } := by
    refine ⟨modMultiple_value full, ?_, rfl⟩
    have productBound := product.toNat_lt
    have scaled := Nat.mul_le_mul_left (2 ^ (64 * (n + 1) - mod.toNat.size + 1)) large
    rw [← Nat.pow_add, show 64 * (n + 1) - mod.toNat.size + 1 + s = 32 * (2 * (n + 1)) by omega] at scaled
    exact productBound.trans_le scaled
  have value := start.rounds
  have modPositive : 0 < mod.toNat := (Nat.two_pow_pos _).trans_le full
  simp only [uECCVliMmod, shift]
  rw [low_toNat, value, Nat.mod_eq_of_lt ((Nat.mod_lt _ modPositive).trans mod.toNat_lt)]

def uECCVliModMult (left right mod : Words (n + 1)) : Words (n + 1) :=
  uECCVliMmod (uECCVliMult left right) mod

theorem uECCVliModMult_value (left right : Words (n + 1)) {mod : Words (n + 1)} (words : n < 2 ^ 32)
    (full : 2 ^ (32 * n) ≤ mod.toNat) :
    (uECCVliModMult left right mod).toNat = left.toNat * right.toNat % mod.toNat := by
  rw [uECCVliModMult, uECCVliMmod_value _ full, uECCVliMult_value left right words]

/-- Product and remainder are exact for numbers of any width the local arrays of the code have room for, and for any
modulus whose highest word is not zero. -/
theorem uECCVliModMult_exact (left right : Words (n + 1)) {mod : Words (n + 1)} (words : n < 2 ^ 32)
    (highest : mod.get n ≠ 0) :
    (uECCVliMult left right).toNat = left.toNat * right.toNat ∧
      (uECCVliModMult left right mod).toNat = left.toNat * right.toNat % mod.toNat := by
  exact ⟨uECCVliMult_value left right words, uECCVliModMult_value left right words (full_of_get highest)⟩

theorem uECCVliModMult_exact_two_words :
    (@uECCVliModMult 1 ⟨[5, 7], rfl⟩ ⟨[9, 0xFFFFFFFF], rfl⟩ ⟨[3, 1], rfl⟩).toNat =
      (@Words.toNat 2 ⟨[5, 7], rfl⟩ * @Words.toNat 2 ⟨[9, 0xFFFFFFFF], rfl⟩) % @Words.toNat 2 ⟨[3, 1], rfl⟩ :=
  (@uECCVliModMult_exact 1 ⟨[5, 7], rfl⟩ ⟨[9, 0xFFFFFFFF], rfl⟩ ⟨[3, 1], rfl⟩ (by decide) (by decide)).2

end BleGateway
