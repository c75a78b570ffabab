import BleGateway.Lib.Words
import Mathlib.Data.Nat.Bitwise
import Mathlib.Data.List.TakeWhile

namespace BleGateway
open Words

variable {n : Nat}

/-- A comparison of C, as a word. -/
def truth (condition : Bool) : UInt32 := if condition then 1 else 0

@[simp] theorem truth_toNat (condition : Bool) : (truth condition).toNat = condition.toNat := by
  cases condition <;> rfl

def condSet (pTrue pFalse cond : UInt32) : UInt32 := pTrue * cond ||| pFalse * truth (cond == 0)

@[simp] theorem condSet_truth (pTrue pFalse : UInt32) (condition : Bool) :
    condSet pTrue pFalse (truth condition) = if condition then pTrue else pFalse := by
  cases condition <;> simp [condSet, truth]

/-- The loop of `uECC_vli_add`: the words of the sum and the carry out of the last. -/
def vliAddLoop : List UInt32 → List UInt32 → UInt32 → List UInt32 × UInt32
  | l :: left, r :: right, carry =>
    let sum := l + r + carry
    let val := truth (sum < l)
    let carry := condSet val carry (truth (sum != l))
    let (result, carry) := vliAddLoop left right carry
    (sum :: result, carry)
  | _, _, carry => ([], carry)

/-- The loop of `uECC_vli_sub`, with the borrow. -/
def vliSubLoop : List UInt32 → List UInt32 → UInt32 → List UInt32 × UInt32
  | l :: left, r :: right, borrow =>
    let diff := l - r - borrow
    let val := truth (diff > l)
    let borrow := condSet val borrow (truth (diff != l))
    let (result, borrow) := vliSubLoop left right borrow
    (diff :: result, borrow)
  | _, _, borrow => ([], borrow)

/-- The carry of one word; where the sum is the word itself the carry is that of the word before. -/
theorem carry_step (l r carry : UInt32) (small : carry.toNat ≤ 1) :
    (l + r + carry).toNat + 2 ^ 32 * (condSet (truth (l + r + carry < l)) carry
        (truth (l + r + carry != l))).toNat = l.toNat + r.toNat + carry.toNat := by
  have lBound := l.toNat_lt
  have rBound := r.toNat_lt
  have sum : (l + r + carry).toNat = (l.toNat + r.toNat + carry.toNat) % 2 ^ 32 := by
    rw [UInt32.toNat_add, UInt32.toNat_add]
    omega
  rw [condSet_truth]
  by_cases same : l + r + carry = l
  · have equal : (l + r + carry).toNat = l.toNat := congrArg UInt32.toNat same
    rw [if_neg (by simpa using same)]
    omega
  · have different : (l + r + carry).toNat ≠ l.toNat := fun equal => same (UInt32.toNat_inj.mp equal)
    rw [if_pos (by simpa using same), truth_toNat]
    by_cases wraps : l + r + carry < l
    · have below := UInt32.lt_iff_toNat_lt.mp wraps
      simp only [wraps, decide_true, Bool.toNat_true]
      omega
    · have above : l.toNat ≤ (l + r + carry).toNat :=
        Nat.not_lt.mp fun less => wraps (UInt32.lt_iff_toNat_lt.mpr less)
      simp only [wraps, decide_false, Bool.toNat_false]
      omega

theorem borrow_step (l r borrow : UInt32) (small : borrow.toNat ≤ 1) :
    (l - r - borrow).toNat + r.toNat + borrow.toNat = l.toNat + 2 ^ 32 *
      (condSet (truth (l - r - borrow > l)) borrow (truth (l - r - borrow != l))).toNat := by
  have lBound := l.toNat_lt
  have rBound := r.toNat_lt
  have diff : (l - r - borrow).toNat = (2 ^ 33 + l.toNat - r.toNat - borrow.toNat) % 2 ^ 32 := by
    rw [UInt32.toNat_sub, UInt32.toNat_sub]
    omega
  rw [condSet_truth]
  by_cases same : l - r - borrow = l
  · have equal : (l - r - borrow).toNat = l.toNat := congrArg UInt32.toNat same
    rw [if_neg (by simpa using same)]
    omega
  · have different : (l - r - borrow).toNat ≠ l.toNat := fun equal => same (UInt32.toNat_inj.mp equal)
    rw [if_pos (by simpa using same), truth_toNat]
    by_cases wraps : l - r - borrow > l
    · have above := UInt32.lt_iff_toNat_lt.mp wraps
      simp only [wraps, decide_true, Bool.toNat_true]
      omega
    · have below : (l - r - borrow).toNat ≤ l.toNat :=
        Nat.not_lt.mp fun less => wraps (UInt32.lt_iff_toNat_lt.mpr less)
      simp only [wraps, decide_false, Bool.toNat_false]
      omega

theorem vliAddLoop_length (left right : List UInt32) (carry : UInt32) (same : left.length = right.length) :
    (vliAddLoop left right carry).1.length = left.length := by
  induction left generalizing right carry with
  | nil => rfl
  | cons l left ih =>
    cases right with
    | nil => cases same
    | cons r right => exact congrArg (· + 1) (ih right _ (Nat.succ.inj same))

theorem vliSubLoop_length (left right : List UInt32) (borrow : UInt32) (same : left.length = right.length) :
    (vliSubLoop left right borrow).1.length = left.length := by
  induction left generalizing right borrow with
  | nil => rfl
  | cons l left ih =>
    cases right with
    | nil => cases same
    | cons r right => exact congrArg (· + 1) (ih right _ (Nat.succ.inj same))

theorem vliAddLoop_value (left right : List UInt32) (carry : UInt32) (same : left.length = right.length)
    (small : carry.toNat ≤ 1) :
    valueOf (vliAddLoop left right carry).1 + 2 ^ (32 * left.length) * (vliAddLoop left right carry).2.toNat =
        valueOf left + valueOf right + carry.toNat ∧ (vliAddLoop left right carry).2.toNat ≤ 1 := by
  induction left generalizing right carry with
  | nil =>
    obtain rfl := List.eq_nil_of_length_eq_zero same.symm
    simp [vliAddLoop, small]
  | cons l left ih =>
    obtain ⟨r, right, rfl⟩ := List.exists_cons_of_length_eq_add_one same.symm
    have step := carry_step l r carry small
    have lBound := l.toNat_lt
    have rBound := r.toNat_lt
    have next : (condSet (truth (l + r + carry < l)) carry (truth (l + r + carry != l))).toNat ≤ 1 := by omega
    obtain ⟨value, bound⟩ := ih right _ (Nat.succ.inj same) next
    simp only [vliAddLoop, valueOf_cons, List.length_cons, pow_words_succ, Nat.mul_assoc]
    exact ⟨by omega, bound⟩

theorem vliSubLoop_value (left right : List UInt32) (borrow : UInt32) (same : left.length = right.length)
    (small : borrow.toNat ≤ 1) :
    valueOf (vliSubLoop left right borrow).1 + valueOf right + borrow.toNat =
        valueOf left + 2 ^ (32 * left.length) * (vliSubLoop left right borrow).2.toNat ∧
      (vliSubLoop left right borrow).2.toNat ≤ 1 := by
  induction left generalizing right borrow with
  | nil =>
    obtain rfl := List.eq_nil_of_length_eq_zero same.symm
    simp [vliSubLoop, small]
  | cons l left ih =>
    obtain ⟨r, right, rfl⟩ := List.exists_cons_of_length_eq_add_one same.symm
    have step := borrow_step l r borrow small
    have lBound := l.toNat_lt
    have rBound := r.toNat_lt
    have diffBound := (l - r - borrow).toNat_lt
    have next : (condSet (truth (l - r - borrow > l)) borrow (truth (l - r - borrow != l))).toNat ≤ 1 := by
      omega
    obtain ⟨value, bound⟩ := ih right _ (Nat.succ.inj same) next
    simp only [vliSubLoop, valueOf_cons, List.length_cons, pow_words_succ, Nat.mul_assoc]
    exact ⟨by omega, bound⟩

def uECCVliAdd (left right : Words n) : Words n × UInt32 where
  fst :=
    { words := (vliAddLoop left.words right.words 0).1
      length_eq := by
        rw [vliAddLoop_length _ _ _ (left.length_eq.trans right.length_eq.symm), left.length_eq] }
  snd := (vliAddLoop left.words right.words 0).2

def uECCVliSub (left right : Words n) : Words n × UInt32 where
  fst :=
    { words := (vliSubLoop left.words right.words 0).1
      length_eq := by
        rw [vliSubLoop_length _ _ _ (left.length_eq.trans right.length_eq.symm), left.length_eq] }
  snd := (vliSubLoop left.words right.words 0).2

/-- Sum and carry are exact. -/
theorem uECCVliAdd_value (left right : Words n) :
    (uECCVliAdd left right).1.toNat + 2 ^ (32 * n) * (uECCVliAdd left right).2.toNat =
      left.toNat + right.toNat := by
  have value := (vliAddLoop_value left.words right.words 0 (left.length_eq.trans right.length_eq.symm)
    (Nat.zero_le 1)).1
  rwa [left.length_eq] at value

theorem uECCVliAdd_carry_le (left right : Words n) : (uECCVliAdd left right).2.toNat ≤ 1 :=
  (vliAddLoop_value left.words right.words 0 (left.length_eq.trans right.length_eq.symm) (Nat.zero_le 1)).2

/-- Difference and borrow are exact. -/
theorem uECCVliSub_value (left right : Words n) :
    (uECCVliSub left right).1.toNat + right.toNat =
      left.toNat + 2 ^ (32 * n) * (uECCVliSub left right).2.toNat := by
  have value := (vliSubLoop_value left.words right.words 0 (left.length_eq.trans right.length_eq.symm)
    (Nat.zero_le 1)).1
  rwa [left.length_eq] at value

theorem uECCVliSub_borrow_le (left right : Words n) : (uECCVliSub left right).2.toNat ≤ 1 :=
  (vliSubLoop_value left.words right.words 0 (left.length_eq.trans right.length_eq.symm) (Nat.zero_le 1)).2

theorem uECCVliSub_borrow (left right : Words n) :
    (uECCVliSub left right).2.toNat = if left.toNat < right.toNat then 1 else 0 := by
  have value := uECCVliSub_value left right
  have small := uECCVliSub_borrow_le left right
  have bound := (uECCVliSub left right).1.toNat_lt
  have leftBound := left.toNat_lt
  interval_cases borrow : (uECCVliSub left right).2.toNat
  · rw [if_neg (by omega)]
  · rw [if_pos (by omega)]

theorem uECCVliSub_of_le {left right : Words n} (ordered : right.toNat ≤ left.toNat) :
    (uECCVliSub left right).1.toNat = left.toNat - right.toNat := by
  have value := uECCVliSub_value left right
  rw [uECCVliSub_borrow, if_neg (Nat.not_lt.mpr ordered)] at value
  omega

def uECCVliClear (n : Nat) : Words n where
  words := List.replicate n 0
  length_eq := List.length_replicate

@[simp] theorem uECCVliClear_toNat (n : Nat) : (uECCVliClear n).toNat = 0 :=
  valueOf_eq_zero.mpr fun _ member => List.eq_of_mem_replicate member

/-- An array cleared but for its lowest word, which is set to 1. -/
def vliOne (n : Nat) : Words (n + 1) := (uECCVliClear (n + 1)).set 0 1

@[simp] theorem vliOne_toNat (n : Nat) : (vliOne n).toNat = 1 := by
  have written := set_toNat (uECCVliClear (n + 1)) (Nat.succ_pos n) 1
  have word := get_toNat (uECCVliClear (n + 1)) 0
  rw [uECCVliClear_toNat, Nat.zero_div, Nat.zero_mod] at word
  rw [word, uECCVliClear_toNat] at written
  simpa [vliOne] using written

def uECCVliIsZero (vli : Words n) : Bool := vli.words.foldl (· ||| ·) 0 == 0

theorem foldl_or_eq_zero {words : List UInt32} {bits : UInt32} :
    words.foldl (· ||| ·) bits = 0 ↔ bits = 0 ∧ ∀ word ∈ words, word = 0 := by
  induction words generalizing bits with
  | nil => simp
  | cons word words ih =>
    rw [List.foldl_cons, ih, List.forall_mem_cons, UInt32.or_eq_zero_iff, and_assoc]

theorem uECCVliIsZero_iff {vli : Words n} : uECCVliIsZero vli = true ↔ vli.toNat = 0 := by
  rw [uECCVliIsZero, beq_iff_eq, foldl_or_eq_zero, Words.toNat, valueOf_eq_zero]
  exact and_iff_right rfl

def uECCVliTestBit (vli : Words n) (bit : Nat) : Bool :=
  (vli.get (bit >>> 5) &&& (1 <<< UInt32.ofNat (bit &&& 31))) != 0

theorem and_bit (word : UInt32) {i : Nat} (bound : i < 32) :
    (word &&& (1 <<< UInt32.ofNat i) != 0) = word.toNat.testBit i := by
  have small : 2 ^ i < 2 ^ 32 := Nat.pow_lt_pow_right (by decide) bound
  have mask : (1 <<< UInt32.ofNat i : UInt32).toNat = 2 ^ i := by
    rw [shiftLeft_toNat 1 bound, UInt32.toNat_one, Nat.mul_one, Nat.mod_eq_of_lt small]
  have value : (word &&& 1 <<< UInt32.ofNat i).toNat = (word.toNat.testBit i).toNat * 2 ^ i := by
    rw [UInt32.toNat_and, mask, Nat.and_two_pow]
  rw [Bool.eq_iff_iff, bne_iff_ne, ne_eq, ← UInt32.toNat_inj, value]
  cases word.toNat.testBit i <;> simp

theorem uECCVliTestBit_eq (vli : Words n) (bit : Nat) : uECCVliTestBit vli bit = vli.toNat.testBit bit := by
  have split : bit = 32 * (bit / 32) + bit % 32 := (Nat.div_add_mod bit 32).symm
  have mask : bit &&& 31 = bit % 32 := Nat.and_two_pow_sub_one_eq_mod bit 5
  have low : bit % 32 < 32 := Nat.mod_lt bit (by decide)
  rw [uECCVliTestBit, mask, and_bit _ low, Nat.shiftRight_eq_div_pow, get_toNat, Nat.testBit_mod_two_pow,
    Nat.testBit_div_two_pow, decide_eq_true low, Bool.true_and]
  congr 1
  omega

/-- The number of words up to the highest that is not zero. -/
def vliNumDigits (vli : List UInt32) : Nat := (vli.reverse.dropWhile (· == 0)).length

/-- The loop of `uECC_vli_numBits` over the highest word; 32 rounds empty it. -/
def digitBitsLoop : Nat → UInt32 → Nat
  | 0, _ => 0
  | fuel + 1, digit => if digit = 0 then 0 else digitBitsLoop fuel (digit >>> 1) + 1

def uECCVliNumBits (vli : Words n) : Nat :=
  let num_digits := vliNumDigits vli.words
  if num_digits = 0 then 0
  else (num_digits - 1) <<< 5 + digitBitsLoop 32 (vli.get (num_digits - 1))

theorem digitBitsLoop_eq (fuel : Nat) (digit : UInt32) (bound : digit.toNat < 2 ^ fuel) :
    digitBitsLoop fuel digit = digit.toNat.size := by
  induction fuel generalizing digit with
  | zero =>
    have zero : digit.toNat = 0 := by omega
    rw [zero]
    rfl
  | succ fuel ih =>
    have shifted : (digit >>> 1).toNat = digit.toNat / 2 := by simp [Nat.shiftRight_eq_div_pow]
    rw [digitBitsLoop, ih (digit >>> 1) (by omega), shifted]
    by_cases zero : digit.toNat = 0
    · rw [if_pos (UInt32.toNat_inj.mp zero), zero]
      rfl
    · rw [if_neg fun equal => zero (congrArg UInt32.toNat equal)]
      by_cases one : digit.toNat / 2 = 0
      · have value : digit.toNat = 1 := by omega
        rw [value]
        rfl
      · have split : digit.toNat = digit.toNat % 2 + 2 ^ 1 * (digit.toNat / 2) := by omega
        have size := @size_add_mul (digit.toNat % 2) (digit.toNat / 2) 1 (by omega) one
        rw [← split] at size
        omega

theorem vliNumDigits_cons (word : UInt32) (words : List UInt32) :
    vliNumDigits (word :: words) =
      if vliNumDigits words = 0 then (if word = 0 then 0 else 1) else vliNumDigits words + 1 := by
  simp only [vliNumDigits, List.reverse_cons, List.dropWhile_append, List.length_eq_zero_iff]
  by_cases none : List.dropWhile (· == 0) words.reverse = []
  · by_cases zero : word = 0 <;> simp [none, zero]
  · simp [none]

theorem vliNumDigits_eq_zero {words : List UInt32} : vliNumDigits words = 0 ↔ valueOf words = 0 := by
  rw [vliNumDigits, List.length_eq_zero_iff, List.dropWhile_eq_nil_iff, valueOf_eq_zero]
  simp

theorem numBits_words (words : List UInt32) (positive : valueOf words ≠ 0) :
    32 * (vliNumDigits words - 1) + (words.getD (vliNumDigits words - 1) 0).toNat.size =
      (valueOf words).size := by
  induction words with
  | nil => exact absurd rfl positive
  | cons word words ih =>
    rw [vliNumDigits_cons, valueOf_cons]
    by_cases high : valueOf words = 0
    · have nonzero : word ≠ 0 := by
        rintro rfl
        exact positive (by simp [high])
      rw [if_pos (vliNumDigits_eq_zero.mpr high), if_neg nonzero, high]
      simp
    · have digits := mt vliNumDigits_eq_zero.mp high
      obtain ⟨d, equal⟩ := Nat.exists_eq_succ_of_ne_zero digits
      have tail := ih high
      rw [if_neg digits, size_add_mul word.toNat_lt high, ← tail, equal]
      simp only [Nat.succ_eq_add_one, Nat.add_sub_cancel, List.getD_cons_succ]
      omega

/-- The number of bits of the value, the leading zeros left out. -/
theorem uECCVliNumBits_eq (vli : Words n) : uECCVliNumBits vli = vli.toNat.size := by
  rw [uECCVliNumBits]
  by_cases zero : vli.toNat = 0
  · rw [if_pos (vliNumDigits_eq_zero.mpr zero), zero]
    rfl
  · have size := numBits_words vli.words zero
    rw [if_neg (mt vliNumDigits_eq_zero.mp zero), digitBitsLoop_eq _ _ (UInt32.toNat_lt _), Nat.shiftLeft_eq,
      Nat.mul_comm]
    exact size

/-- The loop of `uECC_vli_cmp_unsafe` goes from the highest word down: the words above come first. -/
def vliCmpLoop : List UInt32 → List UInt32 → Int
  | l :: left, r :: right =>
    if vliCmpLoop left right = 0 then if l > r then 1 else if l < r then -1 else 0
    else vliCmpLoop left right
  | _, _ => 0

def uECCVliCmpUnsafe (left right : Words n) : Int := vliCmpLoop left.words right.words

theorem vliCmpLoop_eq (left right : List UInt32) (same : left.length = right.length) :
    vliCmpLoop left right = Int.sign (valueOf left - valueOf right) := by
  induction left generalizing right with
  | nil => 
    obtain rfl := List.eq_nil_of_length_eq_zero same.symm
    rfl
  | cons l left ih =>
    obtain ⟨r, right, rfl⟩ := List.exists_cons_of_length_eq_add_one same.symm
    have lBound := l.toNat_lt
    have rBound := r.toNat_lt
    have high := ih right (Nat.succ.inj same)
    rw [vliCmpLoop, high, valueOf_cons, valueOf_cons]
    rcases Nat.lt_trichotomy (valueOf left) (valueOf right) with below | equal | above
    · rw [Int.sign_eq_neg_one_of_neg (by omega), Int.sign_eq_neg_one_of_neg (by omega), if_neg (by decide)]
    · rw [equal, Int.sub_self, Int.sign_zero, if_pos rfl]
      rcases Nat.lt_trichotomy l.toNat r.toNat with less | same | more
      · rw [if_neg (UInt32.not_lt.mpr (UInt32.le_iff_toNat_le.mpr less.le)),
          if_pos (UInt32.lt_iff_toNat_lt.mpr less), Int.sign_eq_neg_one_of_neg (by omega)]
      · obtain rfl := UInt32.toNat_inj.mp same
        rw [if_neg (UInt32.lt_irrefl l), if_neg (UInt32.lt_irrefl l), Int.sub_self, Int.sign_zero]
      · rw [if_pos (UInt32.lt_iff_toNat_lt.mpr more), Int.sign_eq_one_of_pos (by omega)]
    · rw [Int.sign_eq_one_of_pos (by omega), Int.sign_eq_one_of_pos (by omega), if_neg (by decide)]

/-- The comparison from the highest word down is the sign of the difference. -/
theorem uECCVliCmpUnsafe_eq (left right : Words n) :
    uECCVliCmpUnsafe left right = Int.sign (left.toNat - right.toNat) :=
  vliCmpLoop_eq left.words right.words (left.length_eq.trans right.length_eq.symm)

theorem uECCVliCmpUnsafe_eq_one {left right : Words n} :
    uECCVliCmpUnsafe left right = 1 ↔ right.toNat < left.toNat := by
  rw [uECCVliCmpUnsafe_eq, Int.sign_eq_one_iff_pos]
  omega

theorem uECCVliCmpUnsafe_eq_zero {left right : Words n} :
    uECCVliCmpUnsafe left right = 0 ↔ left = right := by
  rw [uECCVliCmpUnsafe_eq, Int.sign_eq_zero_iff_zero, ← toNat_inj]
  omega

theorem uECCVliCmpUnsafe_neg {left right : Words n} :
    uECCVliCmpUnsafe left right < 0 ↔ left.toNat < right.toNat := by
  rw [uECCVliCmpUnsafe_eq, Int.sign_neg_iff]
  omega

/-- `uECC_vli_equal`, which is zero for equal arguments. -/
def uECCVliEqual (left right : Words n) : Bool :=
  (List.zipWith (· ^^^ ·) left.words right.words).foldr (fun word diff => diff ||| word) 0 != 0

theorem foldr_xor_eq_zero {left right : List UInt32} (same : left.length = right.length) :
    (List.zipWith (· ^^^ ·) left right).foldr (fun word diff => diff ||| word) 0 = 0 ↔ left = right := by
  induction left generalizing right with
  | nil =>
    obtain rfl := List.eq_nil_of_length_eq_zero same.symm
    simp
  | cons l left ih =>
    obtain ⟨r, right, rfl⟩ := List.exists_cons_of_length_eq_add_one same.symm
    rw [List.zipWith_cons_cons, List.foldr_cons, UInt32.or_eq_zero_iff, ih (Nat.succ.inj same),
      UInt32.xor_eq_zero_iff, List.cons_eq_cons, and_comm]

theorem uECCVliEqual_eq_false {left right : Words n} : uECCVliEqual left right = false ↔ left = right := by
  rw [uECCVliEqual, bne_eq_false_iff_eq, foldr_xor_eq_zero (left.length_eq.trans right.length_eq.symm)]
  exact ⟨ext_words, congrArg words⟩

/-- `uECC_vli_cmp`. Its local array has room for 8 words, as many as the numbers of the curve have. -/
def uECCVliCmp (left right : Words n) : Int :=
  let (tmp, borrow) := uECCVliSub left right
  let neg := borrow != 0
  let equal := uECCVliIsZero tmp
  (!equal).toInt - 2 * neg.toInt

/-- The constant-time comparison gives what the one from the highest word down gives. -/
theorem uECCVliCmp_eq (left right : Words n) : uECCVliCmp left right = uECCVliCmpUnsafe left right := by
  have value := uECCVliSub_value left right
  have bound := (uECCVliSub left right).1.toNat_lt
  have zero := @uECCVliIsZero_iff _ (uECCVliSub left right).1
  have borrow := uECCVliSub_borrow left right
  rw [uECCVliCmpUnsafe_eq]
  rcases Nat.lt_trichotomy left.toNat right.toNat with below | equal | above
  · rw [if_pos below] at borrow
    rw [borrow] at value
    have nonzero : (uECCVliIsZero (uECCVliSub left right).1) = false :=
      Bool.eq_false_iff.mpr fun isZero => by
        have := zero.mp isZero
        have := left.toNat_lt
        have := right.toNat_lt
        omega
    have neg : (uECCVliSub left right).2 = 1 := UInt32.toNat_inj.mp borrow
    rw [Int.sign_eq_neg_one_of_neg (by omega)]
    simp [uECCVliCmp, nonzero, neg]
  · rw [if_neg (by omega)] at borrow
    rw [borrow] at value
    have isZero : uECCVliIsZero (uECCVliSub left right).1 = true := zero.mpr (by omega)
    have neg : (uECCVliSub left right).2 = 0 := UInt32.toNat_inj.mp borrow
    rw [equal, Int.sub_self, Int.sign_zero]
    simp [uECCVliCmp, isZero, neg]
  · rw [if_neg (by omega)] at borrow
    rw [borrow] at value
    have nonzero : uECCVliIsZero (uECCVliSub left right).1 = false :=
      Bool.eq_false_iff.mpr fun isZero => by
        have := zero.mp isZero
        omega
    have neg : (uECCVliSub left right).2 = 0 := UInt32.toNat_inj.mp borrow
    rw [Int.sign_eq_one_of_pos (by omega)]
    simp [uECCVliCmp, nonzero, neg]

/-- The loop of `uECC_vli_rshift1`, from the highest word down, with the carry into the next. -/
def vliRshift1Loop : List UInt32 → List UInt32 × UInt32
  | [] => ([], 0)
  | temp :: rest =>
    let (rest, carry) := vliRshift1Loop rest
    ((temp >>> 1 ||| carry) :: rest, temp <<< 31)

theorem vliRshift1Loop_length (words : List UInt32) : (vliRshift1Loop words).1.length = words.length := by
  induction words with
  | nil => rfl
  | cons temp rest ih => exact congrArg (· + 1) ih

def uECCVliRshift1 (vli : Words n) : Words n where
  words := (vliRshift1Loop vli.words).1
  length_eq := by rw [vliRshift1Loop_length, vli.length_eq]

theorem vliRshift1Loop_value (words : List UInt32) :
    valueOf (vliRshift1Loop words).1 = valueOf words / 2 ∧
      (vliRshift1Loop words).2.toNat = 2 ^ 31 * (valueOf words % 2) := by
  induction words with
  | nil => exact ⟨rfl, rfl⟩
  | cons temp rest ih =>
    obtain ⟨value, carry⟩ := ih
    have bound := temp.toNat_lt
    have shifted : (temp >>> 1).toNat = temp.toNat / 2 := by simp [Nat.shiftRight_eq_div_pow]
    have next : (temp <<< 31).toNat = 2 ^ 31 * (temp.toNat % 2) := by
      simp [Nat.shiftLeft_eq]
      omega
    have word := or_toNat (by omega : (temp >>> 1).toNat < 2 ^ 31) carry
    simp only [vliRshift1Loop, valueOf_cons, word, shifted, value, next]
    exact ⟨by omega, by omega⟩

theorem uECCVliRshift1_toNat (vli : Words n) : (uECCVliRshift1 vli).toNat = vli.toNat / 2 :=
  (vliRshift1Loop_value vli.words).1

/-- A subtraction undoes an addition, and borrows exactly if the addition carried. -/
theorem uECCVliSub_uECCVliAdd (left right : Words n) :
    uECCVliSub (uECCVliAdd left right).1 right = (left, (uECCVliAdd left right).2) := by
  have sum := uECCVliAdd_value left right
  have carry := uECCVliAdd_carry_le left right
  have difference := uECCVliSub_value (uECCVliAdd left right).1 right
  have borrow := uECCVliSub_borrow (uECCVliAdd left right).1 right
  have leftBound := left.toNat_lt
  have sumBound := (uECCVliAdd left right).1.toNat_lt
  refine Prod.ext (toNat_inj.mp ?_) (UInt32.toNat_inj.mp ?_)
  · show (uECCVliSub (uECCVliAdd left right).1 right).1.toNat = left.toNat
    interval_cases carried : (uECCVliAdd left right).2.toNat
    · rw [if_neg (by omega)] at borrow
      rw [borrow] at difference
      omega
    · rw [if_pos (by omega)] at borrow
      rw [borrow] at difference
      omega
  · rw [borrow]
    interval_cases carried : (uECCVliAdd left right).2.toNat
    · exact if_neg (by omega)
    · exact if_pos (by omega)

/-- The three comparisons tell the order of the numbers alike. Past 8 words, where the local array of `uECC_vli_cmp` is
too short, the model is not the code. -/
theorem vliComparisons_agree (left right : Words n) :
    uECCVliCmp left right = Int.sign (left.toNat - right.toNat) ∧
      uECCVliCmpUnsafe left right = uECCVliCmp left right ∧
      (uECCVliEqual left right = false ↔ uECCVliCmp left right = 0) := by
  rw [uECCVliCmp_eq, uECCVliCmpUnsafe_eq_zero]
  exact ⟨uECCVliCmpUnsafe_eq left right, rfl, uECCVliEqual_eq_false⟩

/-- `uECC_vli_numBits` finds the highest bit that `uECC_vli_testBit` finds set. -/
theorem uECCVliNumBits_highest (vli : Words n) :
    (∀ bit, bit < 32 * n → uECCVliNumBits vli ≤ bit → uECCVliTestBit vli bit = false) ∧
      (uECCVliIsZero vli = false →
        uECCVliNumBits vli - 1 < 32 * n ∧ uECCVliTestBit vli (uECCVliNumBits vli - 1) = true) := by
  rw [uECCVliNumBits_eq]
  constructor
  · intro bit _ above
    rw [uECCVliTestBit_eq]
    exact Nat.testBit_lt_two_pow (Nat.size_le.mp above)
  · intro isNonzero
    have nonzero : vli.toNat ≠ 0 := by
      intro zero
      rw [uECCVliIsZero_iff.mpr zero] at isNonzero
      cases isNonzero
    have positive := Nat.size_pos.mpr (Nat.pos_of_ne_zero nonzero)
    have width := Nat.size_le.mpr vli.toNat_lt
    obtain ⟨s, size⟩ := Nat.exists_eq_add_one.mpr positive
    have low : 2 ^ s ≤ vli.toNat := Nat.lt_size.mp (by omega)
    have high : vli.toNat < 2 ^ (s + 1) := Nat.size_le.mp (by omega)
    rw [uECCVliTestBit_eq, size, Nat.add_sub_cancel]
    exact ⟨by omega, Nat.testBit_of_two_pow_le_and_two_pow_add_one_gt low high⟩

end BleGateway
