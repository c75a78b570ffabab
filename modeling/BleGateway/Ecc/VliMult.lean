import BleGateway.Ecc.Vli
import BleGateway.Lib.Columns

namespace BleGateway
open Words

variable {n : Nat}

/-- The three words `r0`, `r1`, `r2` in which a column is summed. -/
structure ColumnSum where
  r0 : UInt32
  r1 : UInt32
  r2 : UInt32

def muladd (a b : UInt32) (r : ColumnSum) : ColumnSum :=
  let p := a.toUInt64 * b.toUInt64
  let r01 := r.r1.toUInt64 <<< 32 ||| r.r0.toUInt64
  let r01 := r01 + p
  { r0 := r01.toUInt32
    r1 := (r01 >>> 32).toUInt32
    r2 := r.r2 + truth (r01 < p) }

/-- One round of `uECC_vli_mult`: the inner loop over `indices`, then a word of the result. -/
def multRound (left right : Words n) (indices : Nat → List Nat) (state : List UInt32 × ColumnSum) (k : Nat) :
    List UInt32 × ColumnSum :=
  let r := (indices k).foldl (fun r i => muladd (left.get i) (right.get (k - i)) r) state.2
  (state.1 ++ [r.r0], { r0 := r.r1, r1 := r.r2, r2 := 0 })

/-- The two loops of `uECC_vli_mult`, over the columns that grow and those that shrink. -/
def multLoops (left right : Words n) : List UInt32 × ColumnSum :=
  (List.range' n (n - 1)).foldl (multRound left right fun k => List.range' (k + 1 - n) (n - (k + 1 - n)))
    ((List.range n).foldl (multRound left right fun k => List.range (k + 1)) ([], { r0 := 0, r1 := 0, r2 := 0 }))

theorem multRound_length (left right : Words n) (indices : Nat → List Nat)
    (columns : List Nat) (state : List UInt32 × ColumnSum) :
    (columns.foldl (multRound left right indices) state).1.length = state.1.length + columns.length := by
  induction columns generalizing state with
  | nil => rfl
  | cons k columns ih =>
    rw [List.foldl_cons, ih, multRound, List.length_append, List.length_singleton, List.length_cons]
    omega

def uECCVliMult (left right : Words (n + 1)) : Words (2 * (n + 1)) where
  words := (multLoops left right).1 ++ [(multLoops left right).2.r0]
  length_eq := by
    rw [List.length_append, multLoops, multRound_length, multRound_length]
    simp only [List.length_nil, List.length_range, List.length_range', List.length_singleton]
    omega

namespace ColumnSum

def value (r : ColumnSum) : Nat := r.r0.toNat + 2 ^ 32 * r.r1.toNat + 2 ^ 64 * r.r2.toNat

end ColumnSum

theorem toUInt64_mul (a b : UInt32) : (a.toUInt64 * b.toUInt64).toNat = a.toNat * b.toNat := by
  have product := Nat.mul_lt_mul'' a.toNat_lt b.toNat_lt
  rw [UInt64.toNat_mul, UInt32.toNat_toUInt64, UInt32.toNat_toUInt64, Nat.mod_eq_of_lt product]

theorem join_words (high low : UInt32) :
    (high.toUInt64 <<< 32 ||| low.toUInt64).toNat = low.toNat + 2 ^ 32 * high.toNat := by
  have lowBound := low.toNat_lt
  have highBound := high.toNat_lt
  have shifted : (high.toUInt64 <<< 32).toNat = 2 ^ 32 * high.toNat := by
    simp [Nat.shiftLeft_eq]
    omega
  rw [UInt64.toNat_or, shifted, UInt32.toNat_toUInt64, ← Nat.two_pow_add_eq_or_of_lt lowBound, Nat.add_comm]

/-- A product is added exactly as long as the three words hold the sum. -/
theorem muladd_value (a b : UInt32) (r : ColumnSum) (fits : r.value + a.toNat * b.toNat < 2 ^ 96) :
    (muladd a b r).value = r.value + a.toNat * b.toNat := by
  have product := toUInt64_mul a b
  have joined := join_words r.r1 r.r0
  have r0Bound := r.r0.toNat_lt
  have r1Bound := r.r1.toNat_lt
  have productBound := Nat.mul_lt_mul'' a.toNat_lt b.toNat_lt
  set p := a.toUInt64 * b.toUInt64
  set r01 := r.r1.toUInt64 <<< 32 ||| r.r0.toUInt64
  have sum : (r01 + p).toNat = (r01.toNat + p.toNat) % 2 ^ 64 := UInt64.toNat_add r01 p
  have low : (r01 + p).toUInt32.toNat = (r01 + p).toNat % 2 ^ 32 := UInt64.toNat_toUInt32 _
  have high : ((r01 + p) >>> 32).toUInt32.toNat = (r01 + p).toNat / 2 ^ 32 := by
    have sumBound := (r01 + p).toNat_lt
    simp only [UInt64.toNat_toUInt32, UInt64.toNat_shiftRight, Nat.shiftRight_eq_div_pow, UInt64.reduceToNat,
      Nat.reduceMod]
    omega
  have carry : (truth (r01 + p < p)).toNat = (r01.toNat + p.toNat) / 2 ^ 64 := by
    rw [truth_toNat]
    by_cases wraps : r01 + p < p
    · have below := UInt64.lt_iff_toNat_lt.mp wraps
      simp only [wraps, decide_true, Bool.toNat_true]
      omega
    · have above : p.toNat ≤ (r01 + p).toNat := Nat.not_lt.mp fun less => wraps (UInt64.lt_iff_toNat_lt.mpr less)
      simp only [wraps, decide_false, Bool.toNat_false]
      omega
  have top : (r.r2 + truth (r01 + p < p)).toNat = (r.r2.toNat + (truth (r01 + p < p)).toNat) % 2 ^ 32 :=
    UInt32.toNat_add _ _
  simp only [ColumnSum.value] at fits ⊢
  show (r01 + p).toUInt32.toNat + 2 ^ 32 * ((r01 + p) >>> 32).toUInt32.toNat +
    2 ^ 64 * (r.r2 + truth (r01 + p < p)).toNat = _
  rw [low, high, top, carry, sum]
  omega

/-- What the products at some indices of a column sum to. -/
def products (left right : Words n) (k : Nat) (indices : List Nat) : Nat :=
  (indices.map fun i => (left.get i).toNat * (right.get (k - i)).toNat).sum

theorem products_le (left right : Words n) (k : Nat) (indices : List Nat) :
    products left right k indices ≤ indices.length * (2 ^ 32 - 1) ^ 2 := by
  induction indices with
  | nil => simp [products]
  | cons i indices ih =>
    have lBound := (left.get i).toNat_lt
    have rBound := (right.get (k - i)).toNat_lt
    have product : (left.get i).toNat * (right.get (k - i)).toNat ≤ (2 ^ 32 - 1) * (2 ^ 32 - 1) :=
      Nat.mul_le_mul (by omega) (by omega)
    simp only [products, List.map_cons, List.sum_cons, List.length_cons, Nat.succ_mul] at ih ⊢
    omega

theorem muladd_foldl (left right : Words n) (k : Nat) (indices : List Nat) (r : ColumnSum)
    (fits : r.value + products left right k indices < 2 ^ 96) :
    (indices.foldl (fun r i => muladd (left.get i) (right.get (k - i)) r) r).value =
      r.value + products left right k indices := by
  induction indices generalizing r with
  | nil => rfl
  | cons i indices ih =>
    simp only [products, List.map_cons, List.sum_cons] at fits
    have step := muladd_value (left.get i) (right.get (k - i)) r (by omega)
    rw [List.foldl_cons, ih _ (by rw [step, products]; omega), step]
    simp only [products, List.map_cons, List.sum_cons]
    omega

/-- Before column `k` the words written and the three of the sum make the columns below `k`. -/
structure ColumnsBelow (left right : Words (n + 1)) (k : Nat) (state : List UInt32 × ColumnSum) : Prop where
  length : state.1.length = k
  value : valueOf state.1 + (2 ^ 32) ^ k * state.2.value = ∑ j ∈ Finset.range k, column left right j * (2 ^ 32) ^ j
  small : state.2.value ≤ (n + 1) * 2 ^ 32

theorem ColumnsBelow.round {left right : Words (n + 1)} {k : Nat} {state : List UInt32 × ColumnSum}
    {indices : Nat → List Nat} (below : ColumnsBelow left right k state) (words : n < 2 ^ 32)
    (few : (indices k).length ≤ n + 1) (all : products left right k (indices k) = column left right k) :
    ColumnsBelow left right (k + 1) (multRound left right indices state k) := by
  obtain ⟨length, value, small⟩ := below
  have bound := products_le left right k (indices k)
  have cap : (indices k).length * (2 ^ 32 - 1) ^ 2 ≤ (n + 1) * (2 ^ 32 - 1) ^ 2 := Nat.mul_le_mul_right _ few
  have sum := muladd_foldl left right k (indices k) state.2 (by omega)
  set r := (indices k).foldl (fun r i => muladd (left.get i) (right.get (k - i)) r) state.2 with rDef
  obtain ⟨next, nextDef⟩ : ∃ next : ColumnSum, next = { r0 := r.r1, r1 := r.r2, r2 := 0 } := ⟨_, rfl⟩
  have shift : r.value = r.r0.toNat + 2 ^ 32 * next.value := by
    simp only [nextDef, ColumnSum.value, UInt32.toNat_zero]
    omega
  have round : multRound left right indices state k = (state.1 ++ [r.r0], next) := by
    rw [nextDef]
    rfl
  rw [round]
  refine ⟨?_, ?_, ?_⟩
  · rw [List.length_append, length, List.length_singleton]
  · rw [Finset.sum_range_succ, ← value, ← all, valueOf_append, length, valueOf_cons, valueOf_nil, Nat.pow_mul]
    have expand : (2 ^ 32) ^ (k + 1) * next.value + (2 ^ 32) ^ k * r.r0.toNat = (2 ^ 32) ^ k * r.value := by
      rw [shift]
      ring
    rw [Nat.mul_zero, Nat.add_zero, Nat.mul_comm (products _ _ _ _), Nat.add_assoc, Nat.add_assoc, ← Nat.mul_add,
      ← sum, ← expand]
    show _ + (_ + (2 ^ 32) ^ (k + 1) * next.value) = _
    omega
  · show next.value ≤ (n + 1) * 2 ^ 32
    omega

theorem ColumnsBelow.rounds {left right : Words (n + 1)} {start count : Nat} {state : List UInt32 × ColumnSum}
    {indices : Nat → List Nat} (below : ColumnsBelow left right start state) (words : n < 2 ^ 32)
    (few : ∀ k, start ≤ k → k < start + count → (indices k).length ≤ n + 1)
    (all : ∀ k, start ≤ k → k < start + count → products left right k (indices k) = column left right k) :
    ColumnsBelow left right (start + count)
      ((List.range' start count).foldl (multRound left right indices) state) := by
  induction count generalizing start state with
  | zero => exact below
  | succ count ih =>
    rw [List.range'_succ, List.foldl_cons]
    have next := below.round words (few start le_rfl (by omega)) (all start le_rfl (by omega))
    have rest := ih next (fun k low high => few k (by omega) (by omega))
      (fun k low high => all k (by omega) (by omega))
    rwa [Nat.add_assoc, Nat.add_comm 1] at rest

theorem products_range (left right : Words n) (k : Nat) :
    products left right k (List.range (k + 1)) = column left right k := by
  rfl

/-- Where the columns shrink, the indices left out meet no word. -/
theorem products_range' (left right : Words (n + 1)) {k : Nat} (shrinking : n < k) :
    products left right k (List.range' (k + 1 - (n + 1)) (n + 1 - (k + 1 - (n + 1)))) = column left right k := by
  have sum : products left right k (List.range' (k + 1 - (n + 1)) (n + 1 - (k + 1 - (n + 1)))) =
      ∑ i ∈ Finset.Ico (k + 1 - (n + 1)) (n + 1), (left.get i).toNat * (right.get (k - i)).toNat := rfl
  rw [sum, column]
  apply Finset.sum_subset
  · intro i member
    have := Finset.mem_Ico.mp member
    exact Finset.mem_range.mpr (by omega)
  · intro i member outside
    have inside := Finset.mem_range.mp member
    rw [Finset.mem_Ico] at outside
    by_cases above : n < i
    · rw [get_eq_zero left above, UInt32.toNat_zero, Nat.zero_mul]
    · rw [get_eq_zero right (by omega), UInt32.toNat_zero, Nat.mul_zero]

theorem multLoops_columns (left right : Words (n + 1)) (words : n < 2 ^ 32) :
    ColumnsBelow left right (2 * n + 1) (multLoops left right) := by
  have start : ColumnsBelow left right 0 ([], { r0 := 0, r1 := 0, r2 := 0 }) :=
    ⟨rfl, rfl, Nat.zero_le _⟩
  have grown := @ColumnsBelow.rounds _ left right 0 (n + 1) _ (fun k => List.range (k + 1)) start words
    (fun k _ high => by simpa using (show k + 1 ≤ n + 1 by omega)) (fun k _ _ => products_range left right k)
  rw [← List.range_eq_range', Nat.zero_add] at grown
  have shrunk := @ColumnsBelow.rounds _ left right _ n _
    (fun k => List.range' (k + 1 - (n + 1)) (n + 1 - (k + 1 - (n + 1)))) grown words
    (fun k _ _ => by simp) (fun k low _ => products_range' left right low)
  rwa [show n + 1 + n = 2 * n + 1 by omega] at shrunk

/-- The product is exact: no column overflows its three words, and the last sum fits one. -/
theorem uECCVliMult_value (left right : Words (n + 1)) (words : n < 2 ^ 32) :
    (uECCVliMult left right).toNat = left.toNat * right.toNat := by
  obtain ⟨length, value, -⟩ := multLoops_columns left right words
  rw [← toNat_mul, ← Nat.pow_mul] at value
  have total : left.toNat * right.toNat < 2 ^ (32 * (2 * n + 1)) * 2 ^ 32 := by
    rw [← Nat.pow_add, show 32 * (2 * n + 1) + 32 = 32 * (n + 1) + 32 * (n + 1) by omega, Nat.pow_add]
    exact Nat.mul_lt_mul'' left.toNat_lt right.toNat_lt
  have last : (multLoops left right).2.value < 2 ^ 32 := by
    by_contra large
    have scaled := Nat.mul_le_mul_left (2 ^ (32 * (2 * n + 1))) (Nat.not_lt.mp large)
    omega
  have word : (multLoops left right).2.value = (multLoops left right).2.r0.toNat := by
    simp only [ColumnSum.value] at last ⊢
    omega
  have words : (uECCVliMult left right).toNat =
      valueOf ((multLoops left right).1 ++ [(multLoops left right).2.r0]) := rfl
  rw [words, valueOf_append, length, valueOf_cons, valueOf_nil, ← word]
  exact value

end BleGateway
