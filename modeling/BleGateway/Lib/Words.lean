import Mathlib.Data.Nat.Digits.Lemmas
import Mathlib.Data.Nat.Size

/-- An array of `n` machine words of 32 bits, least significant word first. -/
structure Words (n : Nat) where
  words : List UInt32
  length_eq : words.length = n
deriving DecidableEq

namespace Words

/-- Words with no common bit are added by `|||`. -/
theorem or_toNat {low high : UInt32} {k c : Nat} (small : low.toNat < 2 ^ k) (shifted : high.toNat = 2 ^ k * c) :
    (low ||| high).toNat = low.toNat + 2 ^ k * c := by
  rw [UInt32.toNat_or, shifted, Nat.or_comm, ← Nat.two_pow_add_eq_or_of_lt small, Nat.add_comm]

/-- A shift that leaves a bit of the word. -/
theorem shiftLeft_toNat (word : UInt32) {bits : Nat} (small : bits < 32) :
    (word <<< UInt32.ofNat bits).toNat = 2 ^ bits * word.toNat % 2 ^ 32 := by
  rw [UInt32.toNat_shiftLeft, UInt32.toNat_ofNat_of_lt' (small.trans (by decide)), Nat.mod_eq_of_lt small,
    Nat.shiftLeft_eq, Nat.mul_comm]

theorem shiftRight_toNat (word : UInt32) {bits : Nat} (small : bits < 32) :
    (word >>> UInt32.ofNat bits).toNat = word.toNat / 2 ^ bits := by
  rw [UInt32.toNat_shiftRight, UInt32.toNat_ofNat_of_lt' (small.trans (by decide)), Nat.mod_eq_of_lt small,
    Nat.shiftRight_eq_div_pow]

/-- The number some words stand for. -/
def valueOf (words : List UInt32) : Nat := Nat.ofDigits (2 ^ 32) (words.map UInt32.toNat)

@[simp] theorem valueOf_nil : valueOf [] = 0 := rfl

@[simp] theorem valueOf_cons (word : UInt32) (words : List UInt32) :
    valueOf (word :: words) = word.toNat + 2 ^ 32 * valueOf words := by
  simp [valueOf, Nat.ofDigits_cons]

theorem pow_words_succ (n : Nat) : 2 ^ (32 * (n + 1)) = 2 ^ 32 * 2 ^ (32 * n) := by
  rw [Nat.mul_succ, Nat.pow_add, Nat.mul_comm]

theorem valueOf_append (low high : List UInt32) :
    valueOf (low ++ high) = valueOf low + 2 ^ (32 * low.length) * valueOf high := by
  rw [valueOf, List.map_append, Nat.ofDigits_append, List.length_map, Nat.pow_mul]
  rfl

theorem toNat_mem_lt {words : List UInt32} : ∀ digit ∈ words.map UInt32.toNat, digit < 2 ^ 32 := by
  intro digit member
  obtain ⟨word, _, rfl⟩ := List.mem_map.mp member
  exact word.toNat_lt

theorem valueOf_lt (words : List UInt32) : valueOf words < 2 ^ (32 * words.length) := by
  have bound := Nat.ofDigits_lt_base_pow_length (by decide : 1 < 2 ^ 32)
    (@toNat_mem_lt words)
  rwa [List.length_map, ← Nat.pow_mul] at bound

theorem valueOf_inj {a b : List UInt32} (length : a.length = b.length) (same : valueOf a = valueOf b) :
    a = b := by
  have digits := Nat.ofDigits_inj_of_len_eq (by decide : 1 < 2 ^ 32) (by simpa using length)
    toNat_mem_lt toNat_mem_lt same
  exact List.map_injective_iff.mpr (fun _ _ => UInt32.toNat_inj.mp) digits

theorem valueOf_eq_zero {words : List UInt32} : valueOf words = 0 ↔ ∀ word ∈ words, word = 0 := by
  induction words with
  | nil => simp
  | cons word words ih =>
    have zero : word = 0 ↔ word.toNat = 0 := UInt32.toNat_inj.symm
    rw [valueOf_cons, List.forall_mem_cons, ← ih, zero]
    omega

/-- A word is a digit of the value. -/
theorem getD_toNat (words : List UInt32) (i : Nat) :
    (words.getD i 0).toNat = valueOf words / 2 ^ (32 * i) % 2 ^ 32 := by
  induction words generalizing i with
  | nil => simp
  | cons word words ih =>
    have bound := word.toNat_lt
    cases i with
    | zero =>
      simp only [List.getD_cons_zero, valueOf_cons, Nat.mul_zero, Nat.pow_zero, Nat.div_one]
      omega
    | succ i =>
      have tail : (word.toNat + 2 ^ 32 * valueOf words) / 2 ^ 32 = valueOf words := by omega
      rw [List.getD_cons_succ, ih, valueOf_cons, pow_words_succ, ← Nat.div_div_eq_div_mul, tail]

theorem valueOf_set {words : List UInt32} {i : Nat} (inside : i < words.length) (word : UInt32) :
    valueOf (words.set i word) + 2 ^ (32 * i) * (words.getD i 0).toNat =
      valueOf words + 2 ^ (32 * i) * word.toNat := by
  induction words generalizing i with
  | nil => exact absurd inside (Nat.not_lt_zero i)
  | cons first words ih =>
    cases i with
    | zero =>
      simp only [List.set_cons_zero, valueOf_cons, List.getD_cons_zero, Nat.mul_zero, Nat.pow_zero, Nat.one_mul]
      omega
    | succ i =>
      have step := ih (Nat.lt_of_succ_lt_succ inside)
      simp only [List.set_cons_succ, valueOf_cons, List.getD_cons_succ, pow_words_succ, Nat.mul_assoc]
      omega

/-- The bits of a number are those of its high part and all below it. -/
theorem size_add_mul {low high k : Nat} (small : low < 2 ^ k) (positive : high ≠ 0) :
    (low + 2 ^ k * high).size = k + high.size := by
  apply Nat.le_antisymm
  · have bound := Nat.lt_size_self high
    have scaled := Nat.mul_le_mul_left (2 ^ k) (Nat.succ_le_of_lt bound)
    rw [Nat.size_le, Nat.pow_add]
    rw [Nat.mul_succ] at scaled
    omega
  · obtain ⟨s, size⟩ := Nat.exists_eq_add_one.mpr (Nat.size_pos.mpr (Nat.pos_of_ne_zero positive))
    have bound : 2 ^ s ≤ high := Nat.lt_size.mp (by omega)
    have scaled := Nat.mul_le_mul_left (2 ^ k) bound
    have below : 2 ^ (k + s) ≤ low + 2 ^ k * high := by
      rw [Nat.pow_add]
      omega
    rw [size]
    exact Nat.lt_size.mpr below

variable {n : Nat}

def toNat (v : Words n) : Nat := valueOf v.words

theorem toNat_lt (v : Words n) : v.toNat < 2 ^ (32 * n) := by
  have bound := valueOf_lt v.words
  rwa [v.length_eq] at bound

theorem ext_words {a b : Words n} (same : a.words = b.words) : a = b := by
  cases a
  cases b
  cases same
  rfl

theorem toNat_inj {a b : Words n} : a.toNat = b.toNat ↔ a = b := by
  constructor
  · intro same
    exact ext_words (valueOf_inj (a.length_eq.trans b.length_eq.symm) same)
  · rintro rfl
    rfl

/-- One word of the array. -/
def get (v : Words n) (i : Nat) : UInt32 := v.words.getD i 0

theorem get_eq_zero (v : Words n) {i : Nat} (above : n ≤ i) : v.get i = 0 := by
  rw [get, List.getD_eq_getElem?_getD, List.getElem?_eq_none (v.length_eq.le.trans above)]
  rfl

theorem get_toNat (v : Words n) (i : Nat) : (v.get i).toNat = v.toNat / 2 ^ (32 * i) % 2 ^ 32 :=
  getD_toNat v.words i

/-- An array with one word written. -/
def set (v : Words n) (i : Nat) (word : UInt32) : Words n where
  words := v.words.set i word
  length_eq := List.length_set.trans v.length_eq

theorem set_toNat (v : Words n) {i : Nat} (inside : i < n) (word : UInt32) :
    (v.set i word).toNat + 2 ^ (32 * i) * (v.get i).toNat = v.toNat + 2 ^ (32 * i) * word.toNat :=
  valueOf_set (inside.trans_eq v.length_eq.symm) word

/-- The two halves of a double array, and the array two halves make. -/
def low (v : Words (2 * n)) : Words n where
  words := v.words.take n
  length_eq := by
    rw [List.length_take, v.length_eq]
    omega

def high (v : Words (2 * n)) : Words n where
  words := v.words.drop n
  length_eq := by
    rw [List.length_drop, v.length_eq]
    omega

def join (low high : Words n) : Words (2 * n) where
  words := low.words ++ high.words
  length_eq := by
    rw [List.length_append, low.length_eq, high.length_eq]
    omega

@[simp] theorem join_low (l h : Words n) : (join l h).low = l :=
  ext_words (List.take_left' l.length_eq)

@[simp] theorem join_high (l h : Words n) : (join l h).high = h :=
  ext_words (List.drop_left' l.length_eq)

@[simp] theorem join_low_high (v : Words (2 * n)) : join v.low v.high = v :=
  ext_words (List.take_append_drop n v.words)

theorem join_toNat (l h : Words n) : (join l h).toNat = l.toNat + 2 ^ (32 * n) * h.toNat := by
  have value := valueOf_append l.words h.words
  rwa [l.length_eq] at value

theorem toNat_halves (v : Words (2 * n)) : v.toNat = v.low.toNat + 2 ^ (32 * n) * v.high.toNat := by
  rw [← join_toNat, join_low_high]

theorem low_toNat (v : Words (2 * n)) : v.low.toNat = v.toNat % 2 ^ (32 * n) := by
  rw [toNat_halves, Nat.add_mul_mod_self_left, Nat.mod_eq_of_lt v.low.toNat_lt]

end Words
