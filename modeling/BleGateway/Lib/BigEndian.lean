import BleGateway.Lib.Buffer
import Mathlib.Tactic.Ring

namespace BigEndian
variable {n : Nat}

/-- The number the first bytes of an array stand for, most significant byte first. -/
def valueOf (b : Buffer n) : Nat → Nat
  | 0 => 0
  | i + 1 => 256 * valueOf b i + (b.read i).toNat

/-- The number all bytes of an array stand for. -/
def value (b : Buffer n) : Nat := valueOf b n

theorem valueOf_lt (b : Buffer n) (i : Nat) : valueOf b i < 256 ^ i := by
  induction i with
  | zero => exact Nat.one_pos
  | succ i ih =>
    have byte := (b.read i).toNat_lt
    rw [valueOf, Nat.pow_succ]
    omega

/-- A byte is a digit of the value. -/
theorem valueOf_digit (b : Buffer n) {i j : Nat} (inside : j < i) :
    valueOf b i / 256 ^ (i - 1 - j) % 256 = (b.read j).toNat := by
  induction i with
  | zero => exact absurd inside (Nat.not_lt_zero j)
  | succ i ih =>
    have byte := (b.read i).toNat_lt
    rw [valueOf, Nat.add_sub_cancel]
    by_cases last : j = i
    · subst last
      rw [Nat.sub_self, Nat.pow_zero, Nat.div_one]
      omega
    · have before := ih (by omega)
      have shifted : i - j = i - 1 - j + 1 := by omega
      have above : (256 * valueOf b i + (b.read i).toNat) / 256 = valueOf b i := by omega
      rw [shifted, Nat.pow_succ', ← Nat.div_div_eq_div_mul, above, before]

theorem value_inj {a b : Buffer n} : value a = value b ↔ a = b := by
  constructor
  · intro same
    funext i
    have digits := valueOf_digit a i.isLt
    rw [show valueOf a n = valueOf b n from same, valueOf_digit b i.isLt] at digits
    have read := UInt8.toNat_inj.mp digits
    rw [Buffer.read_of_lt b i.isLt, Buffer.read_of_lt a i.isLt] at read
    exact read.symm
  · exact congrArg value

/-- An array whose bytes are the lowest digits of a number stands for it, but for the digits above. -/
theorem value_of_digits {b : Buffer n} {number : Nat}
    (digits : ∀ i, i < n → (b.read i).toNat = number / 256 ^ (n - 1 - i) % 256) : value b = number % 256 ^ n := by
  have prefixes : ∀ i, i ≤ n → valueOf b i = number / 256 ^ (n - i) % 256 ^ i := by
    intro i bound
    induction i with
    | zero => exact (Nat.mod_one _).symm
    | succ i ih =>
      have higher : n - i = n - 1 - i + 1 := by omega
      have next : n - (i + 1) = n - 1 - i := by omega
      rw [valueOf, ih (by omega), digits i (by omega), higher, next, Nat.pow_succ 256 (n - 1 - i),
        ← Nat.div_div_eq_div_mul, Nat.pow_succ', Nat.mod_mul, Nat.add_comm]
  have all := prefixes n le_rfl
  rwa [Nat.sub_self, Nat.pow_zero, Nat.div_one] at all

theorem value_lt (b : Buffer n) : value b < 256 ^ n := valueOf_lt b n

theorem value_eq_zero {b : Buffer n} : value b = 0 ↔ b = fun _ => 0 := by
  have zeros : ∀ i, valueOf (fun _ => 0 : Buffer n) i = 0 := by
    intro i
    induction i with
    | zero => rfl
    | succ i ih =>
      have read : Buffer.read (fun _ => 0 : Buffer n) i = 0 := by simp [Buffer.read]
      rw [valueOf, ih, read]
      rfl
  rw [← value_inj, value, value, zeros]

end BigEndian
