import Mathlib.NumberTheory.LucasPrimality
import Mathlib.Data.List.Prime

namespace Primality

/-- `a ^ e` by repeated squaring, for an exponent of at most `bits` bits. -/
def power {M : Type*} [Mul M] [One M] : Nat → M → Nat → M
  | 0, _, _ => 1
  | bits + 1, a, e =>
    if e % 2 = 1 then power bits (a * a) (e / 2) * a else power bits (a * a) (e / 2)

/-- Squaring computes the power in every monoid to which the multiplication maps. -/
theorem power_map {M N : Type*} [Mul M] [One M] [Monoid N] {f : M → N} (map_one : f 1 = 1)
    (map_mul : ∀ a b, f (a * b) = f a * f b) (bits : Nat) (a : M) (e : Nat) (enough : e < 2 ^ bits) :
    f (power bits a e) = f a ^ e := by
  induction bits generalizing a e with
  | zero =>
    obtain rfl : e = 0 := by omega
    rw [power, map_one, pow_zero]
  | succ bits ih =>
    have half := ih (a * a) (e / 2) (by omega)
    rw [map_mul, ← sq, ← pow_mul] at half
    rw [power]
    by_cases odd : e % 2 = 1
    · rw [if_pos odd, map_mul, half, ← pow_succ]
      congr 1
      omega
    · rw [if_neg odd, half]
      congr 1
      omega

theorem power_eq {M : Type*} [Monoid M] (bits : Nat) (a : M) (e : Nat) (enough : e < 2 ^ bits) :
    power bits a e = a ^ e :=
  @power_map M M _ _ _ id rfl (fun _ _ => rfl) bits a e enough

/-- A small number without a divisor up to its root. -/
def trialDivision (q : Nat) : Bool :=
  2 ≤ q && q < 100000 && (List.range 317).all fun d => d < 2 || q < d * d || q % d != 0

theorem trialDivision_prime {q : Nat} (passed : trialDivision q = true) : q.Prime := by
  simp only [trialDivision, Bool.and_eq_true, Bool.or_eq_true, decide_eq_true_eq, List.all_eq_true, List.mem_range,
    bne_iff_ne] at passed
  obtain ⟨⟨large, small⟩, none⟩ := passed
  refine Nat.prime_def_le_sqrt.mpr ⟨large, fun d two root divides => ?_⟩
  have square : d * d ≤ q := Nat.le_sqrt.mp root
  have bound : d < 317 := by nlinarith
  have rest := none d bound
  rw [Nat.mod_eq_zero_of_dvd divides] at rest
  omega

/-- A number with what Lucas's test needs: a base and the prime factors of the number before it. -/
structure Step where
  p : Nat
  base : Nat
  factors : List (Nat × Nat)

namespace Step

/-- Lucas's test, over the primes already known. -/
def holds (step : Step) (known : List Nat) : Bool :=
  2 ≤ step.p && step.p < 2 ^ 256 &&
  (step.factors.all fun q => known.contains q.1 || trialDivision q.1) &&
  (step.factors.map fun q => q.1 ^ q.2).prod == step.p - 1 &&
  power 256 (step.base : ZMod step.p) (step.p - 1) == 1 &&
  step.factors.all fun q => power 256 (step.base : ZMod step.p) ((step.p - 1) / q.1) != 1

theorem prime {step : Step} {known : List Nat} (primes : ∀ q ∈ known, q.Prime)
    (holds : step.holds known = true) : step.p.Prime := by
  simp only [Step.holds, Bool.and_eq_true, decide_eq_true_eq, List.all_eq_true, beq_iff_eq, bne_iff_ne, ne_eq,
    Bool.or_eq_true, List.contains_iff_mem] at holds
  obtain ⟨⟨⟨⟨⟨large, small⟩, factors⟩, product⟩, full⟩, proper⟩ := holds
  have fits : ∀ d, (step.p - 1) / d < 2 ^ 256 := fun d => (Nat.div_le_self _ d).trans_lt (by omega)
  rw [power_eq _ _ _ (by omega)] at full
  refine lucas_primality step.p step.base full fun q prime divides => ?_
  rw [← product] at divides
  obtain ⟨x, member, divides⟩ := (Prime.dvd_prod_iff prime.prime).mp divides
  obtain ⟨factor, inList, rfl⟩ := List.mem_map.mp member
  have factorPrime : factor.1.Prime := (factors factor inList).elim (primes _) trialDivision_prime
  obtain rfl := (Nat.prime_dvd_prime_iff_eq prime factorPrime).mp (prime.dvd_of_dvd_pow divides)
  rw [ne_eq, ← power_eq 256 _ _ (fits factor.1)]
  exact proper factor inList

end Step

/-- The numbers whose steps pass, each over those that stand behind it. -/
def certified : List Step → List Nat
  | [] => []
  | step :: rest => if step.holds (certified rest) then step.p :: certified rest else certified rest

theorem certified_prime (steps : List Step) : ∀ p ∈ certified steps, p.Prime := by
  induction steps with
  | nil => simp [certified]
  | cons step rest ih =>
    intro p member
    rw [certified] at member
    split at member
    · next holds =>
      rcases List.mem_cons.mp member with rfl | old
      · exact step.prime ih holds
      · exact ih p old
    · exact ih p member

end Primality
