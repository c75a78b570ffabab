import BleGateway.Ecc.VliModInv
import BleGateway.Lib.Primality

namespace BleGateway
open Words Primality

/-- `BYTES_TO_WORDS_8`: two words of four bytes each, least significant byte first. -/
def bytesToWords8 (a b c d e f g h : UInt32) : List UInt32 :=
  [d <<< 24 ||| c <<< 16 ||| b <<< 8 ||| a, h <<< 24 ||| g <<< 16 ||| f <<< 8 ||| e]

/-- The fields of `curve_secp256r1`. -/
def curveP : Words 8 where
  words :=
    bytesToWords8 0xFF 0xFF 0xFF 0xFF 0xFF 0xFF 0xFF 0xFF ++
    bytesToWords8 0xFF 0xFF 0xFF 0xFF 0x00 0x00 0x00 0x00 ++
    bytesToWords8 0x00 0x00 0x00 0x00 0x00 0x00 0x00 0x00 ++
    bytesToWords8 0x01 0x00 0x00 0x00 0xFF 0xFF 0xFF 0xFF
  length_eq := rfl

def curveN : Words 8 where
  words :=
    bytesToWords8 0x51 0x25 0x63 0xFC 0xC2 0xCA 0xB9 0xF3 ++
    bytesToWords8 0x84 0x9E 0x17 0xA7 0xAD 0xFA 0xE6 0xBC ++
    bytesToWords8 0xFF 0xFF 0xFF 0xFF 0xFF 0xFF 0xFF 0xFF ++
    bytesToWords8 0x00 0x00 0x00 0x00 0xFF 0xFF 0xFF 0xFF
  length_eq := rfl

def curveG : Words 16 where
  words :=
    bytesToWords8 0x96 0xC2 0x98 0xD8 0x45 0x39 0xA1 0xF4 ++
    bytesToWords8 0xA0 0x33 0xEB 0x2D 0x81 0x7D 0x03 0x77 ++
    bytesToWords8 0xF2 0x40 0xA4 0x63 0xE5 0xE6 0xBC 0xF8 ++
    bytesToWords8 0x47 0x42 0x2C 0xE1 0xF2 0xD1 0x17 0x6B ++
    bytesToWords8 0xF5 0x51 0xBF 0x37 0x68 0x40 0xB6 0xCB ++
    bytesToWords8 0xCE 0x5E 0x31 0x6B 0x57 0x33 0xCE 0x2B ++
    bytesToWords8 0x16 0x9E 0x0F 0x7C 0x4A 0xEB 0xE7 0x8E ++
    bytesToWords8 0x9B 0x7F 0x1A 0xFE 0xE2 0x42 0xE3 0x4F
  length_eq := rfl

def curveB : Words 8 where
  words :=
    bytesToWords8 0x4B 0x60 0xD2 0x27 0x3E 0x3C 0xCE 0x3B ++
    bytesToWords8 0xF6 0xB0 0x53 0xCC 0xB0 0x06 0x1D 0x65 ++
    bytesToWords8 0xBC 0x86 0x98 0x76 0x55 0xBD 0xEB 0xB3 ++
    bytesToWords8 0xE7 0x93 0x3A 0xAA 0xD8 0x35 0xC6 0x5A
  length_eq := rfl

/-- The prime of the field and the order of the group, as numbers. -/
def P256 : Nat := 115792089210356248762697446949407573530086143415290314195533631308867097853951

def N256 : Nat := 115792089210356248762697446949407573529996955224135760342422259061068512044369

theorem curveP_toNat : curveP.toNat = P256 := by decide +kernel

theorem curveN_toNat : curveN.toNat = N256 := by decide +kernel

/-- The numbers below both, down to those that trial division settles. -/
def lucasSteps : List Step :=
  [ { p := 115792089210356248762697446949407573530086143415290314195533631308867097853951, base := 6,
      factors := [(2, 1), (3, 1), (5, 2), (17, 1), (257, 1), (641, 1), (1531, 1), (65537, 1), (490463, 1),
        (6700417, 1), (835945042244614951780389953367877943453916927241, 1)] },
    { p := 115792089210356248762697446949407573529996955224135760342422259061068512044369, base := 7,
      factors := [(2, 4), (3, 1), (71, 1), (131, 1), (373, 1), (3407, 1), (17449, 1), (38189, 1),
        (187019741, 1), (622491383, 1), (1002328039319, 1), (2624747550333869278416773953, 1)] },
    { p := 835945042244614951780389953367877943453916927241, base := 11,
      factors := [(2, 3), (3, 3), (5, 1), (774023187263532362759620327192479577272145303, 1)] },
    { p := 774023187263532362759620327192479577272145303, base := 3,
      factors := [(2, 1), (3, 2), (2411, 1), (34282281433, 1), (11290956913871, 1), (46076956964474543, 1)] },
    { p := 2624747550333869278416773953, base := 7,
      factors := [(2, 6), (3, 2), (1297, 1), (16879, 1), (208150935158385979, 1)] },
    { p := 208150935158385979, base := 2,
      factors := [(2, 1), (3, 1), (11, 1), (43, 1), (127, 1), (3023, 1), (191039911, 1)] },
    { p := 46076956964474543, base := 5, factors := [(2, 1), (23, 1), (18169, 1), (78283, 1), (704251, 1)] },
    { p := 11290956913871, base := 13, factors := [(2, 1), (5, 1), (17, 1), (66417393611, 1)] },
    { p := 1002328039319, base := 19, factors := [(2, 1), (126241, 1), (3969899, 1)] },
    { p := 66417393611, base := 6, factors := [(2, 1), (5, 1), (53, 1), (173, 1), (197, 1), (3677, 1)] },
    { p := 34282281433, base := 17, factors := [(2, 3), (3, 1), (7, 1), (204061199, 1)] },
    { p := 622491383, base := 5, factors := [(2, 1), (311245691, 1)] },
    { p := 311245691, base := 2, factors := [(2, 1), (5, 1), (7, 1), (17, 1), (29, 2), (311, 1)] },
    { p := 204061199, base := 11, factors := [(2, 1), (11, 1), (23, 1), (107, 1), (3769, 1)] },
    { p := 191039911, base := 3, factors := [(2, 1), (3, 1), (5, 1), (41, 1), (155317, 1)] },
    { p := 187019741, base := 2, factors := [(2, 2), (5, 1), (9350987, 1)] },
    { p := 9350987, base := 2, factors := [(2, 1), (17, 1), (229, 1), (1201, 1)] },
    { p := 6700417, base := 5, factors := [(2, 7), (3, 1), (17449, 1)] },
    { p := 3969899, base := 2, factors := [(2, 1), (19, 1), (104471, 1)] },
    { p := 704251, base := 2, factors := [(2, 1), (3, 2), (5, 3), (313, 1)] },
    { p := 490463, base := 14, factors := [(2, 1), (7, 1), (53, 1), (661, 1)] },
    { p := 155317, base := 5, factors := [(2, 2), (3, 1), (7, 1), (43, 2)] },
    { p := 126241, base := 7, factors := [(2, 5), (3, 1), (5, 1), (263, 1)] },
    { p := 104471, base := 11, factors := [(2, 1), (5, 1), (31, 1), (337, 1)] } ]

theorem p256_n256_prime : P256.Prime ∧ N256.Prime := by
  have passed : P256 ∈ certified lucasSteps ∧ N256 ∈ certified lucasSteps := by decide +kernel
  exact ⟨certified_prime _ _ passed.1, certified_prime _ _ passed.2⟩

instance p256_fact : Fact P256.Prime := ⟨p256_n256_prime.1⟩

/-- A row of the reduction: a word of the product for each word, or zero. -/
def reductionRow (w0 w1 w2 w3 w4 w5 w6 w7 : UInt32) : Words 8 where
  words := [w0, w1, w2, w3, w4, w5, w6, w7]
  length_eq := rfl

/-- Adds a row and counts its carry; `subRow` counts the borrow. -/
def addRow (sum : Words 8 × Int) (tmp : Words 8) : Words 8 × Int :=
  let (result, carry) := uECCVliAdd sum.1 tmp
  (result, sum.2 + carry.toNat)

def subRow (sum : Words 8 × Int) (tmp : Words 8) : Words 8 × Int :=
  let (result, borrow) := uECCVliSub sum.1 tmp
  (result, sum.2 - borrow.toNat)

/-- Adds twice a row, which is doubled first. -/
def addTwice (sum : Words 8 × Int) (tmp : Words 8) : Words 8 × Int :=
  let (tmp, carry) := uECCVliAdd tmp tmp
  addRow (sum.1, sum.2 + carry.toNat) tmp

def mmodFastRows (product : Words 16) : Words 8 × Int :=
  let w := product.get
  let t : Words 8 × Int := (product.low, 0)
  let s1 := addTwice t (reductionRow 0 0 0 (w 11) (w 12) (w 13) (w 14) (w 15))
  let s2 := addTwice s1 (reductionRow 0 0 0 (w 12) (w 13) (w 14) (w 15) 0)
  let s3 := addRow s2 (reductionRow (w 8) (w 9) (w 10) 0 0 0 (w 14) (w 15))
  let s4 := addRow s3 (reductionRow (w 9) (w 10) (w 11) (w 13) (w 14) (w 15) (w 13) (w 8))
  let d1 := subRow s4 (reductionRow (w 11) (w 12) (w 13) 0 0 0 (w 8) (w 10))
  let d2 := subRow d1 (reductionRow (w 12) (w 13) (w 14) (w 15) 0 0 (w 9) (w 11))
  let d3 := subRow d2 (reductionRow (w 13) (w 14) (w 15) (w 8) (w 9) (w 10) 0 (w 12))
  subRow d3 (reductionRow (w 14) (w 15) 0 (w 9) (w 10) (w 11) 0 (w 13))

/-- The loop that adds the prime until the carry is no longer negative. -/
def addPrimeLoop : Nat → Words 8 × Int → Words 8
  | 0, sum => sum.1
  | fuel + 1, sum => if (addRow sum curveP).2 < 0 then addPrimeLoop fuel (addRow sum curveP) else (addRow sum curveP).1

/-- The loop that subtracts the prime while a carry is left or the prime is not above the result. -/
def subPrimeLoop : Nat → Words 8 × Int → Words 8
  | 0, sum => sum.1
  | fuel + 1, sum =>
    if sum.2 != 0 || uECCVliCmpUnsafe curveP sum.1 != 1 then subPrimeLoop fuel (subRow sum curveP) else sum.1

/-- `vli_mmod_fast_secp256r1`; seven rounds are enough for either loop. -/
def vliMmodFastSecp256r1 (product : Words 16) : Words 8 :=
  let sum := mmodFastRows product
  if sum.2 < 0 then addPrimeLoop 7 sum else subPrimeLoop 7 sum

/-- What a result and a signed carry above it stand for. -/
def signedValue (sum : Words 8 × Int) : Int := sum.1.toNat + 2 ^ 256 * sum.2

theorem addRow_value (sum : Words 8 × Int) (tmp : Words 8) :
    signedValue (addRow sum tmp) = signedValue sum + tmp.toNat := by
  have value := uECCVliAdd_value sum.1 tmp
  simp only [signedValue, addRow]
  omega

theorem subRow_value (sum : Words 8 × Int) (tmp : Words 8) :
    signedValue (subRow sum tmp) = signedValue sum - tmp.toNat := by
  have value := uECCVliSub_value sum.1 tmp
  simp only [signedValue, subRow]
  omega

theorem addTwice_value (sum : Words 8 × Int) (tmp : Words 8) :
    signedValue (addTwice sum tmp) = signedValue sum + 2 * tmp.toNat := by
  have value := uECCVliAdd_value tmp tmp
  simp only [addTwice, addRow_value]
  simp only [signedValue]
  omega

theorem reductionRow_toNat (w0 w1 w2 w3 w4 w5 w6 w7 : UInt32) :
    (reductionRow w0 w1 w2 w3 w4 w5 w6 w7).toNat = w0.toNat + 2 ^ 32 * w1.toNat + 2 ^ 64 * w2.toNat +
      2 ^ 96 * w3.toNat + 2 ^ 128 * w4.toNat + 2 ^ 160 * w5.toNat + 2 ^ 192 * w6.toNat + 2 ^ 224 * w7.toNat := by
  simp only [Words.toNat, reductionRow, valueOf_cons, valueOf_nil]
  ring

theorem high_eq_row (product : Words 16) :
    @high 8 product = reductionRow (product.get 8) (product.get 9) (product.get 10) (product.get 11) (product.get 12)
      (product.get 13) (product.get 14) (product.get 15) := by
  obtain ⟨words, length⟩ := product
  match words, length with
  | [_, _, _, _, _, _, _, _, _, _, _, _, _, _, _, _], _ => rfl

/-- The rows together differ from the product by a multiple of the prime. -/
theorem mmodFastRows_value (product : Words 16) :
    ∃ quotient : Int, signedValue (mmodFastRows product) + P256 * quotient = product.toNat := by
  have halves := @toNat_halves 8 product
  refine ⟨(product.get 8).toNat + 4294967297 * (product.get 9).toNat +
    18446744078004518912 * (product.get 10).toNat + 79228162532711081667253501951 * (product.get 11).toNat +
    340282367000166625977638945021017194495 * (product.get 12).toNat +
    1461501637671185285124623296161210883009696235519 * (product.get 13).toNat +
    6277101736848182401166692341332123086285927382448418586623 * (product.get 14).toNat +
    26959946673427741530053695850515137729844644212646842236464328081408 * (product.get 15).toNat, ?_⟩
  rw [high_eq_row, reductionRow_toNat] at halves
  simp only [mmodFastRows, addRow_value, subRow_value, addTwice_value, reductionRow_toNat, UInt32.toNat_zero]
  simp only [signedValue, P256]
  push_cast
  omega

theorem mmodFastRows_bounds (product : Words 16) :
    -(4 * 2 ^ 256) < signedValue (mmodFastRows product) ∧ signedValue (mmodFastRows product) < 7 * 2 ^ 256 := by
  have low := (@Words.low 8 product).toNat_lt
  have word : ∀ i, (product.get i).toNat < 2 ^ 32 := fun i => (product.get i).toNat_lt
  have w8 := word 8
  have w9 := word 9
  have w10 := word 10
  have w11 := word 11
  have w12 := word 12
  have w13 := word 13
  have w14 := word 14
  have w15 := word 15
  simp only [mmodFastRows, addRow_value, subRow_value, addTwice_value, reductionRow_toNat, UInt32.toNat_zero]
  simp only [signedValue]
  push_cast
  omega

/-- A number below zero becomes its residue while the prime is added. -/
theorem addPrimeLoop_value (fuel : Nat) (sum : Words 8 × Int) (negative : signedValue sum < 0)
    (enough : -(fuel * P256 : Int) ≤ signedValue sum) :
    ((addPrimeLoop fuel sum).toNat : Int) = signedValue sum % P256 := by
  induction fuel generalizing sum with
  | zero =>
    rw [Nat.cast_zero, Int.zero_mul] at enough
    omega
  | succ fuel ih =>
    have step := addRow_value sum curveP
    have bound := (addRow sum curveP).1.toNat_lt
    rw [curveP_toNat] at step
    have residue : signedValue sum % P256 = signedValue (addRow sum curveP) % P256 := by
      rw [step, Int.add_emod_right]
    rw [addPrimeLoop, residue]
    by_cases again : (addRow sum curveP).2 < 0
    · rw [if_pos again]
      apply ih
      · simp only [signedValue]
        omega
      · rw [step]
        push_cast at enough
        linarith
    · have carry : (addRow sum curveP).2 = 0 := by
        simp only [signedValue, P256] at step negative
        omega
      have value : signedValue (addRow sum curveP) = (addRow sum curveP).1.toNat := by
        rw [signedValue, carry]
        omega
      rw [if_neg again, value, Int.emod_eq_of_lt (by omega)]
      omega

theorem subPrimeLoop_value (fuel : Nat) (sum : Words 8 × Int) (nonnegative : 0 ≤ signedValue sum)
    (enough : signedValue sum < (fuel + 1) * P256) :
    ((subPrimeLoop fuel sum).toNat : Int) = signedValue sum % P256 := by
  have small : ∀ sum : Words 8 × Int, 0 ≤ signedValue sum → signedValue sum < P256 →
      (sum.1.toNat : Int) = signedValue sum % P256 := by
    intro sum low high
    have bound := sum.1.toNat_lt
    rw [Int.emod_eq_of_lt low high]
    simp only [signedValue, P256] at low high ⊢
    omega
  induction fuel generalizing sum with
  | zero => exact small sum nonnegative (by omega)
  | succ fuel ih =>
    have step := subRow_value sum curveP
    have bound := sum.1.toNat_lt
    have test : (sum.2 != 0 || uECCVliCmpUnsafe curveP sum.1 != 1) = true ↔ (P256 : Int) ≤ signedValue sum := by
      rw [Bool.or_eq_true, bne_iff_ne, bne_iff_ne, ne_eq, ne_eq, uECCVliCmpUnsafe_eq_one, curveP_toNat]
      simp only [signedValue, P256] at nonnegative ⊢
      omega
    rw [curveP_toNat] at step
    rw [subPrimeLoop]
    by_cases large : (P256 : Int) ≤ signedValue sum
    · rw [if_pos (test.mpr large), ih _ (by omega) (by push_cast at enough; linarith), step, Int.sub_emod_right]
    · rw [if_neg (mt test.mp large)]
      exact small sum nonnegative (by omega)

/-- The fast reduction is the remainder by the prime, for every product. -/
theorem vliMmodFastSecp256r1_value (product : Words 16) :
    (vliMmodFastSecp256r1 product).toNat = product.toNat % P256 := by
  obtain ⟨quotient, multiple⟩ := mmodFastRows_value product
  obtain ⟨low, high⟩ := mmodFastRows_bounds product
  have residue : signedValue (mmodFastRows product) % P256 = (product.toNat : Int) % P256 := by
    rw [← multiple, Int.add_mul_emod_self_left]
  have bound := (mmodFastRows product).1.toNat_lt
  zify
  rw [← residue, vliMmodFastSecp256r1]
  by_cases negative : (mmodFastRows product).2 < 0
  · rw [if_pos negative]
    apply addPrimeLoop_value
    · simp only [signedValue]
      omega
    · simp only [P256]
      omega
  · rw [if_neg negative]
    apply subPrimeLoop_value
    · simp only [signedValue]
      omega
    · simp only [P256]
      omega

def uECCVliModMultFast (left right : Words 8) : Words 8 := vliMmodFastSecp256r1 (@uECCVliMult 7 left right)

def uECCVliModSquareFast (left : Words 8) : Words 8 := uECCVliModMultFast left left

theorem uECCVliModMultFast_value (left right : Words 8) :
    (uECCVliModMultFast left right).toNat = left.toNat * right.toNat % P256 := by
  rw [uECCVliModMultFast, vliMmodFastSecp256r1_value, @uECCVliMult_value 7 left right (by decide)]

/-- The fast reduction agrees with the one that divides, for every product of 16 words, and so do the modular products
made with them. -/
theorem vliMmodFastSecp256r1_agrees (product : Words 16) (left right : Words 8) :
    vliMmodFastSecp256r1 product = @uECCVliMmod 8 product curveP ∧
      uECCVliModMultFast left right = @uECCVliModMult 7 left right curveP := by
  have full : 2 ^ (32 * 7) ≤ curveP.toNat := by
    rw [curveP_toNat]
    decide
  have agrees : ∀ product : Words 16, vliMmodFastSecp256r1 product = @uECCVliMmod 8 product curveP := by
    intro product
    rw [← toNat_inj, vliMmodFastSecp256r1_value, @uECCVliMmod_value 7 product curveP full, curveP_toNat]
  exact ⟨agrees product, agrees _⟩

theorem uECCVliModSquareFast_eq (left : Words 8) : uECCVliModSquareFast left = uECCVliModMultFast left left := rfl

-- Later proofs use the two through their values, and their words are not to be compared by unfolding.
attribute [irreducible] uECCVliModMultFast uECCVliModSquareFast

end BleGateway
