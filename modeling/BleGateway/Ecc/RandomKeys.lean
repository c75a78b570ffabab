import BleGateway.Ecc.Keys
import BleGateway.Ecc.VliMod
import BleGateway.Lib.Retry

namespace BleGateway
open Words CoZ Retry

/-- `uECC_RNG_Function`, with the state it draws from: it fills an array, or returns 0. -/
abbrev UECCRNGFunction (σ : Type) : Type := (num_words : Nat) → σ → Option (Words num_words) × σ

def uECCRNGMaxTries : Nat := 64

/-- The body of the loop of `uECC_generate_random_int`, once an array has been drawn. -/
def acceptRandomInt {n : Nat} (top random : Words (n + 1)) : Option (Words (n + 1)) :=
  let mask : UInt32 := 0xFFFFFFFF
  let num_bits := uECCVliNumBits top
  let random := random.set n (random.get n &&& mask >>> UInt32.ofNat ((n + 1) * 4 * 8 - num_bits))
  if !uECCVliIsZero random && uECCVliCmp top random == 1 then some random else none

variable {σ : Type}

/-- `uECC_generate_random_int`: the number, or `none` where it returns 0. -/
def uECCGenerateRandomInt {n : Nat} (g_rng_function : Option (UECCRNGFunction σ)) (top : Words (n + 1)) (s : σ) :
    Option (Words (n + 1)) × σ :=
  match g_rng_function with
  | none => (none, s)
  | some rng_function => retry (rng_function (n + 1)) (acceptRandomInt top) uECCRNGMaxTries s

/-- The body of the loop of `uECC_make_key`, once an array has been drawn: the private and the public key. -/
def acceptKey (_random : Words 16) : Option (Words 8 × Words 16) :=
  let _private := @uECCVliMmod 8 _random curveN
  let (computed, _public) := eccPointComputePublicKey _private
  if computed then some (_private, _public) else none

/-- `uECC_make_key`: what it returns, and the keys it leaves behind. -/
def uECCMakeKey (g_rng_function : Option (UECCRNGFunction σ)) (public_key : Buffer 64) (private_key : Buffer 32)
    (s : σ) : (Int × Buffer 64 × Buffer 32) × σ :=
  match g_rng_function with
  | none => ((0, public_key, private_key), s)
  | some rng_function =>
    match retry (rng_function 16) acceptKey uECCRNGMaxTries s with
    | (none, s) => ((0, public_key, private_key), s)
    | (some (_private, _public), s) => ((1, storePublic public_key _public, uECCVliNativeToBytes 32 _private), s)

section randomInt

variable {n : Nat}

/-- The mask leaves the lowest bits of an array, as many as it clears of the highest word. -/
theorem masked_toNat (random : Words (n + 1)) {shift : Nat} (small : shift < 32) :
    (random.set n (random.get n &&& (0xFFFFFFFF : UInt32) >>> UInt32.ofNat shift)).toNat =
      random.toNat % 2 ^ (32 * n + (32 - shift)) := by
  have bound := random.toNat_lt
  have highest : (random.get n).toNat = random.toNat / 2 ^ (32 * n) := by
    rw [get_toNat, Nat.mod_eq_of_lt]
    rw [Nat.div_lt_iff_lt_mul (Nat.two_pow_pos _), ← Nat.pow_add]
    exact bound.trans_eq (congrArg (2 ^ ·) (by omega))
  have ones : ((0xFFFFFFFF : UInt32) >>> UInt32.ofNat shift).toNat = 2 ^ (32 - shift) - 1 := by
    have value : (0xFFFFFFFF : UInt32).toNat = 2 ^ 32 - 1 := rfl
    have split : 2 ^ 32 = 2 ^ shift * 2 ^ (32 - shift) := (pow_mul_pow_sub 2 small.le).symm
    rw [shiftRight_toNat _ small, value, split]
    have positive := Nat.two_pow_pos shift
    obtain ⟨d, ones⟩ := Nat.exists_eq_add_one.mpr (Nat.two_pow_pos (32 - shift))
    rw [ones, Nat.mul_succ, Nat.add_sub_assoc positive, Nat.mul_add_div positive, Nat.div_eq_of_lt (by omega),
      Nat.add_zero, Nat.add_sub_cancel]
  have written := set_toNat random (Nat.lt_succ_self n) (random.get n &&& (0xFFFFFFFF : UInt32) >>> UInt32.ofNat shift)
  rw [UInt32.toNat_and, ones, Nat.and_two_pow_sub_one_eq_mod, highest] at written
  rw [Nat.pow_add, Nat.mod_mul]
  have split := Nat.mod_add_div random.toNat (2 ^ (32 * n))
  omega

/-- The lowest bits of a draw, as many as the bound has, are a number from 1 to below the bound. -/
def InRange (top random : Words (n + 1)) : Prop :=
  0 < random.toNat % 2 ^ top.toNat.size ∧ random.toNat % 2 ^ top.toNat.size < top.toNat

instance (top random : Words (n + 1)) : Decidable (InRange top random) := inferInstanceAs (Decidable (_ ∧ _))

/-- A draw is accepted by its lowest bits. -/
theorem acceptRandomInt_eq {top : Words (n + 1)} (full : 2 ^ (32 * n) ≤ top.toNat) (random : Words (n + 1)) :
    ∃ masked : Words (n + 1), masked.toNat = random.toNat % 2 ^ top.toNat.size ∧
      acceptRandomInt top random = if InRange top random then some masked else none := by
  obtain ⟨low, high⟩ := mod_size full
  have shift : (n + 1) * 4 * 8 - top.toNat.size < 32 := by omega
  have bits : 32 * n + (32 - ((n + 1) * 4 * 8 - top.toNat.size)) = top.toNat.size := by omega
  obtain ⟨masked, equal⟩ : ∃ masked, random.set n (random.get n &&& (0xFFFFFFFF : UInt32) >>>
      UInt32.ofNat ((n + 1) * 4 * 8 - top.toNat.size)) = masked := ⟨_, rfl⟩
  have value : masked.toNat = random.toNat % 2 ^ top.toNat.size := by
    rw [← equal, masked_toNat random shift, bits]
  have inRange : (!uECCVliIsZero masked && uECCVliCmp top masked == 1) = true ↔ InRange top random := by
    rw [Bool.and_eq_true, Bool.not_eq_true', ← Bool.not_eq_true, uECCVliIsZero_iff, beq_iff_eq, uECCVliCmp_eq,
      uECCVliCmpUnsafe_eq_one, ← ne_eq, ← Nat.pos_iff_ne_zero, value, InRange]
  refine ⟨masked, value, ?_⟩
  simp only [acceptRandomInt, uECCVliNumBits_eq, equal, inRange]

theorem acceptRandomInt_eq_none {top : Words (n + 1)} (full : 2 ^ (32 * n) ≤ top.toNat) (random : Words (n + 1)) :
    acceptRandomInt top random = none ↔ ¬InRange top random := by
  obtain ⟨masked, _, accepted⟩ := acceptRandomInt_eq full random
  rw [accepted]
  split_ifs with good <;> simp [good]

theorem acceptRandomInt_eq_some {top result : Words (n + 1)} (full : 2 ^ (32 * n) ≤ top.toNat)
    (random : Words (n + 1)) :
    acceptRandomInt top random = some result ↔
      InRange top random ∧ result.toNat = random.toNat % 2 ^ top.toNat.size := by
  obtain ⟨masked, value, accepted⟩ := acceptRandomInt_eq full random
  rw [accepted, ← value, eq_comm, toNat_inj]
  split_ifs with good <;> simp [good]

/-- A number that is found is in the range. -/
theorem uECCGenerateRandomInt_range {rng : UECCRNGFunction σ} {top result : Words (n + 1)} {s s' : σ}
    (highest : top.get n ≠ 0) (found : uECCGenerateRandomInt (some rng) top s = (some result, s')) :
    0 < result.toNat ∧ result.toNat < top.toNat := by
  obtain ⟨_, _, random, _, _, _, accepted⟩ := retry_eq_some.mp found
  obtain ⟨inRange, value⟩ := (acceptRandomInt_eq_some (full_of_get highest) random).mp accepted
  rwa [value]

/-- A number is what is left of the first draw within 64 that is in the range, with no draw before it failing. Past
8 words, where the local array of `uECC_vli_cmp` is too short, the model is not the code. -/
theorem uECCGenerateRandomInt_exact {rng : UECCRNGFunction σ} {top result : Words (n + 1)} {s s' : σ}
    (highest : top.get n ≠ 0) :
    uECCGenerateRandomInt (some rng) top s = (some result, s') ↔
      ∃ tries s₁ random, tries < 64 ∧ Rejected (rng (n + 1)) (¬InRange top ·) s tries s₁ ∧
        rng (n + 1) s₁ = (some random, s') ∧ InRange top random ∧
        result.toNat = random.toNat % 2 ^ top.toNat.size := by
  rw [uECCGenerateRandomInt, retry_eq_some]
  simp only [acceptRandomInt_eq_none (full_of_get highest), acceptRandomInt_eq_some (full_of_get highest)]
  rfl

/-- A generator that counts up from its state, in the lowest word. -/
def countingRNG : UECCRNGFunction UInt32 := fun num_words state =>
  (some ((uECCVliClear num_words).set 0 state), state + 1)

theorem uECCGenerateRandomInt_exact_counting :
    @uECCGenerateRandomInt _ 7 (some countingRNG) curveP 0 = (some (vliOne 7), 2) ↔
      ∃ tries s₁ random, tries < 64 ∧ Rejected (countingRNG (7 + 1)) (¬@InRange 7 curveP ·) 0 tries s₁ ∧
        countingRNG (7 + 1) s₁ = (some random, 2) ∧ @InRange 7 curveP random ∧
        (vliOne 7).toNat = random.toNat % 2 ^ (@Words.toNat (7 + 1) curveP).size := by
  have highest : curveP.get 7 ≠ 0 := by decide
  exact @uECCGenerateRandomInt_exact _ 7 countingRNG curveP (vliOne 7) 0 2 highest

end randomInt

/-- A draw gives the private key that is its residue modulo the order, unless no public key is computed for it. -/
theorem acceptKey_eq (_random : Words 16) :
    ∃ _private : Words 8, _private.toNat = _random.toNat % N256 ∧
      acceptKey _random = if UsableKey (_random.toNat % N256)
        then some (_private, (eccPointComputePublicKey _private).2) else none := by
  have full : 2 ^ (32 * 7) ≤ curveN.toNat := by decide +kernel
  have residue : ∀ key : Words 8, @uECCVliMmod 8 _random curveN = key → key.toNat = _random.toNat % N256 := by
    rintro _ rfl
    have value := @uECCVliMmod_value 7 _random curveN full
    rwa [curveN_toNat] at value
  obtain ⟨key, equal⟩ : ∃ key, @uECCVliMmod 8 _random curveN = key := ⟨_, rfl⟩
  have value := residue key equal
  have below : key.toNat < N256 := by
    rw [value]
    exact Nat.mod_lt _ (by decide +kernel)
  have usable : UsableKey (_random.toNat % N256) ↔ (eccPointComputePublicKey key).1 = true := by
    rw [← value, usableKey_iff below, eccPointComputePublicKey_computed]
  refine ⟨key, value, ?_⟩
  simp only [acceptKey, equal, usable]

theorem acceptKey_eq_none (_random : Words 16) : acceptKey _random = none ↔ ¬UsableKey (_random.toNat % N256) := by
  obtain ⟨_private, _, accepted⟩ := acceptKey_eq _random
  rw [accepted]
  split_ifs with usable <;> simp [usable]

theorem acceptKey_eq_some {_random _public : Words 16} {_private : Words 8} :
    acceptKey _random = some (_private, _public) ↔ UsableKey (_random.toNat % N256) ∧
      _private.toNat = _random.toNat % N256 ∧ _public = (eccPointComputePublicKey _private).2 := by
  obtain ⟨key, value, accepted⟩ := acceptKey_eq _random
  rw [accepted, ← value, toNat_inj]
  split_ifs with usable
  · constructor
    · intro same
      obtain ⟨rfl, rfl⟩ := Prod.mk.inj (Option.some.inj same)
      exact ⟨usable, rfl, rfl⟩
    · rintro ⟨_, rfl, rfl⟩
      rfl
  · simp [usable]

theorem storePublic_congr (first second : Buffer 64) (_public : Words 16) :
    storePublic first _public = storePublic second _public := by
  funext i
  have bound := i.isLt
  simp only [storePublic, Buffer.store]
  by_cases second : 32 ≤ i.val
  · have inside : i.val - 32 < (uECCVliNativeToBytes 32 (@high 8 _public)).bytes.length := by
      rw [Buffer.bytes_length]
      omega
    rw [if_pos second, if_pos second, List.getElem?_eq_getElem inside, Option.getD_some, Option.getD_some]
  · have inside : i.val - 0 < (uECCVliNativeToBytes 32 (@low 8 _public)).bytes.length := by
      rw [Buffer.bytes_length]
      omega
    rw [if_neg second, if_neg second, if_pos (Nat.zero_le _), if_pos (Nat.zero_le _), List.getElem?_eq_getElem inside,
      Option.getD_some, Option.getD_some]

theorem uECCMakeKey_eq_one {rng : UECCRNGFunction σ} {public_key _public : Buffer 64} {private_key _private : Buffer 32}
    {s s' : σ} :
    uECCMakeKey (some rng) public_key private_key s = ((1, _public, _private), s') ↔
      ∃ key point, retry (rng 16) acceptKey 64 s = (some (key, point), s') ∧ storePublic public_key point = _public ∧
        uECCVliNativeToBytes 32 key = _private := by
  obtain ⟨result, drawn⟩ : ∃ result, retry (rng 16) acceptKey 64 s = result := ⟨_, rfl⟩
  simp only [uECCMakeKey, uECCRNGMaxTries, drawn]
  rcases result with ⟨_ | ⟨key, point⟩, s₂⟩ <;> simp [and_assoc, and_comm]

/-- The public key of a usable key is written over whatever was there before. -/
theorem uECCComputePublicKey_stored {key : Words 8} (usable : UsableKey key.toNat) (public_key _public : Buffer 64) :
    storePublic public_key (eccPointComputePublicKey key).2 = _public ↔
      ∀ before, uECCComputePublicKey (uECCVliNativeToBytes 32 key) before = (1, _public) := by
  have computed (before : Buffer 64) : uECCComputePublicKey (uECCVliNativeToBytes 32 key) before =
      (1, storePublic public_key (eccPointComputePublicKey key).2) := by
    rw [uECCComputePublicKey_eq, value_nativeToBytes, if_pos usable, bytesToNative_words,
      storePublic_congr before public_key]
  simp only [computed, Prod.mk.injEq, true_and, forall_const]

/-- Keys come from the first draw within 64 whose residue modulo the order is a usable private key, and the public key
is the one that `uECC_compute_public_key` finds for it. Without such a draw both buffers are left as they were. -/
theorem uECCMakeKey_exact (rng : UECCRNGFunction σ) (public_key _public : Buffer 64) (private_key _private : Buffer 32)
    (s s' : σ) :
    (uECCMakeKey (some rng) public_key private_key s = ((1, _public, _private), s') ↔
        ∃ tries s₁ _random, tries < 64 ∧
          Rejected (rng 16) (fun _random => ¬UsableKey (_random.toNat % N256)) s tries s₁ ∧
          rng 16 s₁ = (some _random, s') ∧ UsableKey (_random.toNat % N256) ∧
          BigEndian.value _private = _random.toNat % N256 ∧
          ∀ before, uECCComputePublicKey _private before = (1, _public)) ∧
      ((uECCMakeKey (some rng) public_key private_key s).1.1 ≠ 1 →
        (uECCMakeKey (some rng) public_key private_key s).1 = (0, public_key, private_key)) := by
  refine ⟨?_, ?_⟩
  · rw [uECCMakeKey_eq_one]
    simp only [retry_eq_some, acceptKey_eq_none, acceptKey_eq_some]
    constructor
    · rintro ⟨key, point, ⟨tries, s₁, _random, bound, rejected, last, usable, value, rfl⟩, stored, rfl⟩
      have computed := (uECCComputePublicKey_stored (by rwa [value]) _ _).mp stored
      exact ⟨tries, s₁, _random, bound, rejected, last, usable, by rw [value_nativeToBytes, value], computed⟩
    · rintro ⟨tries, s₁, _random, bound, rejected, last, usable, value, computed⟩
      have same : uECCVliNativeToBytes 32 (uECCVliBytesToNative _private) = _private :=
        BigEndian.value_inj.mp (by rw [value_nativeToBytes, uECCVliBytesToNative_toNat])
      rw [← uECCVliBytesToNative_toNat] at value
      refine ⟨_, _, ⟨tries, s₁, _random, bound, rejected, last, usable, value, rfl⟩, ?_, same⟩
      rw [uECCComputePublicKey_stored (by rwa [value]), same]
      exact computed
  · intro failed
    obtain ⟨result, drawn⟩ : ∃ result, retry (rng 16) acceptKey 64 s = result := ⟨_, rfl⟩
    simp only [uECCMakeKey, uECCRNGMaxTries, drawn] at failed ⊢
    rcases result with ⟨_ | ⟨key, point⟩, s₂⟩
    · rfl
    · exact absurd rfl failed

end BleGateway
