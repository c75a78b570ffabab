import BleGateway.Lib.BigEndian
import BleGateway.Ecc.Vli

namespace BleGateway
open Words

variable {m n : Nat}

/-- One round of `uECC_vli_bytesToNative`. -/
def bytesToNativeRound (bytes : Buffer n) (native : Words m) (i : Nat) : Words m :=
  let b := n - 1 - i
  native.set (b / 4) (native.get (b / 4) ||| (bytes.read i).toUInt32 <<< UInt32.ofNat (8 * (b % 4)))

def uECCVliBytesToNative (bytes : Buffer n) : Words ((n + 3) / 4) :=
  (List.range n).foldl (bytesToNativeRound bytes) (uECCVliClear ((n + 3) / 4))

def uECCVliNativeToBytes (num_bytes : Nat) (native : Words m) : Buffer num_bytes := fun i =>
  let b := num_bytes - 1 - i
  (native.get (b / 4) >>> UInt32.ofNat (8 * (b % 4))).toUInt8

theorem shifted_byte (byte : UInt8) {s : Nat} (bound : s ≤ 24) :
    (byte.toUInt32 <<< UInt32.ofNat s).toNat = 2 ^ s * byte.toNat := by
  have small := byte.toNat_lt
  have scaled := Nat.mul_lt_mul_of_le_of_lt (Nat.pow_le_pow_right (n := 2) (by decide) bound) small (by decide)
  rw [shiftLeft_toNat _ (by omega), UInt8.toNat_toUInt32, Nat.mod_eq_of_lt (by omega)]

theorem pow_byte (b : Nat) : 256 ^ b = 2 ^ (32 * (b / 4)) * 2 ^ (8 * (b % 4)) := by
  rw [← Nat.pow_add, show 256 = 2 ^ 8 by rfl, ← Nat.pow_mul]
  congr 1
  omega

/-- A round fills the byte below those filled before. -/
theorem bytesToNativeRound_toNat (bytes : Buffer n) {native : Words m} {i c : Nat} (inside : i < n)
    (room : n ≤ 4 * m) (filled : native.toNat = 256 ^ (n - i) * c) :
    (bytesToNativeRound bytes native i).toNat = 256 ^ (n - 1 - i) * (256 * c + (bytes.read i).toNat) := by
  obtain ⟨b, position⟩ : ∃ b, n - 1 - i = b := ⟨_, rfl⟩
  have remaining : n - i = b + 1 := by omega
  have split := pow_byte b
  obtain ⟨s, shift⟩ : ∃ s, 8 * (b % 4) = s := ⟨_, rfl⟩
  have bound : s ≤ 24 := by omega
  rw [shift] at split
  have above : native.toNat / 2 ^ (32 * (b / 4)) = 2 ^ (s + 8) * c := by
    rw [filled, remaining, Nat.pow_succ, split, Nat.mul_assoc, Nat.mul_assoc,
      Nat.mul_div_cancel_left _ (Nat.two_pow_pos _), Nat.pow_add, Nat.mul_assoc]
  have old : (native.get (b / 4)).toNat = 2 ^ (s + 8) * (c % 2 ^ (24 - s)) := by
    have width : 2 ^ 32 = 2 ^ (s + 8) * 2 ^ (24 - s) := by
      rw [← Nat.pow_add]
      congr 1
      omega
    rw [get_toNat, above, width, Nat.mul_mod_mul_left]
  have byte := shifted_byte (bytes.read i) bound
  have small : ((bytes.read i).toUInt32 <<< UInt32.ofNat s).toNat < 2 ^ (s + 8) := by
    rw [byte, Nat.pow_add]
    exact Nat.mul_lt_mul_of_pos_left (bytes.read i).toNat_lt (Nat.two_pow_pos s)
  have word := or_toNat small old
  rw [← old, byte] at word
  have written := set_toNat native (by omega : b / 4 < m)
    ((bytes.read i).toUInt32 <<< UInt32.ofNat s ||| native.get (b / 4))
  rw [word, filled, remaining, Nat.pow_succ, Nat.mul_add, ← Nat.mul_assoc (2 ^ (32 * (b / 4))), ← split] at written
  simp only [bytesToNativeRound, position, shift]
  rw [UInt32.or_comm, Nat.mul_add, ← Nat.mul_assoc]
  omega

/-- The array stands for the number the bytes stand for. -/
theorem uECCVliBytesToNative_toNat (bytes : Buffer n) : (uECCVliBytesToNative bytes).toNat = BigEndian.value bytes := by
  have rounds : ∀ i, i ≤ n → ((List.range i).foldl (bytesToNativeRound bytes) (uECCVliClear ((n + 3) / 4))).toNat =
      256 ^ (n - i) * BigEndian.valueOf bytes i := by
    intro i bound
    induction i with
    | zero => exact uECCVliClear_toNat _
    | succ i ih =>
      have filled := bytesToNativeRound_toNat bytes (by omega : i < n) (by omega) (ih (by omega))
      have next : n - (i + 1) = n - 1 - i := by omega
      rw [List.range_succ, List.foldl_append, next]
      exact filled
  have all := rounds n le_rfl
  rwa [Nat.sub_self, Nat.pow_zero, Nat.one_mul] at all

theorem uECCVliNativeToBytes_digit (native : Words m) {i : Nat} (inside : i < n) :
    ((uECCVliNativeToBytes n native).read i).toNat = native.toNat / 256 ^ (n - 1 - i) % 256 := by
  obtain ⟨b, position⟩ : ∃ b, n - 1 - i = b := ⟨_, rfl⟩
  have split := pow_byte b
  obtain ⟨s, shift⟩ : ∃ s, 8 * (b % 4) = s := ⟨_, rfl⟩
  have bound : s ≤ 24 := by omega
  have width : 2 ^ 32 = 2 ^ s * 2 ^ (32 - s) := (pow_mul_pow_sub 2 (by omega)).symm
  have byte : 2 ^ 8 ∣ 2 ^ (32 - s) := Nat.pow_dvd_pow 2 (by omega)
  rw [Buffer.read_of_lt _ inside]
  simp only [uECCVliNativeToBytes, position, shift]
  rw [UInt32.toNat_toUInt8, shiftRight_toNat _ (by omega), get_toNat, width, Nat.mod_mul_right_div_self,
    Nat.mod_mod_of_dvd _ byte, Nat.div_div_eq_div_mul, ← shift, ← split]
  rfl

/-- The bytes stand for the number the array stands for, but for the bytes there is no room for. -/
theorem uECCVliNativeToBytes_value (native : Words m) :
    BigEndian.value (uECCVliNativeToBytes n native) = native.toNat % 256 ^ n :=
  BigEndian.value_of_digits fun _ inside => uECCVliNativeToBytes_digit native inside

/-- An array is read back from as many bytes as it has. -/
theorem bytesToNative_nativeToBytes (native : Words m) :
    (uECCVliBytesToNative (uECCVliNativeToBytes (4 * m) native)).toNat = native.toNat := by
  have room : 256 ^ (4 * m) = 2 ^ (32 * m) := by
    rw [show 256 = 2 ^ 8 by rfl, ← Nat.pow_mul, ← Nat.mul_assoc]
  rw [uECCVliBytesToNative_toNat, uECCVliNativeToBytes_value, room, Nat.mod_eq_of_lt native.toNat_lt]

/-- Both conversions are undone by the other: any number of bytes, and any array with all its bytes. -/
theorem uECCVliBytes_inverse (bytes : Buffer n) (native : Words m) :
    uECCVliNativeToBytes n (uECCVliBytesToNative bytes) = bytes ∧
      (uECCVliBytesToNative (uECCVliNativeToBytes (4 * m) native)).toNat = native.toNat := by
  refine ⟨?_, bytesToNative_nativeToBytes native⟩
  rw [← BigEndian.value_inj, uECCVliNativeToBytes_value, uECCVliBytesToNative_toNat,
    Nat.mod_eq_of_lt (BigEndian.value_lt bytes)]

end BleGateway
