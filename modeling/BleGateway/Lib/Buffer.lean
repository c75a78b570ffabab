import Mathlib.Data.Fintype.Pi
import Mathlib.Data.List.OfFn

/-- A fixed array of `n` bytes. -/
abbrev Buffer (n : Nat) : Type := Fin n → UInt8

namespace Buffer
variable {n : Nat}

/-- One byte of the array. Offsets past the end read as zero. -/
def read (b : Buffer n) (i : Nat) : UInt8 :=
  if h : i < n then b ⟨i, h⟩ else 0

def slice (b : Buffer n) (off len : Nat) : Buffer len := fun i => b.read (off + i)

/-- Copy a list of bytes to the offsets from `pos` on. Bytes past the end are dropped. -/
def store (b : Buffer n) (pos : Nat) (src : List UInt8) : Buffer n := fun i =>
  if pos ≤ i.val then (src[i.val - pos]?).getD (b i) else b i

def bytes (b : Buffer n) : List UInt8 := List.ofFn b

@[simp] theorem bytes_length (b : Buffer n) : b.bytes.length = n := List.length_ofFn

@[simp] theorem bytes_inj {a b : Buffer n} : a.bytes = b.bytes ↔ a = b :=
  List.ofFn_injective.eq_iff

theorem read_of_lt (b : Buffer n) {i : Nat} (h : i < n) : b.read i = b ⟨i, h⟩ := dif_pos h

theorem read_store (b : Buffer n) (pos : Nat) (src : List UInt8) {i : Nat} (h : i < n) :
    (b.store pos src).read i =
      if pos ≤ i then (src[i - pos]?).getD (b.read i) else b.read i := by
  simp only [read, dif_pos h, store]

theorem read_store_of_lt (b : Buffer n) {src : List UInt8} {i : Nat} (inside : i < src.length)
    (fits : src.length ≤ n) : (b.store 0 src).read i = src[i] := by
  rw [read_store b 0 src (by omega), if_pos (Nat.zero_le i), Nat.sub_zero,
    List.getElem?_eq_getElem inside, Option.getD_some]

theorem read_store_of_ge (b : Buffer n) {src : List UInt8} {i : Nat} (outside : src.length ≤ i) :
    (b.store 0 src).read i = b.read i := by
  by_cases h : i < n
  · rw [read_store b 0 src h, if_pos (Nat.zero_le i), Nat.sub_zero,
      List.getElem?_eq_none outside, Option.getD_none]
  · simp only [read, dif_neg h]

theorem slice_congr {a b : Buffer n} {off len : Nat} (same : ∀ i, i < off + len → a.read i = b.read i) :
    a.slice off len = b.slice off len := by
  funext i
  exact same _ (by omega)

@[simp] theorem store_nil (b : Buffer n) (pos : Nat) : b.store pos [] = b := by
  funext i
  simp [store]

/-- Two adjacent copies are one copy of the concatenation. -/
theorem store_store (b : Buffer n) (pos : Nat) (first second : List UInt8) :
    (b.store pos first).store (pos + first.length) second = b.store pos (first ++ second) := by
  funext i
  simp only [store]
  by_cases low : pos ≤ i.val
  · by_cases high : pos + first.length ≤ i.val
    · have beyond : first.length ≤ i.val - pos := by omega
      rw [if_pos high, if_pos low, if_pos low, List.getElem?_append_right beyond,
        List.getElem?_eq_none beyond, Option.getD_none]
      congr 2
      omega
    · have within : i.val - pos < first.length := by omega
      rw [if_neg high, if_pos low, if_pos low, List.getElem?_append_left within]
  · rw [if_neg (by omega), if_neg low, if_neg low]

theorem store_cons (b : Buffer n) (pos : Nat) (byte : UInt8) (rest : List UInt8) :
    (b.store pos [byte]).store (pos + 1) rest = b.store pos (byte :: rest) :=
  store_store b pos [byte] rest

theorem store_concat (b : Buffer n) (pos : Nat) (first : List UInt8) (byte : UInt8) :
    (b.store pos first).store (pos + first.length) [byte] = b.store pos (first ++ [byte]) :=
  store_store b pos first [byte]

/-- What was copied is read back, also as a part of a longer copy. -/
theorem slice_store_between (b : Buffer n) (before src after : List UInt8)
    (fits : before.length + src.length ≤ n) :
    ((b.store 0 (before ++ (src ++ after))).slice before.length src.length).bytes = src := by
  apply List.ext_getElem
  · simp
  · intro i h _
    have inside : i < src.length := by simpa using h
    have copied : (before ++ (src ++ after))[before.length + i]? = some src[i] := by
      rw [List.getElem?_append_right (Nat.le_add_right _ i), Nat.add_sub_cancel_left,
        List.getElem?_append_left inside, List.getElem?_eq_getElem inside]
    simp only [bytes, slice, List.getElem_ofFn]
    rw [read_store b 0 _ (by omega), if_pos (Nat.zero_le _), Nat.sub_zero, copied, Option.getD_some]

theorem slice_store (b : Buffer n) {src : List UInt8} (fits : src.length ≤ n) :
    ((b.store 0 src).slice 0 src.length).bytes = src := by
  have read := slice_store_between b [] src [] (by simpa using fits)
  rwa [List.append_nil] at read

/-- A whole array that was copied is read back. -/
theorem slice_store_bytes {m : Nat} (b : Buffer n) {pos : Nat} (src : Buffer m) (fits : pos + m ≤ n) :
    (b.store pos src.bytes).slice pos m = src := by
  funext i
  have inside := i.isLt
  rw [slice, read_store _ _ _ (by omega), if_pos (by omega), Nat.add_sub_cancel_left]
  simp [bytes]

/-- Bytes before a copy keep what they held. -/
theorem slice_store_before {m : Nat} (b : Buffer n) {pos off : Nat} (src : List UInt8) (below : off + m ≤ pos) :
    (b.store pos src).slice off m = b.slice off m := by
  apply slice_congr
  intro i before
  by_cases inside : i < n
  · rw [read_store _ _ _ inside, if_neg (by omega)]
  · simp only [read, dif_neg inside]

/-- Copy `count` bytes of `src` from `off` on to the offsets from `pos` on. A copy that leaves
either array has no defined outcome. -/
def copy {m : Nat} (b : Buffer n) (pos : Nat) (src : Buffer m) (off count : Nat) : Option (Buffer n) :=
  if off + count ≤ m ∧ pos + count ≤ n then some (b.store pos (src.slice off count).bytes) else none

theorem copy_of_fits {m : Nat} (b : Buffer n) {pos : Nat} {src : Buffer m} {off count : Nat}
    (inside : off + count ≤ m) (fits : pos + count ≤ n) :
    b.copy pos src off count = some (b.store pos (src.slice off count).bytes) := if_pos ⟨inside, fits⟩

theorem copy_of_outside {m : Nat} (b : Buffer n) {pos : Nat} {src : Buffer m} {off count : Nat}
    (outside : m < off + count) : b.copy pos src off count = none := if_neg (by omega)

end Buffer

namespace LittleEndian

def bytes16 (x : UInt16) : List UInt8 := [UInt8.ofNat x.toNat, UInt8.ofNat (x.toNat / 256)]

def word16 (lo hi : UInt8) : UInt16 := UInt16.ofNat (lo.toNat + 256 * hi.toNat)

@[simp] theorem bytes16_length (x : UInt16) : (bytes16 x).length = 2 := rfl

theorem word16_bytes16 (x : UInt16) :
    word16 (UInt8.ofNat x.toNat) (UInt8.ofNat (x.toNat / 256)) = x := by
  have small := x.toNat_lt
  apply UInt16.toNat_inj.mp
  simp only [word16, UInt16.toNat_ofNat', UInt8.toNat_ofNat']
  omega

theorem word16_inj {lo hi lo' hi' : UInt8} (same : word16 lo hi = word16 lo' hi') :
    lo = lo' ∧ hi = hi' := by
  have atNat := congrArg UInt16.toNat same
  have := lo.toNat_lt
  have := hi.toNat_lt
  have := lo'.toNat_lt
  have := hi'.toNat_lt
  simp only [word16, UInt16.toNat_ofNat'] at atNat
  exact ⟨UInt8.toNat_inj.mp (by omega), UInt8.toNat_inj.mp (by omega)⟩

end LittleEndian
