import Mathlib.Data.List.Basic

namespace Framing
universe u v
variable {α : Type u} {β : Type v} (encode : α → List β)

/-- How many items of a stream of encodings its first `n` symbols hold in full. -/
def received : List α → Nat → Nat
  | [], _ => 0
  | item :: rest, n => if (encode item).length ≤ n then received rest (n - (encode item).length) + 1 else 0

/-- Where a stream of encodings can be cut: between two items, or within one. -/
inductive Cut : List α → List β → Prop
  | between {done rest} : Cut (done ++ rest) (done.flatMap encode)
  | within {done next rest part} : part ≠ [] → part <+: encode next → part.length < (encode next).length →
      Cut (done ++ next :: rest) (done.flatMap encode ++ part)

variable {encode}

theorem Cut.cons {item : α} {items : List α} {symbols : List β} (cut : Cut encode items symbols) :
    Cut encode (item :: items) (encode item ++ symbols) := by
  cases cut with
  | @between done rest => exact @Cut.between _ _ encode (item :: done) rest
  | @within done next rest part some inside short =>
    rw [← List.append_assoc, ← List.flatMap_cons]
    exact @Cut.within _ _ encode (item :: done) next rest part some inside short

/-- Every prefix of a stream is one of its cuts. -/
theorem cut_of_isPrefix {items : List α} {symbols : List β} (within : symbols <+: items.flatMap encode) :
    Cut encode items symbols := by
  induction items generalizing symbols with
  | nil =>
    obtain rfl : symbols = [] := List.prefix_nil.mp within
    exact @Cut.between _ _ encode [] []
  | cons item items ih =>
    rw [List.flatMap_cons] at within
    rcases Nat.lt_or_ge symbols.length (encode item).length with short | long
    · have inside := List.prefix_of_prefix_length_le within (List.prefix_append _ _) (Nat.le_of_lt short)
      by_cases empty : symbols = []
      · subst empty
        exact @Cut.between _ _ encode [] (item :: items)
      · exact @Cut.within _ _ encode [] item items symbols empty inside short
    · obtain ⟨later, rfl⟩ := List.prefix_of_prefix_length_le (List.prefix_append _ _) within long
      exact (ih ((List.prefix_append_right_inj _).mp within)).cons

variable (encode) in
theorem received_append (done rest : List α) (n : Nat) :
    received encode (done ++ rest) ((done.flatMap encode).length + n) = done.length + received encode rest n := by
  induction done with
  | nil => simp
  | cons item done ih =>
    rw [List.cons_append, received, List.flatMap_cons, List.length_append, if_pos (by omega), Nat.add_assoc,
      Nat.add_sub_cancel_left, ih, List.length_cons]
    omega

theorem received_within (done : List α) {next : α} {rest : List α} {part : List β}
    (short : part.length < (encode next).length) :
    received encode (done ++ next :: rest) (done.flatMap encode ++ part).length = done.length := by
  rw [List.length_append, received_append, received, if_neg (Nat.not_le.mpr short), Nat.add_zero]

theorem received_between (nonempty : ∀ item, encode item ≠ []) (done rest : List α) :
    received encode (done ++ rest) (done.flatMap encode).length = done.length := by
  have none : received encode rest 0 = 0 := by
    cases rest with
    | nil => rfl
    | cons item rest => exact if_neg (Nat.not_le.mpr (List.length_pos_of_ne_nil (nonempty item)))
  have total := received_append encode done rest 0
  rwa [Nat.add_zero, none, Nat.add_zero] at total

/-- A cut within an item is no cut between two. -/
theorem within_ne_between (nonempty : ∀ item, encode item ≠ []) {done rest other : List α} {next : α}
    {part : List β} (some : part ≠ []) (short : part.length < (encode next).length)
    (isPrefix : other <+: done ++ next :: rest) : done.flatMap encode ++ part ≠ other.flatMap encode := by
  intro same
  obtain ⟨more, items⟩ := isPrefix
  have counted := received_between nonempty other more
  rw [items, ← same, received_within done short] at counted
  have shared := List.prefix_of_prefix_length_le ⟨more, items⟩ (List.prefix_append done _)
    (Nat.le_of_eq counted.symm)
  rw [shared.eq_of_length counted.symm, List.append_right_eq_self] at same
  exact some same

/-- A stream reaches a given length at one item only. -/
theorem prefix_unique (nonempty : ∀ item, encode item ≠ []) {items first second : List α}
    (isPrefix : first <+: items) (isPrefix' : second <+: items)
    (same : first.flatMap encode = second.flatMap encode) : first = second := by
  wlog shorter : first.length ≤ second.length generalizing first second
  · exact (this isPrefix' isPrefix same.symm (by omega)).symm
  obtain ⟨more, rfl⟩ := List.prefix_of_prefix_length_le isPrefix isPrefix' shorter
  rw [List.flatMap_append, List.self_eq_append_right] at same
  cases more with
  | nil => rw [List.append_nil]
  | cons item more =>
    rw [List.flatMap_cons, List.append_eq_nil_iff] at same
    exact absurd same.1 (nonempty item)

end Framing
