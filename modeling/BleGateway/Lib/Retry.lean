import Mathlib.Tactic.TypeStar

namespace Retry

variable {σ α β : Type*}

/-- Draw until a value is accepted, a draw fails, or the tries are used up. -/
def retry (draw : σ → Option α × σ) (accept : α → Option β) : Nat → σ → Option β × σ
  | 0, s => (none, s)
  | tries + 1, s =>
    match draw s with
    | (none, s) => (none, s)
    | (some a, s) =>
      match accept a with
      | some b => (some b, s)
      | none => retry draw accept tries s

/-- A number of draws in a row, each of them refused. -/
inductive Rejected (draw : σ → Option α × σ) (refused : α → Prop) : σ → Nat → σ → Prop
  | start {s} : Rejected draw refused s 0 s
  | next {s a s₁ n s₂} : draw s = (some a, s₁) → refused a → Rejected draw refused s₁ n s₂ →
      Rejected draw refused s (n + 1) s₂

variable {draw : σ → Option α × σ} {accept : α → Option β} {tries : Nat} {s s' : σ} {b : β}

/-- A result is the first draw that is accepted, within the tries. -/
theorem retry_eq_some :
    retry draw accept tries s = (some b, s') ↔
      ∃ n s₁ a, n < tries ∧ Rejected draw (fun a => accept a = none) s n s₁ ∧ draw s₁ = (some a, s') ∧
        accept a = some b := by
  constructor
  · intro result
    induction tries generalizing s with
    | zero => cases result
    | succ tries ih =>
      rw [retry] at result
      split at result
      · cases result
      · rename_i a s₁ drawn
        split at result
        · rename_i b' accepted
          obtain ⟨value, rfl⟩ := Prod.mk.inj result
          exact ⟨0, s, a, Nat.succ_pos tries, .start, drawn, accepted.trans value⟩
        · rename_i refused
          obtain ⟨n, s₂, a', bound, rejected, last, accepted⟩ := ih result
          exact ⟨n + 1, s₂, a', Nat.succ_lt_succ bound, .next drawn refused rejected, last, accepted⟩
  · rintro ⟨n, s₁, a, bound, rejected, last, accepted⟩
    induction rejected generalizing tries with
    | start =>
      obtain ⟨tries, rfl⟩ := Nat.exists_eq_succ_of_ne_zero (Nat.ne_zero_of_lt bound)
      simp [retry, last, accepted]
    | next drawn refused _ ih =>
      obtain ⟨tries, rfl⟩ := Nat.exists_eq_succ_of_ne_zero (Nat.ne_zero_of_lt bound)
      have rest := ih (Nat.lt_of_succ_lt_succ bound) last
      simp [retry, drawn, refused, rest]

end Retry
