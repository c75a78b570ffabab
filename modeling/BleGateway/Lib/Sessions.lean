import Mathlib.Data.List.Basic

namespace Sessions
universe u
variable {α : Type u}

/-- What a session that has done its first `k` steps has written. -/
def written (steps : List (List α)) (k : Nat) : List α := (steps.take k).flatten

/-- A word made of sessions one after the other, each a non-empty prefix of the step sequence. -/
def PrefixRuns (steps : List (List α)) (word : List α) : Prop :=
  ∃ lens : List Nat, (∀ n ∈ lens, 0 < n ∧ n ≤ steps.length) ∧ word = lens.flatMap (written steps)

/-- Sessions one after the other, of which the last has done `k` steps and is not ended yet. -/
def Open (steps : List (List α)) (k : Nat) (word : List α) : Prop :=
  k ≤ steps.length ∧ ∃ earlier, PrefixRuns steps earlier ∧ word = earlier ++ written steps k

variable {steps : List (List α)} {k : Nat} {word : List α}

theorem prefixRuns_nil : PrefixRuns steps [] := ⟨[], by simp, rfl⟩

theorem PrefixRuns.append_written (runs : PrefixRuns steps word) (positive : 0 < k) (within : k ≤ steps.length) :
    PrefixRuns steps (word ++ written steps k) := by
  obtain ⟨lens, bounds, rfl⟩ := runs
  refine ⟨lens ++ [k], ?_, ?_⟩
  · intro n member
    rcases List.mem_append.mp member with old | new
    · exact bounds n old
    · rw [List.mem_singleton.mp new]
      exact ⟨positive, within⟩
  · rw [List.flatMap_append, List.flatMap_singleton]

theorem PrefixRuns.opened (runs : PrefixRuns steps word) : Open steps 0 word :=
  ⟨Nat.zero_le _, word, runs, by simp [written]⟩

theorem Open.prefixRuns (session : Open steps k word) : PrefixRuns steps word := by
  obtain ⟨within, earlier, runs, rfl⟩ := session
  rcases Nat.eq_zero_or_pos k with zero | positive
  · subst zero
    simpa [written] using runs
  · exact runs.append_written positive within

theorem Open.close (session : Open steps k word) : Open steps 0 word := session.prefixRuns.opened

theorem Open.next {step : List α} (session : Open steps k word) (next : steps[k]? = some step) :
    Open steps (k + 1) (word ++ step) := by
  obtain ⟨_, earlier, runs, rfl⟩ := session
  obtain ⟨within, value⟩ := List.getElem?_eq_some_iff.mp next
  refine ⟨within, earlier, runs, ?_⟩
  rw [List.append_assoc, written, written, List.take_add_one, next]
  simp

/-- A session that has just written the single item of a step ends with it. -/
theorem Open.getLast {item : α} (session : Open steps (k + 1) word) (step : steps[k]? = some [item]) :
    word.getLast? = some item := by
  obtain ⟨_, earlier, _, rfl⟩ := session
  rw [written, List.take_add_one, step]
  simp [← List.append_assoc]

end Sessions
