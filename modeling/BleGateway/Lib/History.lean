import Mathlib.Data.List.Basic

namespace History
universe u
variable {α : Type u}

/-- Every entry of the history stands in the relation `P` to the entries before it. -/
def Causal (P : List α → α → Prop) (history : List α) : Prop :=
  ∀ before entry after, history = before ++ entry :: after → P before entry

theorem causal_nil {P : List α → α → Prop} : Causal P [] := by
  intro before entry after split
  simp at split

theorem causal_cons {P : List α → α → Prop} {entry : α} {rest : List α} :
    Causal P (entry :: rest) ↔ P [] entry ∧ Causal (fun before => P (entry :: before)) rest := by
  constructor
  · intro causal
    refine ⟨causal [] entry rest rfl, ?_⟩
    intro before next after split
    exact causal (entry :: before) next after (by rw [split]; rfl)
  · rintro ⟨first, later⟩ before next after split
    cases before with
    | nil =>
      cases split
      exact first
    | cons head before =>
      cases split
      exact later before next after rfl

theorem causal_append {P : List α → α → Prop} {past recent : List α} :
    Causal P (past ++ recent) ↔ Causal P past ∧ Causal (fun before => P (past ++ before)) recent := by
  induction past generalizing P with
  | nil => simp [causal_nil]
  | cons entry past ih =>
    simp only [List.cons_append, causal_cons, ih, and_assoc]

theorem Causal.append_of_forall {P : List α → α → Prop} {past recent : List α} (causal : Causal P past)
    (any : ∀ entry ∈ recent, ∀ before, P before entry) : Causal P (past ++ recent) := by
  refine causal_append.mpr ⟨causal, ?_⟩
  rintro before entry after rfl
  exact any entry (by simp) _

theorem Causal.concat {P : List α → α → Prop} {past : List α} {entry : α} (causal : Causal P past)
    (new : P past entry) : Causal P (past ++ [entry]) := by
  refine causal_append.mpr ⟨causal, causal_cons.mpr ⟨?_, causal_nil⟩⟩
  rwa [List.append_nil]

variable (stop : α → Prop) [DecidablePred stop]

/-- The last entry that satisfies `stop`. -/
def last (history : List α) : Option α := (history.filter stop).getLast?

/-- The entries after the last one that satisfies `stop`. -/
def since : List α → List α := List.foldl (fun recent entry => if stop entry then [] else recent ++ [entry]) []

variable {stop}

theorem since_append_stop {past : List α} {entry : α} (stops : stop entry) :
    since stop (past ++ [entry]) = [] := by
  simp [since, stops]

theorem since_append_of_not {past recent : List α} (goesOn : ∀ entry ∈ recent, ¬stop entry) :
    since stop (past ++ recent) = since stop past ++ recent := by
  induction recent generalizing past with
  | nil => simp
  | cons entry recent ih =>
    have step : since stop (past ++ [entry]) = since stop past ++ [entry] := by
      simp [since, goesOn entry (List.mem_cons_self ..)]
    rw [List.append_cons, ih (fun e member => goesOn e (List.mem_cons_of_mem _ member)), step,
      List.append_assoc]
    rfl

theorem last_append_of_not {past recent : List α} (goesOn : ∀ entry ∈ recent, ¬stop entry) :
    last stop (past ++ recent) = last stop past := by
  have none : recent.filter stop = [] := by simpa using goesOn
  rw [last, List.filter_append, none, List.append_nil]
  rfl

theorem last_append_stop {past : List α} {entry : α} (stops : stop entry) :
    last stop (past ++ [entry]) = some entry := by
  simp [last, stops]

end History
