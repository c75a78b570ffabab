import Mathlib.Data.List.Basic
import Mathlib.Data.List.Forall2

namespace Mealy
universe u v w

/-- A deterministic machine that answers every input with a list of outputs. -/
structure Machine (State : Type u) (Input : Type v) (Output : Type w) where
  step : State → Input → State × List Output

namespace Machine
variable {State : Type u} {Input : Type v} {Output : Type w} (m : Machine State Input Output)

def final : State → List Input → State
  | s, [] => s
  | s, i :: rest => final (m.step s i).1 rest

/-- Everything the machine has put out after a whole input word, in order. -/
def outputs : State → List Input → List Output
  | _, [] => []
  | s, i :: rest => (m.step s i).2 ++ outputs (m.step s i).1 rest

@[simp] theorem final_nil (s : State) : m.final s [] = s := rfl

@[simp] theorem outputs_nil (s : State) : m.outputs s [] = [] := rfl

@[simp] theorem final_cons (s : State) (i : Input) (rest : List Input) :
    m.final s (i :: rest) = m.final (m.step s i).1 rest := rfl

@[simp] theorem outputs_cons (s : State) (i : Input) (rest : List Input) :
    m.outputs s (i :: rest) = (m.step s i).2 ++ m.outputs (m.step s i).1 rest := rfl

/-- The outputs of a run, each beside the input it answers. -/
def answers : State → List Input → List (Input × Output)
  | _, [] => []
  | s, i :: rest => (m.step s i).2.map (fun output => (i, output)) ++ answers (m.step s i).1 rest

theorem answers_outputs (s : State) (word : List Input) :
    (m.answers s word).map Prod.snd = m.outputs s word := by
  induction word generalizing s with
  | nil => rfl
  | cons i rest ih =>
    have now : ((m.step s i).2.map fun output => (i, output)).map Prod.snd = (m.step s i).2 := by
      rw [List.map_map]
      exact List.map_id _
    rw [answers, List.map_append, now, ih, outputs_cons]

theorem final_append (s : State) (first second : List Input) :
    m.final s (first ++ second) = m.final (m.final s first) second := by
  induction first generalizing s with
  | nil => rfl
  | cons i rest ih => exact ih _

theorem outputs_append (s : State) (first second : List Input) :
    m.outputs s (first ++ second) = m.outputs s first ++ m.outputs (m.final s first) second := by
  induction first generalizing s with
  | nil => rfl
  | cons i rest ih =>
    simp only [List.cons_append, outputs_cons, final_cons]
    rw [ih, List.append_assoc]

/-- Every step of the run, taken at the state it starts from, satisfies `P`. -/
def Along (P : State → Input → Prop) : State → List Input → Prop
  | _, [] => True
  | s, i :: rest => P s i ∧ Along P (m.step s i).1 rest

@[simp] theorem along_cons {P : State → Input → Prop} {s : State} {i : Input} {rest : List Input} :
    m.Along P s (i :: rest) ↔ P s i ∧ m.Along P (m.step s i).1 rest := Iff.rfl

/-- How many steps of the run satisfy `P`. -/
def count (P : State → Input → Prop) [∀ s i, Decidable (P s i)] : State → List Input → Nat
  | _, [] => 0
  | s, i :: rest => (if P s i then 1 else 0) + count P (m.step s i).1 rest

@[simp] theorem count_cons (P : State → Input → Prop) [∀ s i, Decidable (P s i)] (s : State) (i : Input)
    (rest : List Input) :
    m.count P s (i :: rest) = (if P s i then 1 else 0) + m.count P (m.step s i).1 rest := rfl

variable {m}

theorem along_all {P : State → Input → Prop} (all : ∀ s i, P s i) (s : State) (word : List Input) :
    m.Along P s word := by
  induction word generalizing s with
  | nil => trivial
  | cons i rest ih => exact ⟨all s i, ih _⟩

theorem along_append {P : State → Input → Prop} {s : State} {first second : List Input} :
    m.Along P s (first ++ second) ↔ m.Along P s first ∧ m.Along P (m.final s first) second := by
  induction first generalizing s with
  | nil => exact (and_iff_right trivial).symm
  | cons i rest ih => exact (and_congr_right fun _ => ih).trans and_assoc.symm

theorem Along.and {P Q : State → Input → Prop} {s : State} {word : List Input} (first : m.Along P s word)
    (second : m.Along Q s word) : m.Along (fun s i => P s i ∧ Q s i) s word := by
  induction word generalizing s with
  | nil => trivial
  | cons i rest ih => exact ⟨⟨first.1, second.1⟩, ih first.2 second.2⟩

/-- The run rule with a history: what one step preserves about the state and
everything put out so far holds after every run. -/
theorem history_invariant {P : State → Input → Prop} {I : State → List Output → Prop}
    (keep : ∀ s past i, I s past → P s i → I (m.step s i).1 (past ++ (m.step s i).2))
    {s : State} {past : List Output} {word : List Input} (start : I s past) (along : m.Along P s word) :
    I (m.final s word) (past ++ m.outputs s word) := by
  induction word generalizing s past with
  | nil => simpa using start
  | cons i rest ih =>
    have next := ih (keep s past i start along.1) along.2
    simpa only [final_cons, outputs_cons, List.append_assoc] using next

theorem history_invariant_all {I : State → List Output → Prop}
    (keep : ∀ s past i, I s past → I (m.step s i).1 (past ++ (m.step s i).2))
    {s : State} {past : List Output} (start : I s past) (word : List Input) :
    I (m.final s word) (past ++ m.outputs s word) := by
  have everywhere : m.Along (fun _ _ => True) s word := by
    clear start
    induction word generalizing s with
    | nil => trivial
    | cons i rest ih => exact ⟨trivial, ih⟩
  exact history_invariant (fun s past i inv _ => keep s past i inv) start everywhere

/-- The accounting rule: a potential that rises by at most one at each step pays for the outputs, at
`cost` each. -/
theorem outputs_amortized (cost : Nat) (potential : State → Nat)
    (pays : ∀ s i, cost * (m.step s i).2.length + potential (m.step s i).1 ≤ potential s + 1)
    (s : State) (word : List Input) :
    cost * (m.outputs s word).length + potential (m.final s word) ≤ potential s + word.length := by
  induction word generalizing s with
  | nil => simp
  | cons i rest ih =>
    have now := pays s i
    have later := ih (m.step s i).1
    rw [outputs_cons, final_cons, List.length_append, List.length_cons, Nat.mul_add]
    omega

/-- The rule of a cycle: the steps that satisfy `P` put out the pieces of a cycle one after the other, and the steps
that only satisfy `Q` keep the position and put out nothing that is kept. -/
theorem outputs_cycle {α : Type*} {P Q : State → Input → Prop} [∀ s i, Decidable (P s i)] (keep : List Output → List α)
    (nothing : keep [] = []) (keeps : ∀ first second, keep (first ++ second) = keep first ++ keep second)
    (piece : Nat → List α) (period : Nat) (periodic : ∀ n, piece (n % period) = piece n) (position : State → Nat)
    (advances : ∀ s i, P s i → keep (m.step s i).2 = piece (position s) ∧
      position (m.step s i).1 = (position s + 1) % period)
    (stays : ∀ s i, ¬P s i → Q s i → keep (m.step s i).2 = [] ∧ position (m.step s i).1 = position s)
    {s : State} {word : List Input} (along : m.Along Q s word) :
    keep (m.outputs s word) = (List.range (m.count P s word)).flatMap (fun n => piece (position s + n)) ∧
      position (m.final s word) % period = (position s + m.count P s word) % period := by
  induction word generalizing s with
  | nil => exact ⟨nothing, rfl⟩
  | cons i rest ih =>
    obtain ⟨outputs, final⟩ := ih along.2
    rw [outputs_cons, keeps, outputs, final_cons, final, count_cons]
    by_cases now : P s i
    · obtain ⟨written, moved⟩ := advances s i now
      have later (n : Nat) : piece ((position s + 1) % period + n) = piece (position s + (n + 1)) := by
        rw [← periodic, Nat.mod_add_mod, periodic]
        congr 1
        omega
      rw [if_pos now, written, moved, Nat.add_comm 1, List.range_succ_eq_map, List.flatMap_cons, List.flatMap_map,
        Nat.mod_add_mod]
      simp only [later, Nat.add_zero, Nat.succ_eq_add_one, true_and]
      congr 1
      omega
    · obtain ⟨silent, kept⟩ := stays s i now along.1
      rw [if_neg now, silent, kept, Nat.zero_add, List.nil_append]
      exact ⟨rfl, rfl⟩

/-- The run rule for a property of states alone. -/
theorem final_invariant {I : State → Prop} (keep : ∀ s i, I s → I (m.step s i).1)
    {s : State} (start : I s) (word : List Input) : I (m.final s word) := by
  induction word generalizing s with
  | nil => exact start
  | cons i rest ih => exact ih (keep s i start)

theorem final_of_along {P : State → Input → Prop} {I : State → Prop}
    (keep : ∀ s i, I s → P s i → I (m.step s i).1)
    {s : State} {word : List Input} (start : I s) (along : m.Along P s word) : I (m.final s word) := by
  induction word generalizing s with
  | nil => exact start
  | cons i rest ih => exact ih (keep s i start along.1) along.2

theorem along_not_or_exists (P : State → Input → Prop) (s : State) (word : List Input) :
    m.Along (fun s i => ¬P s i) s word ∨
      ∃ before i after, word = before ++ i :: after ∧ P (m.final s before) i := by
  induction word generalizing s with
  | nil => exact Or.inl trivial
  | cons i rest ih =>
    by_cases now : P s i
    · exact Or.inr ⟨[], i, rest, rfl, now⟩
    · rcases ih (m.step s i).1 with never | ⟨before, j, after, split, later⟩
      · exact Or.inl ⟨now, never⟩
      · exact Or.inr ⟨i :: before, j, after, by rw [split]; rfl, later⟩

/-- Two conditions on steps that agree wherever the invariant holds agree along every run that
keeps to `P`. -/
theorem along_congr {P Q R : State → Input → Prop} {I : State → Prop}
    (keep : ∀ s i, I s → P s i → I (m.step s i).1) (same : ∀ s i, I s → P s i → (Q s i ↔ R s i))
    {s : State} {word : List Input} (start : I s) (along : m.Along P s word) :
    m.Along Q s word ↔ m.Along R s word := by
  induction word generalizing s with
  | nil => exact Iff.rfl
  | cons i rest ih =>
    simp only [along_cons]
    rw [same s i start along.1, ih (keep s i start along.1) along.2]

theorem along_iff_of_invariant {P Q : State → Input → Prop} {I : State → Prop}
    (keep : ∀ s i, I s → I (m.step s i).1) (same : ∀ s i, I s → (P s i ↔ Q s i)) {s : State}
    {word : List Input} (start : I s) : m.Along P s word ↔ m.Along Q s word := by
  induction word generalizing s with
  | nil => exact Iff.rfl
  | cons i rest ih => exact and_congr (same s i start) (ih (keep s i start))

theorem along_iff {P Q : State → Input → Prop} (same : ∀ s i, P s i ↔ Q s i) {s : State} {word : List Input} :
    m.Along P s word ↔ m.Along Q s word :=
  along_iff_of_invariant (I := fun _ => True) (fun _ _ _ => trivial) (fun s i _ => same s i) trivial

theorem along_of_invariant {P Q : State → Input → Prop} {I : State → Prop}
    (keep : ∀ s i, I s → P s i → I (m.step s i).1) (follows : ∀ s i, I s → P s i → Q s i)
    {s : State} {word : List Input} (start : I s) (along : m.Along P s word) : m.Along Q s word := by
  induction word generalizing s with
  | nil => trivial
  | cons i rest ih => exact ⟨follows s i start along.1, ih (keep s i start along.1) along.2⟩

/-- The rule of two runs side by side: what related inputs preserve about the states and say of the outputs, step by
step, holds of the whole runs. -/
theorem lockstep {State' : Type u} {Input' : Type v} {Output' : Type w} {n : Machine State' Input' Output'}
    {R : State → State' → Prop} {I : Input → Input' → Prop} {O : Output → Output' → Prop} {P : State → Input → Prop}
    {Q : State' → Input' → Prop}
    (keep : ∀ s t i j, R s t → I i j → P s i → Q t j →
      R (m.step s i).1 (n.step t j).1 ∧ List.Forall₂ O (m.step s i).2 (n.step t j).2)
    {s : State} {t : State'} {word : List Input} {word' : List Input'} (start : R s t)
    (inputs : List.Forall₂ I word word') (along : m.Along P s word) (along' : n.Along Q t word') :
    R (m.final s word) (n.final t word') ∧ List.Forall₂ O (m.outputs s word) (n.outputs t word') := by
  induction inputs generalizing s t with
  | nil => exact ⟨start, .nil⟩
  | cons now _ ih =>
    obtain ⟨next, outputs⟩ := keep _ _ _ _ start now along.1 along'.1
    obtain ⟨final, later⟩ := ih next along.2 along'.2
    exact ⟨final, List.rel_append outputs later⟩

end Machine

/-- The state of a machine and what an observer has noted of its run. -/
structure Observed (State : Type u) (Note : Type w) where
  state : State
  note : Note

namespace Machine
variable {State : Type u} {Input : Type v} {Output : Type w} {Note : Type w}

/-- The same machine beside an observer that sees the inputs and outputs of its steps. -/
def observe (m : Machine State Input Output) (see : Note → State → Input → List Output → Note) :
    Machine (Observed State Note) Input Output where
  step o i :=
    let (state, outputs) := m.step o.state i
    ({ state, note := see o.note o.state i outputs }, outputs)

variable {m : Machine State Input Output} {see : Note → State → Input → List Output → Note}

/-- An observer does not change the run. -/
theorem observe_run (o : Observed State Note) (word : List Input) :
    ((m.observe see).final o word).state = m.final o.state word ∧
      (m.observe see).outputs o word = m.outputs o.state word := by
  induction word generalizing o with
  | nil => exact ⟨rfl, rfl⟩
  | cons i rest ih =>
    obtain ⟨final, outputs⟩ := ih ((m.observe see).step o i).1
    exact ⟨final, congrArg ((m.step o.state i).2 ++ ·) outputs⟩

/-- What an observer keeps of the outputs of each step is what it keeps of those of the run. -/
theorem observe_history {α : Type u} (history : Note → List α) (keep : List Output → List α)
    (nothing : keep [] = [])
    (keeps : ∀ first second, keep (first ++ second) = keep first ++ keep second)
    (sees : ∀ note s i outputs, history (see note s i outputs) = history note ++ keep outputs)
    (o : Observed State Note) (word : List Input) :
    history ((m.observe see).final o word).note = history o.note ++ keep (m.outputs o.state word) := by
  induction word generalizing o with
  | nil => simp [nothing]
  | cons i rest ih =>
    have later := ih ((m.observe see).step o i).1
    have now := sees o.note o.state i (m.step o.state i).2
    rw [final_cons, later, outputs_cons, keeps, ← List.append_assoc, ← now]
    rfl

end Machine
end Mealy
