import BleGateway.Gateway

namespace BleGateway

def BleParser.takeLength (p : BleParser) (byte : UInt8) : BleParser :=
  { p with pos := 0, cmd.len := (byte.toNat : Int) - 1, state := .opcode }

/-- The parser record once one byte of payload has been taken; the last one ends the frame. -/
def BleParser.takeData (p : BleParser) (byte : UInt8) : BleParser where
  state := if p.cmd.len = p.pos + 1 then .len else .data
  cmd := { p.cmd with data := p.cmd.data.store p.pos [byte] }
  pos := p.pos + 1

/-- The next byte is taken as a length byte: in LEN, or in DATA when the payload is already
complete, since the pending frame is then handed over without taking a byte. -/
def BleParser.AtLength (p : BleParser) : Prop :=
  p.state = .len ∨ p.state = .data ∧ p.cmd.len = p.pos

instance (p : BleParser) : Decidable p.AtLength := inferInstanceAs (Decidable (_ ∨ _))

/-- The parser one byte at a time, with the command a byte completes. `none` is the payload
count gone wrong. -/
def byteStep (p : BleParser) (byte : UInt8) : Option BleParser × List BleCmd :=
  match p.state with
  | .len => (some (p.takeLength byte), [])
  | .opcode => (some { p with cmd.opcode := byte, state := .data }, [])
  | .data =>
    if p.cmd.len = p.pos then (some (p.takeLength byte), [p.cmd])
    else if p.pos < p.cmd.len then
      (some (p.takeData byte), if p.cmd.len = p.pos + 1 then [(p.takeData byte).cmd] else [])
    else (none, [])

def byteMachine : Mealy.Machine (Option BleParser) UInt8 BleCmd where
  step
    | some p, byte => byteStep p byte
    | none, _ => (none, [])

@[simp] theorem byteMachine_step_some (p : BleParser) (byte : UInt8) :
    byteMachine.step (some p) byte = byteStep p byte := rfl

theorem byteMachine_stuck (bytes : List UInt8) :
    byteMachine.final none bytes = none ∧ byteMachine.outputs none bytes = [] := by
  induction bytes with
  | nil => exact ⟨rfl, rfl⟩
  | cons byte rest ih => exact ih

/-- The bytes of a stream that the parser takes in state LEN. -/
def lengthBytes : Option BleParser → List UInt8 → List UInt8
  | some p, byte :: rest =>
    (if p.AtLength then [byte] else []) ++ lengthBytes (byteStep p byte).1 rest
  | _, _ => []

/-- What every parser record satisfies whatever bytes it was fed. -/
structure BleParser.Valid (p : BleParser) : Prop where
  len_bounds : p.state ≠ .len → -1 ≤ p.cmd.len ∧ p.cmd.len ≤ 254
  pos_opcode : p.state = .opcode → p.pos = 0
  pos_data : p.state = .data → p.pos ≤ max p.cmd.len 0

theorem BleParser.valid_of_len {p : BleParser} (state : p.state = .len) : p.Valid where
  len_bounds := fun h => absurd state h
  pos_opcode := fun h => nomatch state.symm.trans h
  pos_data := fun h => nomatch state.symm.trans h

theorem BleParser.takeLength_valid (p : BleParser) (byte : UInt8) : (p.takeLength byte).Valid where
  len_bounds := fun _ => by
    have := byte.toNat_lt
    simp only [takeLength]
    omega
  pos_opcode := fun _ => rfl
  pos_data := fun h => nomatch h

theorem BleParser.Valid.takeOpcode {p : BleParser} (valid : p.Valid) (opcode : p.state = .opcode)
    (byte : UInt8) : ({ p with cmd.opcode := byte, state := .data } : BleParser).Valid where
  len_bounds := fun _ => valid.len_bounds (by simp [opcode])
  pos_opcode := fun h => nomatch h
  pos_data := fun _ => by
    have start := valid.pos_opcode opcode
    simp only [start]
    omega

theorem BleParser.Valid.takeData {p : BleParser} (valid : p.Valid) (data : p.state = .data)
    (inside : p.pos < p.cmd.len) (byte : UInt8) : (p.takeData byte).Valid where
  len_bounds := fun _ => valid.len_bounds (by simp [data])
  pos_opcode := fun h => by
    simp only [BleParser.takeData] at h
    split at h <;> cases h
  pos_data := fun _ => by
    simp only [BleParser.takeData]
    omega

theorem byteStep_valid {p q : BleParser} {byte : UInt8} (valid : p.Valid)
    (step : (byteStep p byte).1 = some q) : q.Valid := by
  unfold byteStep at step
  split at step
  · cases Option.some.inj step
    exact p.takeLength_valid byte
  · cases Option.some.inj step
    exact valid.takeOpcode ‹_› byte
  · split at step
    · cases Option.some.inj step
      exact p.takeLength_valid byte
    · split at step
      · cases Option.some.inj step
        exact valid.takeData ‹_› ‹_› byte
      · cases step

theorem byteMachine_valid {p q : BleParser} {bytes : List UInt8} (valid : p.Valid)
    (run : byteMachine.final (some p) bytes = some q) : q.Valid := by
  have keep : ∀ s byte, (∀ p, s = some p → p.Valid) →
      ∀ p, (byteMachine.step s byte).1 = some p → p.Valid := by
    intro s byte old p step
    cases s with
    | none => cases step
    | some before => exact byteStep_valid (old before rfl) step
  exact Mealy.Machine.final_invariant keep (fun _ same => Option.some.inj same ▸ valid) bytes q run

theorem byteMachine_payload_partial {p : BleParser} (bytes : List UInt8) (data : p.state = .data)
    (short : p.pos + bytes.length < p.cmd.len) :
    byteMachine.final (some p) bytes =
        some { p with cmd.data := p.cmd.data.store p.pos bytes, pos := p.pos + bytes.length } ∧
      byteMachine.outputs (some p) bytes = [] := by
  induction bytes generalizing p with
  | nil => simp
  | cons byte rest ih =>
    simp only [List.length_cons] at short
    have unfilled : ¬ p.cmd.len = p.pos := by omega
    have more : ¬ p.cmd.len = p.pos + 1 := by omega
    have step : byteStep p byte = (some (p.takeData byte), []) := by
      simp only [byteStep, data, if_neg unfilled, if_neg more, if_pos (by omega : p.pos < p.cmd.len)]
    have next : (p.takeData byte).state = .data := by simp only [BleParser.takeData, if_neg more]
    obtain ⟨final, outputs⟩ := ih next (by simp only [BleParser.takeData]; omega)
    rw [Mealy.Machine.final_cons, Mealy.Machine.outputs_cons, byteMachine_step_some, step]
    refine ⟨final.trans ?_, outputs⟩
    simp only [BleParser.takeData, if_neg more, Buffer.store_cons, List.length_cons, data]
    rw [Nat.add_assoc, Nat.add_comm 1]

def BleParser.complete (p : BleParser) (bytes : List UInt8) : BleParser where
  state := .len
  cmd := { p.cmd with data := p.cmd.data.store p.pos bytes }
  pos := p.pos + bytes.length

theorem byteMachine_payload_complete {p : BleParser} {bytes : List UInt8} (data : p.state = .data)
    (nonempty : bytes ≠ []) (filled : p.pos + bytes.length = p.cmd.len) :
    byteMachine.final (some p) bytes = some (p.complete bytes) ∧
      byteMachine.outputs (some p) bytes = [(p.complete bytes).cmd] := by
  obtain ⟨first, last, rfl⟩ := (List.eq_nil_or_concat' bytes).resolve_left nonempty
  rw [List.length_append, List.length_singleton] at filled
  obtain ⟨final, outputs⟩ := byteMachine_payload_partial first data (by omega)
  have unfilled : ¬ p.cmd.len = ((p.pos + first.length : Nat) : Int) := by omega
  have fills : p.cmd.len = ((p.pos + first.length : Nat) : Int) + 1 := by omega
  have inside : ((p.pos + first.length : Nat) : Int) < p.cmd.len := by omega
  rw [Mealy.Machine.final_append, Mealy.Machine.outputs_append, final, outputs]
  simp only [Mealy.Machine.final_cons, Mealy.Machine.final_nil, Mealy.Machine.outputs_cons,
    Mealy.Machine.outputs_nil, byteMachine_step_some, byteStep, data, if_neg unfilled, if_pos inside,
    if_pos fills, BleParser.takeData, BleParser.complete, Buffer.store_concat, List.length_append,
    List.length_singleton, Nat.add_assoc, List.nil_append, List.append_nil, and_self]

/-- A pending frame is handed over before the next byte is taken, as its length byte. -/
theorem byteStep_pending {p : BleParser} (data : p.state = .data) (filled : p.cmd.len = p.pos)
    (byte : UInt8) :
    byteStep p byte = (some (p.takeLength byte), [p.cmd]) ∧
      byteStep (p.complete []) byte = (some (p.takeLength byte), []) := by
  constructor
  · simp only [byteStep, data, if_pos filled]
  · simp only [byteStep, BleParser.complete, Buffer.store_nil, BleParser.takeLength]

/-- The bytes of a payload complete the command with the last of them or, when there are none, once
the stream goes on. -/
theorem byteMachine_payload {p : BleParser} {bytes rest : List UInt8} (data : p.state = .data)
    (more : bytes ++ rest ≠ []) (filled : p.pos + bytes.length = p.cmd.len) :
    byteMachine.final (some p) (bytes ++ rest) = byteMachine.final (some (p.complete bytes)) rest ∧
      byteMachine.outputs (some p) (bytes ++ rest) =
        (p.complete bytes).cmd :: byteMachine.outputs (some (p.complete bytes)) rest := by
  by_cases empty : bytes = []
  · -- the pending frame is handed over when the next byte is seen
    subst empty
    obtain ⟨byte, rest, rfl⟩ := List.exists_cons_of_ne_nil more
    obtain ⟨pending, fresh⟩ := byteStep_pending data (by simpa using filled.symm) byte
    simp only [List.nil_append, Mealy.Machine.final_cons, Mealy.Machine.outputs_cons, byteMachine_step_some,
      pending, fresh]
    simp [BleParser.complete]
  · obtain ⟨final, outputs⟩ := byteMachine_payload_complete data empty filled
    rw [Mealy.Machine.final_append, Mealy.Machine.outputs_append, final, outputs]
    exact ⟨rfl, rfl⟩

/-- What one call of `ble_parser` does, in terms of the byte automaton. A finished call either
takes bytes or hands over a pending frame and leaves DATA. -/
inductive ParserCall (bytes : List UInt8) (p : BleParser) : Option ParserReturn → Prop
  | fault : byteMachine.final (some p) bytes = none → byteMachine.outputs (some p) bytes = [] →
      ParserCall bytes p none
  | more {q} : byteMachine.final (some p) bytes = some q → byteMachine.outputs (some p) bytes = [] →
      ParserCall bytes p (some { done := false, remainSize := 0, parser := q })
  | done {q taken rest} : bytes = taken ++ rest → (taken = [] → p.state = .data) → q.state = .len →
      q.Valid → byteMachine.final (some p) bytes = byteMachine.final (some q) rest →
      byteMachine.outputs (some p) bytes = q.cmd :: byteMachine.outputs (some q) rest →
      ParserCall bytes p (some { done := true, remainSize := rest.length, parser := q })

theorem ParserCall.cons {p q : BleParser} {byte : UInt8} {rest : List UInt8} {result : Option ParserReturn}
    (step : byteStep p byte = (some q, [])) (call : ParserCall rest q result) :
    ParserCall (byte :: rest) p result := by
  have final : byteMachine.final (some p) (byte :: rest) = byteMachine.final (some q) rest := by
    rw [Mealy.Machine.final_cons, byteMachine_step_some, step]
  have outputs : byteMachine.outputs (some p) (byte :: rest) = byteMachine.outputs (some q) rest := by
    rw [Mealy.Machine.outputs_cons, byteMachine_step_some, step, List.nil_append]
  cases call with
  | fault stuck silent => exact .fault (final.trans stuck) (outputs.trans silent)
  | more run silent => exact .more (final.trans run) (outputs.trans silent)
  | @done r taken tail split _ ended valid run emitted =>
    have split' : byte :: rest = (byte :: taken) ++ tail := by rw [split, List.cons_append]
    exact .done split' (fun h => nomatch h) ended valid (final.trans run) (outputs.trans emitted)

theorem bleParser_of_neg {p : BleParser} {bytes : List UInt8} (data : p.state = .data)
    (nonempty : bytes ≠ []) (negative : p.cmd.len - p.pos < 0) : bleParser bytes p = none := by
  obtain ⟨byte, rest, rfl⟩ := List.exists_cons_of_ne_nil nonempty
  simp only [bleParser, data]
  rw [if_pos (by omega), memcpy_of_neg negative, Option.map_none]

theorem bleParser_of_enough {p : BleParser} {bytes : List UInt8} {rsize : Nat} (valid : p.Valid)
    (data : p.state = .data) (nonempty : bytes ≠ []) (room : p.cmd.len - p.pos = rsize)
    (enough : rsize ≤ bytes.length) :
    bleParser bytes p = some ⟨true, (bytes.drop rsize).length, p.complete (bytes.take rsize)⟩ := by
  have upper := (valid.len_bounds (by simp [data])).2
  obtain ⟨byte, rest, rfl⟩ := List.exists_cons_of_ne_nil nonempty
  have copied := memcpy_of_fits p.cmd.data p.pos enough (by omega)
  simp only [bleParser, data, room]
  rw [if_pos (by omega), copied, Option.map_some]
  simp only [BleParser.complete, List.length_drop, List.length_take, Nat.min_eq_left enough,
    Int.toNat_natCast, Option.some.injEq, ParserReturn.mk.injEq, true_and, and_true]
  omega

theorem bleParser_of_short {p : BleParser} {bytes : List UInt8} (valid : p.Valid) (data : p.state = .data)
    (nonempty : bytes ≠ []) (short : p.pos + bytes.length < p.cmd.len) :
    bleParser bytes p = some ⟨false, 0,
      { p with cmd.data := p.cmd.data.store p.pos bytes, pos := p.pos + bytes.length }⟩ := by
  have upper := (valid.len_bounds (by simp [data])).2
  obtain ⟨byte, rest, rfl⟩ := List.exists_cons_of_ne_nil nonempty
  have copied := memcpy_of_fits p.cmd.data p.pos (le_refl (byte :: rest).length) (by omega)
  simp only [bleParser, data]
  rw [if_neg (by omega), copied, Option.map_some, List.take_length]

theorem bleParser_call_data {p : BleParser} {bytes : List UInt8} (valid : p.Valid) (data : p.state = .data)
    (nonempty : bytes ≠ []) : ParserCall bytes p (bleParser bytes p) := by
  rcases lt_or_ge (p.cmd.len - p.pos) 0 with negative | room
  · -- a length byte of zero makes `rsize` negative
    rw [bleParser_of_neg data nonempty negative]
    obtain ⟨byte, rest, rfl⟩ := List.exists_cons_of_ne_nil nonempty
    have step : byteStep p byte = (none, []) := by
      simp only [byteStep, data, if_neg (by omega : ¬ p.cmd.len = p.pos),
        if_neg (by omega : ¬ (p.pos : Int) < p.cmd.len)]
    obtain ⟨stuck, silent⟩ := byteMachine_stuck rest
    refine .fault ?_ ?_
    · rw [Mealy.Machine.final_cons, byteMachine_step_some, step, stuck]
    · rw [Mealy.Machine.outputs_cons, byteMachine_step_some, step, silent, List.append_nil]
  obtain ⟨rsize, room⟩ := Int.eq_ofNat_of_zero_le room
  rcases Nat.lt_or_ge bytes.length rsize with short | enough
  · obtain ⟨final, outputs⟩ := byteMachine_payload_partial bytes data (by omega)
    rw [bleParser_of_short valid data nonempty (by omega)]
    exact .more final outputs
  rw [bleParser_of_enough valid data nonempty room enough]
  have split := (List.take_append_drop rsize bytes).symm
  have taken : (bytes.take rsize).length = rsize := List.length_take_of_le enough
  obtain ⟨final, outputs⟩ := @byteMachine_payload p (bytes.take rsize) (bytes.drop rsize) data
    (by rwa [← split]) (by omega)
  rw [← split] at final outputs
  exact .done split (fun _ => data) rfl (BleParser.valid_of_len rfl) final outputs

/-- `ble_parser` makes exactly the steps of the byte automaton. -/
theorem bleParser_call {p : BleParser} (valid : p.Valid) (bytes : List UInt8) :
    ParserCall bytes p (bleParser bytes p) := by
  induction bytes generalizing p with
  | nil => exact .more rfl rfl
  | cons byte rest ih =>
    cases state : p.state with
    | len =>
      simp only [bleParser, state]
      exact .cons (by simp only [byteStep, state]; rfl) (ih (p.takeLength_valid byte))
    | opcode =>
      simp only [bleParser, state]
      exact .cons (by simp only [byteStep, state]) (ih (valid.takeOpcode state byte))
    | data => exact bleParser_call_data valid state (List.cons_ne_nil byte rest)

end BleGateway
