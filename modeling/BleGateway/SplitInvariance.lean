import BleGateway.HandleCmd

namespace BleGateway

/-- A valid parser whose frame has a length byte other than zero. -/
structure BleParser.Clean (p : BleParser) : Prop extends p.Valid where
  len_nonneg : p.state ≠ .len → 0 ≤ p.cmd.len

theorem BleParser.clean_of_len {p : BleParser} (state : p.state = .len) : p.Clean where
  toValid := BleParser.valid_of_len state
  len_nonneg := fun running => absurd state running

theorem BleParser.Clean.withData {p : BleParser} (clean : p.Clean) (data : Buffer 256) :
    ({ p with cmd.data := data } : BleParser).Clean where
  len_bounds := clean.len_bounds
  pos_opcode := clean.pos_opcode
  pos_data := clean.pos_data
  len_nonneg := clean.len_nonneg

theorem BleParser.takeLength_clean (p : BleParser) {byte : UInt8} (nonzero : byte ≠ 0) :
    (p.takeLength byte).Clean where
  toValid := p.takeLength_valid byte
  len_nonneg := fun _ => by
    have : byte.toNat ≠ 0 := fun zero => nonzero (UInt8.toNat_inj.mp zero)
    simp only [takeLength]
    omega

/-- A byte that is not a zero length byte never runs the parser out of bounds. -/
theorem byteStep_clean {p : BleParser} (clean : p.Clean) (byte : UInt8)
    (nonzero : p.AtLength → byte ≠ 0) : ∃ q, (byteStep p byte).1 = some q ∧ q.Clean := by
  cases state : p.state with
  | len =>
    refine ⟨p.takeLength byte, by simp only [byteStep, state], p.takeLength_clean (nonzero ?_)⟩
    exact Or.inl state
  | opcode =>
    refine ⟨{ p with cmd.opcode := byte, state := .data }, by simp only [byteStep, state], ?_⟩
    exact ⟨clean.toValid.takeOpcode state byte, fun _ => clean.len_nonneg (by simp [state])⟩
  | data =>
    have lower := clean.len_nonneg (by simp [state])
    have bound := clean.pos_data state
    by_cases filled : p.cmd.len = p.pos
    · refine ⟨p.takeLength byte, by simp only [byteStep, state, if_pos filled], p.takeLength_clean (nonzero ?_)⟩
      exact Or.inr ⟨state, filled⟩
    · have inside : p.pos < p.cmd.len := by omega
      refine ⟨p.takeData byte, by simp only [byteStep, state, if_neg filled, if_pos inside], ?_⟩
      exact ⟨clean.toValid.takeData state inside byte, fun _ => lower⟩

theorem byteMachine_clean {p : BleParser} {bytes : List UInt8} (clean : p.Clean)
    (nonzero : ∀ byte ∈ lengthBytes (some p) bytes, byte ≠ 0) :
    ∃ q, byteMachine.final (some p) bytes = some q ∧ q.Clean := by
  induction bytes generalizing p with
  | nil => exact ⟨p, rfl, clean⟩
  | cons byte rest ih =>
    simp only [lengthBytes, List.mem_append] at nonzero
    obtain ⟨q, step, clean'⟩ := byteStep_clean clean byte fun atLength =>
      nonzero byte (Or.inl (by simp [atLength]))
    rw [step] at nonzero
    obtain ⟨r, run, clean''⟩ := ih clean' fun later member => nonzero later (Or.inr member)
    exact ⟨r, by rw [Mealy.Machine.final_cons, byteMachine_step_some, step, run], clean''⟩

variable (uECC_shared_secret : UECCSharedSecret)

/-- Parser records reached from `ble_cli_init` by buffers in which no byte taken in
state LEN is zero. -/
inductive ParserReach : BleParser → Prop
  | init : ParserReach bleCliInit
  | handle {p : BleParser} {globals : Globals} {buffer : List UInt8} {r : Received} : ParserReach p →
      (∀ byte ∈ lengthBytes (some p) buffer, byte ≠ 0) →
      bleHandleCmd uECC_shared_secret buffer { localParser := p, globals } = some r →
      ParserReach r.gateway.localParser

def handleBuffers : List (List UInt8) → Gateway → Option Received
  | [], g => some { gateway := g, dispatched := [], written := [] }
  | buffer :: buffers, g =>
    (bleHandleCmd uECC_shared_secret buffer g).bind fun first =>
      (handleBuffers buffers first.gateway).map (·.after first.dispatched first.written)

variable {uECC_shared_secret}

theorem ParserReach.clean {p : BleParser} (reach : ParserReach uECC_shared_secret p) : p.Clean := by
  induction reach with
  | init => exact BleParser.clean_of_len rfl
  | @handle p globals buffer r _ nonzero run clean =>
    obtain ⟨q, final, clean'⟩ := byteMachine_clean clean nonzero
    rw [bleHandleCmd_eq _ clean.toValid, receiveBytes, final, Option.map_some] at run
    cases Option.some.inj run
    exact clean'

theorem receiveBytes_append (a b : List UInt8) (g : Gateway) :
    receiveBytes uECC_shared_secret (a ++ b) g =
      (receiveBytes uECC_shared_secret a g).bind fun first =>
        (receiveBytes uECC_shared_secret b first.gateway).map
          (·.after first.dispatched first.written) := by
  simp only [receiveBytes, Mealy.Machine.final_append, Mealy.Machine.outputs_append]
  cases byteMachine.final (some g.localParser) a with
  | none => rw [(byteMachine_stuck b).1]; rfl
  | some p =>
    simp only [Option.map_some, Option.bind_some, Option.map_map]
    rfl

theorem receiveBytes_valid {bytes : List UInt8} {g : Gateway} {r : Received} (valid : g.localParser.Valid)
    (run : receiveBytes uECC_shared_secret bytes g = some r) : r.gateway.localParser.Valid := by
  obtain ⟨p, final, rfl⟩ := Option.map_eq_some_iff.mp run
  exact byteMachine_valid valid final

/-- However a stream is cut into buffers, the receive path makes the same of it. -/
theorem handleBuffers_eq {g : Gateway} (valid : g.localParser.Valid) (buffers : List (List UInt8)) :
    handleBuffers uECC_shared_secret buffers g = receiveBytes uECC_shared_secret buffers.flatten g := by
  induction buffers generalizing g with
  | nil => rfl
  | cons buffer buffers ih =>
    rw [handleBuffers, bleHandleCmd_eq _ valid, List.flatten_cons, receiveBytes_append]
    cases run : receiveBytes uECC_shared_secret buffer g with
    | none => rfl
    | some first => simp only [Option.bind_some, ih (receiveBytes_valid valid run)]

theorem handleBuffers_processes {buffers : List (List UInt8)} {g : Gateway} {r : Received}
    (run : handleBuffers uECC_shared_secret buffers g = some r) : r.Processes uECC_shared_secret g := by
  induction buffers generalizing g r with
  | nil =>
    cases Option.some.inj run
    exact Received.processes_nothing uECC_shared_secret g
  | cons buffer buffers ih =>
    obtain ⟨first, handled, rest⟩ := Option.bind_eq_some_iff.mp run
    obtain ⟨later, goesOn, rfl⟩ := Option.map_eq_some_iff.mp rest
    exact (bleHandleCmd_processes uECC_shared_secret handled).after uECC_shared_secret (ih goesOn)

/-- Cutting a stream never changes what the receive path does: the parser record, the globals and
the frames written are those of one call on the whole stream. -/
theorem bleHandleCmd_split_invariant {p : BleParser} (reach : ParserReach uECC_shared_secret p)
    (data : Buffer 256) (globals : Globals) (a b : List UInt8)
    (nonzero : ∀ byte ∈ lengthBytes (some { p with cmd.data := data }) (a ++ b), byte ≠ 0) :
    ∃ first second whole,
      bleHandleCmd uECC_shared_secret a ⟨{ p with cmd.data := data }, globals⟩ = some first ∧
      bleHandleCmd uECC_shared_secret b first.gateway = some second ∧
      bleHandleCmd uECC_shared_secret (a ++ b) ⟨{ p with cmd.data := data }, globals⟩ = some whole ∧
      second.gateway.localParser = whole.gateway.localParser ∧
      second.gateway.globals = whole.gateway.globals ∧
      first.written ++ second.written = whole.written ∧
      ∀ buffers : List (List UInt8), buffers.flatten = a ++ b →
        handleBuffers uECC_shared_secret buffers ⟨{ p with cmd.data := data }, globals⟩ = some whole := by
  have clean := reach.clean.withData data
  obtain ⟨q, final, _⟩ := byteMachine_clean clean nonzero
  obtain ⟨whole, run⟩ : ∃ whole, receiveBytes uECC_shared_secret (a ++ b)
      ⟨{ p with cmd.data := data }, globals⟩ = some whole := ⟨_, by rw [receiveBytes, final]; rfl⟩
  obtain ⟨first, runFirst, rest⟩ := Option.bind_eq_some_iff.mp ((receiveBytes_append a b _).symm.trans run)
  obtain ⟨second, runSecond, same⟩ := Option.map_eq_some_iff.mp rest
  refine ⟨first, second, whole, ?_, ?_, ?_, ?_⟩
  · rw [bleHandleCmd_eq _ clean.toValid, runFirst]
  · rw [bleHandleCmd_eq _ (receiveBytes_valid clean.toValid runFirst), runSecond]
  · rw [bleHandleCmd_eq _ clean.toValid, run]
  · subst same
    refine ⟨rfl, rfl, rfl, ?_⟩
    intro buffers cut
    rw [handleBuffers_eq clean.toValid, cut, run]

theorem bleHandleCmd_split_invariant_command_response :
    ∃ first second whole,
      bleHandleCmd (fun _ _ => ⟨fun _ => 0, 1⟩) [0x03, 0x84] ⟨bleCliInit, Globals.init⟩ = some first ∧
      bleHandleCmd (fun _ _ => ⟨fun _ => 0, 1⟩) [0x61, 0x00, 0x01, 0xC9] first.gateway = some second ∧
      bleHandleCmd (fun _ _ => ⟨fun _ => 0, 1⟩) [0x03, 0x84, 0x61, 0x00, 0x01, 0xC9]
        ⟨bleCliInit, Globals.init⟩ = some whole ∧
      second.gateway.localParser = whole.gateway.localParser ∧
      second.gateway.globals = whole.gateway.globals ∧
      first.written ++ second.written = whole.written ∧
      ∀ buffers : List (List UInt8), buffers.flatten = [0x03, 0x84, 0x61, 0x00, 0x01, 0xC9] →
        handleBuffers (fun _ _ => ⟨fun _ => 0, 1⟩) buffers ⟨bleCliInit, Globals.init⟩ = some whole :=
  bleHandleCmd_split_invariant .init bleCliInit.cmd.data Globals.init [0x03, 0x84]
    [0x61, 0x00, 0x01, 0xC9] (by
      intro byte member
      change byte ∈ [0x03, 0x01] at member
      rcases List.mem_pair.mp member with rfl | rfl
      · decide
      · decide)

end BleGateway
