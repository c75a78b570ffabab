import BleGateway.ParserBounds

namespace BleGateway

/-- In state DATA the position lies in the payload, which fits the array. -/
def BleParser.InFrame (p : BleParser) : Prop :=
  p.state = .data → (0 : Int) ≤ p.pos ∧ (p.pos : Int) ≤ p.cmd.len ∧ p.cmd.len ≤ 254

/-- The parser record at the head of each round of the `while` loop of `ble_parser`. -/
def parserRounds : List UInt8 → BleParser → List BleParser
  | [], parser => [parser]
  | byte :: rest, parser =>
    parser ::
      match parser.state with
      | .len => parserRounds rest { parser with pos := 0, cmd.len := (byte.toNat : Int) - 1, state := .opcode }
      | .opcode => parserRounds rest { parser with cmd.opcode := byte, state := .data }
      -- both branches of this case leave the loop
      | .data => []

/-- A call of `ble_parser` on some bytes comes back, and has taken one of them or gone from DATA to
LEN; `pos` and `len` keep their bounds throughout. -/
structure ParserInput.Progresses (call : ParserInput) : Prop where
  nonempty : call.bytes ≠ []
  inFrame : ∀ p ∈ parserRounds call.bytes call.parser, p.InFrame
  returns : ∃ ret, bleParser call.bytes call.parser = some ret ∧ ret.parser.InFrame ∧
    (ret.remainSize < call.bytes.length ∨
      ret.remainSize = call.bytes.length ∧ call.parser.state = .data ∧ ret.parser.state = .len)

theorem BleParser.Clean.inFrame {p : BleParser} (clean : p.Clean) : p.InFrame := by
  intro data
  have lower := clean.len_nonneg (by simp [data])
  have upper := (clean.len_bounds (by simp [data])).2
  have bound := clean.pos_data data
  exact ⟨Int.natCast_nonneg _, by omega, upper⟩

/-- What the bytes taken of the frame at hand pay towards its dispatch. -/
def BleParser.credit (p : BleParser) : Nat :=
  match p.state with
  | .len => 0
  | .opcode => 1
  | .data => 2

/-- Every dispatch is paid for by two bytes. -/
theorem byteStep_pays (p : BleParser) (byte : UInt8) :
    2 * (byteStep p byte).2.length + (byteStep p byte).1.elim 0 BleParser.credit ≤ p.credit + 1 := by
  cases state : p.state with
  | len => simp [byteStep, BleParser.credit, BleParser.takeLength, state]
  | opcode => simp [byteStep, BleParser.credit, state]
  | data =>
    by_cases pending : p.cmd.len = p.pos
    · simp [byteStep, BleParser.credit, BleParser.takeLength, state, pending]
    · by_cases inside : p.pos < p.cmd.len
      · by_cases last : p.cmd.len = p.pos + 1
        · simp [byteStep, BleParser.credit, BleParser.takeData, state, last]
        · simp [byteStep, BleParser.credit, BleParser.takeData, state, pending, inside, last]
      · simp [byteStep, BleParser.credit, state, pending, inside]

theorem byteMachine_outputs_length (p : BleParser) (bytes : List UInt8) :
    (byteMachine.outputs (some p) bytes).length ≤ 1 + bytes.length / 2 := by
  have paid := Mealy.Machine.outputs_amortized (m := byteMachine) 2 (fun s => s.elim 0 BleParser.credit) ?_
    (some p) bytes
  · have credit : p.credit ≤ 2 := by
      unfold BleParser.credit
      split <;> omega
    simp only [Option.elim_some] at paid
    omega
  · intro s byte
    cases s with
    | none => exact Nat.zero_le _
    | some q => exact byteStep_pays q byte

/-- The bytes of a payload are no length bytes. -/
theorem lengthBytes_payload {p : BleParser} {bytes rest : List UInt8} (data : p.state = .data)
    (filled : p.pos + bytes.length = p.cmd.len) :
    lengthBytes (some p) (bytes ++ rest) = lengthBytes (some (p.complete bytes)) rest := by
  induction bytes generalizing p with
  | nil =>
    cases rest with
    | nil => rfl
    | cons byte rest =>
      have full : p.cmd.len = p.pos := by simpa using filled.symm
      obtain ⟨pending, fresh⟩ := byteStep_pending data full byte
      have here : p.AtLength := Or.inr ⟨data, full⟩
      have there : (p.complete []).AtLength := Or.inl rfl
      simp only [List.nil_append, lengthBytes, pending, fresh, if_pos here, if_pos there]
  | cons byte bytes ih =>
    rw [List.length_cons] at filled
    have unfilled : ¬p.cmd.len = p.pos := by omega
    have inside : (p.pos : Int) < p.cmd.len := by omega
    have later : ¬p.AtLength := by simp [BleParser.AtLength, data, unfilled]
    have step : (byteStep p byte).1 = some (p.takeData byte) := by
      simp only [byteStep, data, if_neg unfilled, if_pos inside]
    rw [List.cons_append, lengthBytes, if_neg later, step, List.nil_append]
    by_cases last : p.cmd.len = p.pos + 1
    · -- the frame ends with this byte
      obtain rfl : bytes = [] := List.eq_nil_of_length_eq_zero (by omega)
      simp only [List.nil_append, BleParser.takeData, BleParser.complete, if_pos last, List.length_singleton]
    · have next : (p.takeData byte).state = .data := by simp only [BleParser.takeData, if_neg last]
      have filled' : (p.takeData byte).pos + bytes.length = (p.takeData byte).cmd.len := by
        simp only [BleParser.takeData]
        omega
      rw [ih next filled']
      simp only [BleParser.complete, BleParser.takeData, Buffer.store_cons, List.length_cons, Nat.add_assoc,
        Nat.add_comm 1]

/-- What a call of `ble_parser` does with bytes of which no length byte is zero. -/
inductive CleanCall (bytes : List UInt8) (p : BleParser) : ParserReturn → Prop
  | more {q} : q.Clean → CleanCall bytes p { done := false, remainSize := 0, parser := q }
  | done {q taken rest} : bytes = taken ++ rest → (taken = [] → p.state = .data) → q.state = .len →
      (∀ byte ∈ lengthBytes (some q) rest, byte ≠ 0) →
      CleanCall bytes p { done := true, remainSize := rest.length, parser := q }

theorem CleanCall.cons {p q : BleParser} {byte : UInt8} {rest : List UInt8} {ret : ParserReturn}
    (call : CleanCall rest q ret) : CleanCall (byte :: rest) p ret := by
  cases call with
  | more clean => exact .more clean
  | @done r taken tail split _ ended nonzero =>
    have split' : byte :: rest = (byte :: taken) ++ tail := by rw [split, List.cons_append]
    exact .done split' (fun h => nomatch h) ended nonzero

/-- A round of the loop on the first two bytes of a frame. -/
theorem parser_header_round {p : BleParser} {byte : UInt8} {rest : List UInt8} (clean : p.Clean)
    (header : p.state ≠ .data) (nonzero : ∀ b ∈ lengthBytes (some p) (byte :: rest), b ≠ 0) :
    ∃ q, q.Clean ∧ (∀ b ∈ lengthBytes (some q) rest, b ≠ 0) ∧
      bleParser (byte :: rest) p = bleParser rest q ∧
      parserRounds (byte :: rest) p = p :: parserRounds rest q := by
  simp only [lengthBytes, List.mem_append] at nonzero
  obtain ⟨q, step, clean'⟩ := byteStep_clean clean byte fun atLength => nonzero byte (Or.inl (by simp [atLength]))
  rw [step] at nonzero
  refine ⟨q, clean', fun b member => nonzero b (Or.inr member), ?_⟩
  cases state : p.state with
  | len =>
    simp only [byteStep, state] at step
    cases Option.some.inj step
    exact ⟨by simp only [bleParser, state]; rfl, by simp only [parserRounds, state]; rfl⟩
  | opcode =>
    simp only [byteStep, state] at step
    cases Option.some.inj step
    exact ⟨by simp only [bleParser, state], by simp only [parserRounds, state]⟩
  | data => exact absurd state header

theorem bleParser_cleanCall_data {p : BleParser} {bytes : List UInt8} (clean : p.Clean) (data : p.state = .data)
    (nonempty : bytes ≠ []) (nonzero : ∀ byte ∈ lengthBytes (some p) bytes, byte ≠ 0) :
    ∃ ret, bleParser bytes p = some ret ∧ CleanCall bytes p ret := by
  have lower := clean.len_nonneg (by simp [data])
  have bound := clean.pos_data data
  obtain ⟨rsize, room⟩ := Int.eq_ofNat_of_zero_le (by omega : 0 ≤ p.cmd.len - p.pos)
  rcases Nat.lt_or_ge bytes.length rsize with short | enough
  · have unfilled : p.pos + bytes.length < p.cmd.len := by omega
    refine ⟨_, bleParser_of_short clean.toValid data nonempty unfilled, .more ?_⟩
    obtain ⟨q, final, clean'⟩ := byteMachine_clean clean nonzero
    obtain ⟨partialRun, _⟩ := byteMachine_payload_partial bytes data unfilled
    rw [partialRun] at final
    cases Option.some.inj final
    exact clean'
  · have split := (List.take_append_drop rsize bytes).symm
    have taken : (bytes.take rsize).length = rsize := List.length_take_of_le enough
    have behind : lengthBytes (some p) (bytes.take rsize ++ bytes.drop rsize) =
        lengthBytes (some (p.complete (bytes.take rsize))) (bytes.drop rsize) :=
      lengthBytes_payload data (by omega)
    rw [← split] at behind
    rw [behind] at nonzero
    exact ⟨_, bleParser_of_enough clean.toValid data nonempty room enough, .done split (fun _ => data) rfl nonzero⟩

/-- Every call comes back, from clean records in each round. -/
theorem bleParser_cleanCall {p : BleParser} {bytes : List UInt8} (clean : p.Clean)
    (nonzero : ∀ byte ∈ lengthBytes (some p) bytes, byte ≠ 0) :
    (∀ q ∈ parserRounds bytes p, q.Clean) ∧ ∃ ret, bleParser bytes p = some ret ∧ CleanCall bytes p ret := by
  induction bytes generalizing p with
  | nil => exact ⟨fun q member => List.mem_singleton.mp member ▸ clean, _, rfl, .more clean⟩
  | cons byte rest ih =>
    by_cases data : p.state = .data
    · refine ⟨?_, bleParser_cleanCall_data clean data (List.cons_ne_nil byte rest) nonzero⟩
      intro q member
      simp only [parserRounds, data, List.mem_singleton] at member
      rwa [member]
    · obtain ⟨q, clean', nonzero', parsed, rounds⟩ := parser_header_round clean data nonzero
      obtain ⟨cleanRounds, ret, returned, call⟩ := ih clean' nonzero'
      rw [rounds, parsed]
      exact ⟨List.forall_mem_cons.mpr ⟨clean, cleanRounds⟩, ret, returned, call.cons⟩

theorem ParserInput.progresses {p : BleParser} {bytes : List UInt8} (clean : p.Clean) (nonempty : bytes ≠ [])
    (nonzero : ∀ byte ∈ lengthBytes (some p) bytes, byte ≠ 0) :
    ParserInput.Progresses { bytes, parser := p } := by
  obtain ⟨rounds, ret, returned, call⟩ := bleParser_cleanCall clean nonzero
  refine ⟨nonempty, fun q member => (rounds q member).inFrame, ret, returned, ?_⟩
  cases call with
  | more clean' => exact ⟨clean'.inFrame, Or.inl (List.length_pos_of_ne_nil nonempty)⟩
  | @done q taken rest split pending ended _ =>
    refine ⟨(BleParser.clean_of_len ended).inFrame, ?_⟩
    rcases List.eq_nil_or_concat' taken with rfl | ⟨_, _, rfl⟩
    · exact Or.inr ⟨by simp [split], pending rfl, ended⟩
    · exact Or.inl (by simp [split]; omega)

/-- The last of some calls leaves `remainSize` 0. -/
def Drains (calls : List ParserInput) : Prop :=
  ∃ call ∈ calls.getLast?, ∃ ret ∈ bleParser call.bytes call.parser, ret.remainSize = 0

theorem Drains.cons {calls : List ParserInput} (drains : Drains calls) (first : ParserInput) :
    Drains (first :: calls) := by
  obtain ⟨call, last, ret, returned, none⟩ := drains
  refine ⟨call, ?_, ret, returned, none⟩
  rw [List.getLast?_cons, Option.mem_def.mp last]
  rfl

/-- The loop of `ble_handle_cmd` makes only calls that progress, and ends with nothing left. -/
theorem handleCmdCalls_progress {data before bytes : List UInt8} {rounds : Nat} {p : BleParser} (clean : p.Clean)
    (nonzero : ∀ byte ∈ lengthBytes (some p) bytes, byte ≠ 0) (suffix : data = before ++ bytes)
    (enough : 2 * bytes.length + p.extraRounds ≤ rounds) :
    (∀ call ∈ handleCmdCalls data rounds bytes.length p, call.Progresses) ∧
      (bytes ≠ [] → Drains (handleCmdCalls data rounds bytes.length p)) := by
  induction rounds generalizing before bytes p with
  | zero =>
    obtain rfl : bytes = [] := List.eq_nil_of_length_eq_zero (by omega)
    simp [handleCmdCalls]
  | succ rounds ih =>
    cases bytes with
    | nil => simp [handleCmdCalls]
    | cons byte rest =>
      have pointer := drop_to_remainder suffix
      rw [List.length_cons] at pointer
      have progresses := ParserInput.progresses clean (List.cons_ne_nil byte rest) nonzero
      obtain ⟨_, ret, returned, call⟩ := bleParser_cleanCall clean nonzero
      simp only [List.length_cons, handleCmdCalls, pointer, returned, List.forall_mem_cons]
      have alone (none : ret.remainSize = 0) : Drains [⟨byte :: rest, p⟩] := ⟨_, rfl, ret, returned, none⟩
      cases call with
      | more =>
        rw [handleCmdCalls_zero]
        exact ⟨⟨progresses, fun _ member => absurd member List.not_mem_nil⟩, fun _ => alone rfl⟩
      | @done q taken tail split pending ended nonzero' =>
        have fewer := extraRounds_done split pending ended enough
        have later : data = (before ++ taken) ++ tail := by rw [suffix, split, List.append_assoc]
        obtain ⟨progress, drains⟩ := ih (BleParser.clean_of_len ended) nonzero' later fewer
        refine ⟨⟨progresses, progress⟩, fun _ => ?_⟩
        by_cases empty : tail = []
        · subst empty
          rw [List.length_nil, handleCmdCalls_zero]
          exact alone rfl
        · exact (drains empty).cons _

variable {uECC_shared_secret : UECCSharedSecret}

/-- The receive loops end, with bounded work: on a buffer without a zero length byte `ble_handle_cmd`
takes every byte and dispatches a frame for every two bytes and one more at most, processes each, and
makes no call of `ble_parser` that does not progress; the frames are those that these calls complete. -/
theorem bleHandleCmd_bounded_work {p : BleParser} (reach : ParserReach uECC_shared_secret p) (globals : Globals)
    {buffer : List UInt8} (nonzero : ∀ byte ∈ lengthBytes (some p) buffer, byte ≠ 0) :
    (∃ r, bleHandleCmd uECC_shared_secret buffer { localParser := p, globals } = some r ∧
        r.dispatched.length ≤ 1 + buffer.length / 2 ∧ r.gateway.localParser.InFrame ∧
        r.Processes uECC_shared_secret { localParser := p, globals } ∧
        r.dispatched =
          (handleCmdCalls buffer (2 * buffer.length + 1) buffer.length p).filterMap ParserInput.completed) ∧
      (∀ call ∈ handleCmdCalls buffer (2 * buffer.length + 1) buffer.length p, call.Progresses) ∧
      (buffer ≠ [] → Drains (handleCmdCalls buffer (2 * buffer.length + 1) buffer.length p)) := by
  have clean := reach.clean
  have rounds : 2 * buffer.length + p.extraRounds ≤ 2 * buffer.length + 1 :=
    Nat.add_le_add_left p.extraRounds_le _
  refine ⟨?_, handleCmdCalls_progress clean nonzero (List.nil_append buffer).symm rounds⟩
  obtain ⟨q, final, clean'⟩ := byteMachine_clean clean nonzero
  have equal := @bleHandleCmd_eq uECC_shared_secret { localParser := p, globals } clean.toValid buffer
  rw [receiveBytes, final, Option.map_some] at equal
  exact ⟨_, equal, byteMachine_outputs_length p buffer, clean'.inFrame, bleHandleCmd_processes _ equal,
    handleCmdLoop_calls equal⟩

theorem bleHandleCmd_bounded_work_command_response :
    (∃ r, bleHandleCmd echoPrivate [0x03, 0x84, 0x61, 0x00, 0x01, 0xC9] .init = some r ∧
        r.dispatched.length ≤ 1 + 6 / 2 ∧ r.gateway.localParser.InFrame ∧ r.Processes echoPrivate .init ∧
        r.dispatched = (handleCmdCalls [0x03, 0x84, 0x61, 0x00, 0x01, 0xC9] (2 * 6 + 1) 6 bleCliInit).filterMap
          ParserInput.completed) ∧
      (∀ call ∈ handleCmdCalls [0x03, 0x84, 0x61, 0x00, 0x01, 0xC9] (2 * 6 + 1) 6 bleCliInit,
        call.Progresses) ∧
      (([0x03, 0x84, 0x61, 0x00, 0x01, 0xC9] : List UInt8) ≠ [] →
        Drains (handleCmdCalls [0x03, 0x84, 0x61, 0x00, 0x01, 0xC9] (2 * 6 + 1) 6 bleCliInit)) :=
  bleHandleCmd_bounded_work .init Globals.init (by
    intro byte member
    change byte ∈ [0x03, 0x01] at member
    rcases List.mem_pair.mp member with rfl | rfl
    · decide
    · decide)

end BleGateway
