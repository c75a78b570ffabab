import BleGateway.GatewayRun
import BleGateway.SplitInvariance

namespace BleGateway

/-- The arguments of a `memcpy` of `ble_parser`: the offset in `cmd.data`, the count, and how many
bytes of input are left behind the source pointer. -/
structure Copy where
  pos : Nat
  count : Int
  size : Nat

structure Copy.InBounds (c : Copy) : Prop where
  nonneg : 0 ≤ c.count
  available : c.count ≤ c.size
  room : c.pos + c.count ≤ 256

/-- The `memcpy` a call of `ble_parser` comes to. It makes one at most, since
both leave the loop. -/
def parserCopy : List UInt8 → BleParser → Option Copy
  | [], _ => none
  | byte :: rest, parser =>
    match parser.state with
    | .len => parserCopy rest { parser with pos := 0, cmd.len := (byte.toNat : Int) - 1, state := .opcode }
    | .opcode => parserCopy rest { parser with cmd.opcode := byte, state := .data }
    | .data =>
      let size := (byte :: rest).length
      let rsize := parser.cmd.len - parser.pos
      some { pos := parser.pos, count := if rsize ≤ size then rsize else size, size }

/-- One call of `ble_parser`: the bytes from its pointer on and the parser record. -/
structure ParserInput where
  bytes : List UInt8
  parser : BleParser

/-- A call copies within its input and within `cmd.data`, and gives back no more than it was given. -/
def ParserInput.InBounds (call : ParserInput) : Prop :=
  (∀ c ∈ parserCopy call.bytes call.parser, c.InBounds) ∧
    ∀ r ∈ bleParser call.bytes call.parser, r.remainSize ≤ call.bytes.length

/-- The calls the loop of `ble_handle_cmd` makes. A call that goes wrong is the last one. -/
def handleCmdCalls (data : List UInt8) : Nat → Nat → BleParser → List ParserInput
  | 0, _, _ => []
  | _, 0, _ => []
  | rounds + 1, remainSize + 1, parser =>
    let bytes := data.drop (data.length - (remainSize + 1))
    { bytes, parser } ::
      match bleParser bytes parser with
      | some r => handleCmdCalls data rounds r.remainSize r.parser
      | none => []

/-- The calls of `ble_parser` while some buffers are handled one after the other. -/
def bufferCalls (uECC_shared_secret : UECCSharedSecret) : List (List UInt8) → Gateway → List ParserInput
  | [], _ => []
  | buffer :: buffers, g =>
    handleCmdCalls buffer (2 * buffer.length + 1) buffer.length g.localParser ++
      match bleHandleCmd uECC_shared_secret buffer g with
      | some r => bufferCalls uECC_shared_secret buffers r.gateway
      | none => []

theorem memcpy_isSome_iff (dst : Buffer 256) (pos : Nat) (src : List UInt8) (count : Int) :
    (memcpy dst pos src count).isSome ↔ Copy.InBounds { pos, count, size := src.length } := by
  unfold memcpy
  split
  next inside => exact iff_of_true rfl ⟨inside.1, inside.2.1, inside.2.2⟩
  next outside => exact iff_of_false Bool.false_ne_true fun c => outside ⟨c.nonneg, c.available, c.room⟩

/-- A call of `ble_parser` has a defined outcome exactly if its `memcpy` is in bounds. -/
theorem bleParser_isSome_iff (bytes : List UInt8) (p : BleParser) :
    (bleParser bytes p).isSome ↔ ∀ c ∈ parserCopy bytes p, c.InBounds := by
  induction bytes generalizing p with
  | nil => simp [bleParser, parserCopy]
  | cons byte rest ih =>
    cases state : p.state with
    | len =>
      simp only [bleParser, parserCopy, state]
      exact ih _
    | opcode =>
      simp only [bleParser, parserCopy, state]
      exact ih _
    | data =>
      simp only [bleParser, parserCopy, state, Option.mem_some_iff, forall_eq']
      split
      · rw [Option.isSome_map, memcpy_isSome_iff]
      · rw [Option.isSome_map, memcpy_isSome_iff]

theorem ParserInput.inBounds_iff {p : BleParser} (valid : p.Valid) (bytes : List UInt8) :
    ParserInput.InBounds { bytes, parser := p } ↔ (bleParser bytes p).isSome := by
  rw [ParserInput.InBounds, ← bleParser_isSome_iff]
  refine and_iff_left ?_
  have call := bleParser_call valid bytes
  generalize bleParser bytes p = result at call
  intro r found
  cases call with
  | fault => cases found
  | more =>
    cases found
    exact Nat.zero_le _
  | done split =>
    cases found
    rw [split, List.length_append]
    exact Nat.le_add_left _ _

theorem handleCmdCalls_zero (data : List UInt8) (rounds : Nat) (p : BleParser) :
    handleCmdCalls data rounds 0 p = [] := by
  cases rounds <;> rfl

/-- The command a call completes, if any. -/
def ParserInput.completed (call : ParserInput) : Option BleCmd :=
  (bleParser call.bytes call.parser).bind fun ret => if ret.done then some ret.parser.cmd else none

theorem ParserInput.completed_eq {call : ParserInput} {ret : ParserReturn}
    (returned : bleParser call.bytes call.parser = some ret) :
    call.completed = if ret.done then some ret.parser.cmd else none := by
  rw [completed, returned, Option.bind_some]

/-- The commands that the loop of `ble_handle_cmd` hands over are those that its calls of `ble_parser` complete. -/
theorem handleCmdLoop_calls {uECC_shared_secret : UECCSharedSecret} {data : List UInt8} {rounds remainSize : Nat}
    {g : Gateway} {r : Received} (run : handleCmdLoop uECC_shared_secret data rounds remainSize g = some r) :
    r.dispatched = (handleCmdCalls data rounds remainSize g.localParser).filterMap ParserInput.completed := by
  induction rounds generalizing remainSize g r with
  | zero =>
    cases remainSize with
    | zero =>
      cases Option.some.inj run
      rfl
    | succ => cases run
  | succ rounds ih =>
    cases remainSize with
    | zero =>
      cases Option.some.inj run
      rfl
    | succ remainSize =>
      obtain ⟨ret, returned, outcome⟩ := handleCmdLoop_round uECC_shared_secret run
      rw [handleCmdCalls, returned, List.filterMap_cons, ParserInput.completed_eq returned]
      rcases outcome with ⟨completed, later, loop, rfl⟩ | ⟨pending, loop⟩
      · rw [if_pos completed]
        exact congrArg (ret.parser.cmd :: ·) (ih loop)
      · rw [if_neg (Bool.eq_false_iff.mp pending)]
        exact ih loop

/-- The calls of `ble_handle_cmd` are in bounds exactly if the byte automaton takes every byte. -/
theorem handleCmdCalls_inBounds {data before bytes : List UInt8} {rounds : Nat} {p : BleParser} (valid : p.Valid)
    (suffix : data = before ++ bytes) (enough : 2 * bytes.length + p.extraRounds ≤ rounds) :
    (∀ call ∈ handleCmdCalls data rounds bytes.length p, call.InBounds) ↔
      (byteMachine.final (some p) bytes).isSome := by
  induction rounds generalizing before bytes p with
  | zero =>
    obtain rfl : bytes = [] := List.eq_nil_of_length_eq_zero (by omega)
    simp [handleCmdCalls]
  | succ rounds ih =>
    cases bytes with
    | nil => simp [handleCmdCalls]
    | cons byte rest =>
      have pointer := drop_to_remainder suffix
      rw [List.length_cons] at pointer
      have bounds := ParserInput.inBounds_iff valid (byte :: rest)
      have call := bleParser_call valid (byte :: rest)
      simp only [List.length_cons, handleCmdCalls, pointer, List.mem_cons, forall_eq_or_imp, bounds]
      generalize bleParser (byte :: rest) p = result at call
      cases call with
      | fault stuck => simp [stuck]
      | more run =>
        simp only [run, handleCmdCalls_zero]
        simp
      | @done q taken tail split pending ended valid' run =>
        have fewer := extraRounds_done split pending ended enough
        simp only [run, Option.isSome_some, true_and]
        have later : data = (before ++ taken) ++ tail := by rw [suffix, split, List.append_assoc]
        exact ih valid' later fewer

variable {uECC_shared_secret : UECCSharedSecret}

theorem bufferCalls_inBounds {g : Gateway} (valid : g.localParser.Valid) (buffers : List (List UInt8)) :
    (∀ call ∈ bufferCalls uECC_shared_secret buffers g, call.InBounds) ↔
      (byteMachine.final (some g.localParser) buffers.flatten).isSome := by
  induction buffers generalizing g with
  | nil => simp [bufferCalls]
  | cons buffer buffers ih =>
    have rounds : 2 * buffer.length + g.localParser.extraRounds ≤ 2 * buffer.length + 1 :=
      Nat.add_le_add_left g.localParser.extraRounds_le _
    have first := handleCmdCalls_inBounds valid (List.nil_append buffer).symm rounds
    rw [bufferCalls, List.forall_mem_append, first, List.flatten_cons, Mealy.Machine.final_append,
      bleHandleCmd_eq _ valid]
    cases run : byteMachine.final (some g.localParser) buffer with
    | none =>
      rw [(byteMachine_stuck buffers.flatten).1]
      simp
    | some p =>
      rw [receiveBytes, run, Option.map_some]
      simp only [Option.isSome_some, true_and]
      exact ih (byteMachine_valid valid run)

/-- Taking a byte never goes wrong as such; only the bytes behind a zero length byte do. -/
theorem byteStep_isSome {p : BleParser} (clean : p.Clean) (byte : UInt8) : (byteStep p byte).1.isSome := by
  cases state : p.state with
  | len | opcode => simp only [byteStep, state, Option.isSome_some]
  | data =>
    have lower := clean.len_nonneg (by simp [state])
    have bound := clean.pos_data state
    simp only [byteStep, state]
    split
    · rfl
    · rw [if_pos (by omega)]
      rfl

theorem byteStep_atLength {p : BleParser} (atLength : p.AtLength) (byte : UInt8) :
    (byteStep p byte).1 = some (p.takeLength byte) := by
  rcases atLength with len | ⟨data, filled⟩
  · simp only [byteStep, len]
  · simp only [byteStep, data, if_pos filled]

theorem byteMachine_zero_length {p : BleParser} (atLength : p.AtLength) (opcode next : UInt8) (rest : List UInt8) :
    byteMachine.final (some p) (0 :: opcode :: next :: rest) = none := by
  rw [Mealy.Machine.final_cons, byteMachine_step_some, byteStep_atLength atLength]
  exact (byteMachine_stuck rest).1

/-- A byte follows without harm even a zero length byte. -/
theorem byteMachine_two_isSome {p : BleParser} (clean : p.Clean) (byte next : UInt8) :
    (byteMachine.final (some p) [byte, next]).isSome := by
  rw [Mealy.Machine.final_cons, byteMachine_step_some]
  by_cases atLength : p.AtLength
  · rw [byteStep_atLength atLength]
    rfl
  · obtain ⟨q, step, clean'⟩ := byteStep_clean clean byte fun now => absurd now atLength
    rw [step]
    exact byteStep_isSome clean' next

/-- The byte automaton gets stuck exactly on the second byte behind a zero length byte. -/
theorem byteMachine_isSome_iff {p : BleParser} (clean : p.Clean) (bytes : List UInt8) :
    (byteMachine.final (some p) bytes).isSome ↔
      ∀ byte ∈ lengthBytes (some p) (bytes.take (bytes.length - 2)), byte ≠ 0 := by
  induction bytes generalizing p with
  | nil => simp [lengthBytes]
  | cons byte rest ih =>
    rcases rest with _ | ⟨opcode, _ | ⟨next, rest⟩⟩
    · exact iff_of_true (byteStep_isSome clean byte) fun _ member => absurd member List.not_mem_nil
    · exact iff_of_true (byteMachine_two_isSome clean byte opcode) fun _ member => absurd member List.not_mem_nil
    · have split : (byte :: opcode :: next :: rest).take ((byte :: opcode :: next :: rest).length - 2) =
          byte :: (opcode :: next :: rest).take ((opcode :: next :: rest).length - 2) := rfl
      rw [split, lengthBytes, List.forall_mem_append]
      by_cases zero : p.AtLength ∧ byte = 0
      · obtain ⟨atLength, rfl⟩ := zero
        rw [byteMachine_zero_length atLength]
        refine iff_of_false Bool.false_ne_true fun nonzero => ?_
        exact nonzero.1 0 (by simp [atLength]) rfl
      · have nonzero : p.AtLength → byte ≠ 0 := fun atLength null => zero ⟨atLength, null⟩
        obtain ⟨q, step, clean'⟩ := byteStep_clean clean byte nonzero
        rw [Mealy.Machine.final_cons, byteMachine_step_some, step, ih clean']
        refine (and_iff_right ?_).symm
        intro taken member
        by_cases atLength : p.AtLength
        · rw [if_pos atLength, List.mem_singleton] at member
          exact member ▸ nonzero atLength
        · rw [if_neg atLength] at member
          exact absurd member List.not_mem_nil

/-- However a stream is cut into buffers, the parser stays in bounds exactly if no byte taken in
state LEN is zero, its last two bytes aside: a zero length byte does no harm before two more
bytes have come in. -/
theorem bufferCalls_inBounds_iff (uECC_shared_secret : UECCSharedSecret) (globals : Globals)
    (buffers : List (List UInt8)) :
    (∀ call ∈ bufferCalls uECC_shared_secret buffers { localParser := bleCliInit, globals }, call.InBounds) ↔
      ∀ byte ∈ lengthBytes (some bleCliInit) (buffers.flatten.take (buffers.flatten.length - 2)), byte ≠ 0 := by
  have clean : bleCliInit.Clean := BleParser.clean_of_len rfl
  rw [bufferCalls_inBounds clean.toValid]
  exact byteMachine_isSome_iff clean _

/-- A frame of length 0, opcode 0x84 and another byte: the count is -1. -/
theorem zeroLength_not_inBounds :
    ¬∀ call ∈ bufferCalls echoPrivate [[0x00, 0x84, 0x01]] .init, call.InBounds := by
  intro bounds
  have copied := (bounds _ (List.mem_cons_self ..)).1 { pos := 0, count := -1, size := 1 } rfl
  exact absurd copied.nonneg (by decide)

end BleGateway
