import BleGateway.ByteMachine

namespace BleGateway
variable (uECC_shared_secret : UECCSharedSecret)

def commandMachine : Mealy.Machine Globals BleCmd SerialFrame where
  step g cmd := bleProcessCommand uECC_shared_secret cmd g

/-- What the byte automaton makes of some bytes: the commands it completes are processed in order. -/
def receiveBytes (bytes : List UInt8) (g : Gateway) : Option Received :=
  let cmds := byteMachine.outputs (some g.localParser) bytes
  (byteMachine.final (some g.localParser) bytes).map fun localParser =>
    { gateway := { localParser, globals := (commandMachine uECC_shared_secret).final g.globals cmds }
      dispatched := cmds
      written := (commandMachine uECC_shared_secret).outputs g.globals cmds }

/-- The commands handed over are processed, each once and in order: the globals left and the frames written are what
`ble_processCommand` makes of them. -/
structure Received.Processes (r : Received) (g : Gateway) : Prop where
  globals : r.gateway.globals = (commandMachine uECC_shared_secret).final g.globals r.dispatched
  written : r.written = (commandMachine uECC_shared_secret).outputs g.globals r.dispatched

theorem Received.processes_nothing (g : Gateway) :
    (Received.mk g [] []).Processes uECC_shared_secret g := ⟨rfl, rfl⟩

theorem Received.Processes.after {g : Gateway} {first later : Received}
    (processes : first.Processes uECC_shared_secret g) (goesOn : later.Processes uECC_shared_secret first.gateway) :
    (later.after first.dispatched first.written).Processes uECC_shared_secret g where
  globals := by
    rw [Received.after, Mealy.Machine.final_append, ← processes.globals]
    exact goesOn.globals
  written := by
    rw [Received.after, Mealy.Machine.outputs_append, ← processes.globals, ← processes.written, ← goesOn.written]

/-- What comes of a command that the parser has just completed. -/
def Gateway.handOver (g : Gateway) (parser : BleParser) : Received where
  gateway := { localParser := parser, globals := (bleProcessCommand uECC_shared_secret parser.cmd g.globals).1 }
  dispatched := [parser.cmd]
  written := (bleProcessCommand uECC_shared_secret parser.cmd g.globals).2

theorem Gateway.handOver_processes (g : Gateway) (parser : BleParser) :
    (g.handOver uECC_shared_secret parser).Processes uECC_shared_secret g where
  globals := rfl
  written := (List.append_nil _).symm

/-- What a round of the loop of `ble_handle_cmd` does: a call of `ble_parser` that completes a command, which is then
processed, or one that does not. -/
theorem handleCmdLoop_round {data : List UInt8} {rounds remainSize : Nat} {g : Gateway} {r : Received}
    (run : handleCmdLoop uECC_shared_secret data (rounds + 1) (remainSize + 1) g = some r) :
    ∃ ret, bleParser (data.drop (data.length - (remainSize + 1))) g.localParser = some ret ∧
      let first := g.handOver uECC_shared_secret ret.parser
      (ret.done = true ∧ (∃ later,
          handleCmdLoop uECC_shared_secret data rounds ret.remainSize first.gateway = some later ∧
          later.after first.dispatched first.written = r) ∨
        ret.done = false ∧ handleCmdLoop uECC_shared_secret data rounds ret.remainSize
          { g with localParser := ret.parser } = some r) := by
  obtain ⟨ret, parsed, rest⟩ := Option.bind_eq_some_iff.mp run
  refine ⟨ret, parsed, ?_⟩
  split at rest
  next completed => exact Or.inl ⟨completed, Option.map_eq_some_iff.mp rest⟩
  next pending => exact Or.inr ⟨Bool.eq_false_iff.mpr pending, rest⟩

/-- Wherever the parser is, the loop hands over no command that it does not process. -/
theorem handleCmdLoop_processes {data : List UInt8} {rounds remainSize : Nat} {g : Gateway} {r : Received}
    (run : handleCmdLoop uECC_shared_secret data rounds remainSize g = some r) :
    r.Processes uECC_shared_secret g := by
  induction rounds generalizing remainSize g r with
  | zero =>
    cases remainSize with
    | zero =>
      cases Option.some.inj run
      exact Received.processes_nothing uECC_shared_secret g
    | succ => cases run
  | succ rounds ih =>
    cases remainSize with
    | zero =>
      cases Option.some.inj run
      exact Received.processes_nothing uECC_shared_secret g
    | succ remainSize =>
      obtain ⟨ret, _, ⟨_, later, loop, rfl⟩ | ⟨_, loop⟩⟩ := handleCmdLoop_round uECC_shared_secret run
      · exact (g.handOver_processes uECC_shared_secret ret.parser).after uECC_shared_secret (ih loop)
      · exact ⟨(ih loop).globals, (ih loop).written⟩

theorem bleHandleCmd_processes {buffer : List UInt8} {g : Gateway} {r : Received}
    (run : bleHandleCmd uECC_shared_secret buffer g = some r) : r.Processes uECC_shared_secret g :=
  handleCmdLoop_processes uECC_shared_secret run

/-- Rounds of the loop a parser in state DATA may need on top of two for every byte. -/
def BleParser.extraRounds (p : BleParser) : Nat := if p.state = .data then 1 else 0

theorem BleParser.extraRounds_le (p : BleParser) : p.extraRounds ≤ 1 := by
  unfold extraRounds
  split <;> omega

/-- The pointer `data + size - remainSize` of the loop is at the bytes not yet taken. -/
theorem drop_to_remainder {data before bytes : List UInt8} (suffix : data = before ++ bytes) :
    data.drop (data.length - bytes.length) = bytes := by
  rw [suffix, List.length_append, Nat.add_sub_cancel, List.drop_left]

theorem handleCmdLoop_zero (data : List UInt8) (rounds : Nat) (g : Gateway) :
    handleCmdLoop uECC_shared_secret data rounds 0 g =
      some { gateway := g, dispatched := [], written := [] } := by
  cases rounds <;> rfl

/-- A round that hands over a command leaves enough rounds for the bytes behind it. -/
theorem extraRounds_done {bytes taken tail : List UInt8} {p q : BleParser} {rounds : Nat}
    (split : bytes = taken ++ tail) (pending : taken = [] → p.state = .data) (ended : q.state = .len)
    (enough : 2 * bytes.length + p.extraRounds ≤ rounds + 1) : 2 * tail.length + q.extraRounds ≤ rounds := by
  have length := congrArg List.length split
  rw [List.length_append] at length
  have closed : q.extraRounds = 0 := if_neg (by simp [ended])
  rcases List.eq_nil_or_concat' taken with none | ⟨_, _, rfl⟩
  · -- a round that takes no byte uses up the extra round of state DATA
    have open_ : p.extraRounds = 1 := if_pos (pending none)
    simp only [none, List.length_nil] at length
    omega
  · rw [List.length_append, List.length_singleton] at length
    omega

/-- With enough rounds the loop of `ble_handle_cmd` takes every byte and stops. -/
theorem handleCmdLoop_eq {data before bytes : List UInt8} {rounds : Nat} {g : Gateway}
    (valid : g.localParser.Valid) (suffix : data = before ++ bytes)
    (enough : 2 * bytes.length + g.localParser.extraRounds ≤ rounds) :
    handleCmdLoop uECC_shared_secret data rounds bytes.length g =
      receiveBytes uECC_shared_secret bytes g := by
  induction rounds generalizing before bytes g with
  | zero =>
    obtain rfl : bytes = [] := List.eq_nil_of_length_eq_zero (by omega)
    rfl
  | succ rounds ih =>
    cases bytes with
    | nil => rfl
    | cons byte rest =>
      have pointer := drop_to_remainder suffix
      rw [List.length_cons] at pointer
      have call := bleParser_call valid (byte :: rest)
      simp only [List.length_cons, handleCmdLoop, pointer, receiveBytes]
      generalize bleParser (byte :: rest) g.localParser = result at call
      cases call with
      | fault stuck silent => rw [stuck, Option.bind_none, Option.map_none]
      | more run silent =>
        rw [run, silent, Option.bind_some, if_neg (by simp), handleCmdLoop_zero]
        rfl
      | @done q taken tail split pending ended valid' run emitted =>
        have fewer := extraRounds_done split pending ended enough
        have later (globals : Globals) := @ih (before ++ taken) tail ⟨q, globals⟩ valid'
          (by rw [suffix, split, List.append_assoc]) fewer
        simp only [run, emitted, Option.bind_some, if_true, later, receiveBytes, Option.map_map]
        rfl

/-- `ble_handle_cmd` terminates on every buffer and makes exactly the steps of the byte automaton. -/
theorem bleHandleCmd_eq {g : Gateway} (valid : g.localParser.Valid) (bytes : List UInt8) :
    bleHandleCmd uECC_shared_secret bytes g = receiveBytes uECC_shared_secret bytes g := by
  exact handleCmdLoop_eq uECC_shared_secret valid (List.nil_append bytes).symm
    (Nat.add_le_add_left g.localParser.extraRounds_le _)

end BleGateway
