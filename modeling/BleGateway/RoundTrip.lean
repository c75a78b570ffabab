import BleGateway.SplitInvariance

namespace BleGateway

/-- The parser as a machine over whole frames: each is handed over once, as it came. -/
def frameMachine : Mealy.Machine BleParser SerialFrame BleCmd where
  step p frame := (p.receive frame, [(p.receive frame).cmd])

/-- The bytes `ble_write` puts on the wire for a sequence of frames. -/
def wire (frames : List SerialFrame) : List UInt8 := frames.flatMap bleWrite

theorem wire_cons (frame : SerialFrame) (frames : List SerialFrame) :
    wire (frame :: frames) = bleWrite frame ++ wire frames := List.flatMap_cons

theorem wire_concat (frames : List SerialFrame) (frame : SerialFrame) :
    wire (frames ++ [frame]) = wire frames ++ (bleWrite frame ++ []) := List.flatMap_append

theorem bleWrite_length_byte (frame : SerialFrame) :
    ((UInt8.ofNat (1 + frame.payload.length)).toNat : Int) - 1 = frame.payload.length := by
  have bound := frame.bound
  simp only [nrfMeshSerialPayloadMaxlen] at bound
  rw [UInt8.toNat_ofNat']
  omega

def BleParser.header (p : BleParser) (frame : SerialFrame) : BleParser where
  state := .data
  cmd := { opcode := frame.opcode, len := frame.payload.length, data := p.cmd.data }
  pos := 0

/-- The first two bytes of a frame set up the parser for its payload. -/
theorem byteMachine_header {p : BleParser} (state : p.state = .len) (frame : SerialFrame) (bytes : List UInt8) :
    byteMachine.final (some p) (UInt8.ofNat (1 + frame.payload.length) :: frame.opcode :: bytes) =
        byteMachine.final (some (p.header frame)) bytes ∧
      byteMachine.outputs (some p) (UInt8.ofNat (1 + frame.payload.length) :: frame.opcode :: bytes) =
        byteMachine.outputs (some (p.header frame)) bytes := by
  have length := bleWrite_length_byte frame
  simp only [Mealy.Machine.final_cons, Mealy.Machine.outputs_cons, byteMachine_step_some, byteStep, state,
    BleParser.takeLength, length, List.nil_append, BleParser.header, and_self]

/-- A frame is handed over with the last byte of its payload or, without payload, when the next byte
is seen. -/
theorem byteMachine_frame {p : BleParser} (state : p.state = .len) {frame : SerialFrame} {rest : List UInt8}
    (more : frame.payload ++ rest ≠ []) :
    byteMachine.final (some p) (bleWrite frame ++ rest) = byteMachine.final (some (p.receive frame)) rest ∧
      byteMachine.outputs (some p) (bleWrite frame ++ rest) =
        (p.receive frame).cmd :: byteMachine.outputs (some (p.receive frame)) rest := by
  obtain ⟨final, outputs⟩ := byteMachine_header state frame (frame.payload ++ rest)
  have complete : (p.header frame).complete frame.payload = p.receive frame := by
    simp only [BleParser.complete, BleParser.header, BleParser.receive, BleCmd.receive, Nat.zero_add]
  have payload := byteMachine_payload (p := p.header frame) rfl more (by simp [BleParser.header])
  rw [complete] at payload
  exact ⟨final.trans payload.1, outputs.trans payload.2⟩

theorem bleWrite_ne_nil (frame : SerialFrame) : bleWrite frame ≠ [] := List.cons_ne_nil _ _

/-- Once more bytes follow, the byte automaton makes the steps of the frame machine on the wire
image of some frames. -/
theorem byteMachine_wire_append {p : BleParser} (state : p.state = .len) (frames : List SerialFrame)
    {rest : List UInt8} (more : rest ≠ []) :
    byteMachine.final (some p) (wire frames ++ rest) = byteMachine.final (some (frameMachine.final p frames)) rest ∧
      byteMachine.outputs (some p) (wire frames ++ rest) =
        frameMachine.outputs p frames ++ byteMachine.outputs (some (frameMachine.final p frames)) rest := by
  induction frames generalizing p with
  | nil => exact ⟨rfl, rfl⟩
  | cons frame frames ih =>
    have follows : frame.payload ++ (wire frames ++ rest) ≠ [] :=
      List.append_ne_nil_of_right_ne_nil _ (List.append_ne_nil_of_right_ne_nil _ more)
    have handed := byteMachine_frame state follows
    obtain ⟨final, outputs⟩ := ih (p := p.receive frame) rfl
    rw [wire_cons, List.append_assoc]
    exact ⟨handed.1.trans final, handed.2.trans (by rw [outputs]; rfl)⟩

theorem frameMachine_state {p : BleParser} (state : p.state = .len) (frames : List SerialFrame) :
    (frameMachine.final p frames).state = .len := by
  have keep (q : BleParser) (frame : SerialFrame) (_ : q.state = .len) :
      (frameMachine.step q frame).1.state = .len := rfl
  exact Mealy.Machine.final_invariant keep state frames

/-- On the wire image of frames the byte automaton is the frame machine, once the last frame
has a payload. -/
theorem byteMachine_wire {p : BleParser} (state : p.state = .len) {frames : List SerialFrame}
    (last : ∀ frame ∈ frames.getLast?, frame.payload ≠ []) :
    byteMachine.final (some p) (wire frames) = some (frameMachine.final p frames) ∧
      byteMachine.outputs (some p) (wire frames) = frameMachine.outputs p frames := by
  rcases List.eq_nil_or_concat' frames with rfl | ⟨earlier, frame, rfl⟩
  · exact ⟨rfl, rfl⟩
  · have payload : frame.payload ≠ [] := last frame List.getLast?_concat
    have earlierRun := byteMachine_wire_append state earlier
      (List.append_ne_nil_of_left_ne_nil (bleWrite_ne_nil frame) [])
    have lastRun := byteMachine_frame (frameMachine_state state earlier) (List.append_ne_nil_of_left_ne_nil payload [])
    rw [wire_concat, earlierRun.1, earlierRun.2, lastRun.1, lastRun.2, Mealy.Machine.final_append,
      Mealy.Machine.outputs_append]
    exact ⟨rfl, rfl⟩

/-- The command record `ble_processCommand` sees holds exactly a frame: its opcode,
its length and, at the start of `cmd.data`, its payload. -/
structure BleCmd.Carries (cmd : BleCmd) (frame : SerialFrame) : Prop where
  opcode : cmd.opcode = frame.opcode
  len : cmd.len = frame.payload.length
  data : (cmd.data.slice 0 frame.payload.length).bytes = frame.payload

theorem BleCmd.receive_carries (cmd : BleCmd) (frame : SerialFrame) : (cmd.receive frame).Carries frame where
  opcode := rfl
  len := rfl
  data := by
    have bound := frame.bound
    simp only [nrfMeshSerialPayloadMaxlen] at bound
    exact Buffer.slice_store cmd.data (by omega)

theorem frameMachine_carries (p : BleParser) (frames : List SerialFrame) :
    List.Forall₂ BleCmd.Carries (frameMachine.outputs p frames) frames := by
  induction frames generalizing p with
  | nil => exact .nil
  | cons frame frames ih => exact .cons (p.cmd.receive_carries frame) (ih _)

variable {uECC_shared_secret : UECCSharedSecret}

theorem gatewayMachine_frames (uECC_shared_secret : UECCSharedSecret) (g : Gateway) (frames : List SerialFrame) :
    (gatewayMachine uECC_shared_secret).final g (frames.map .frame) =
        { localParser := frameMachine.final g.localParser frames
          globals := (commandMachine uECC_shared_secret).final g.globals
            (frameMachine.outputs g.localParser frames) } ∧
      ((gatewayMachine uECC_shared_secret).outputs g (frames.map .frame)).map Write.frame =
        (commandMachine uECC_shared_secret).outputs g.globals
          (frameMachine.outputs g.localParser frames) := by
  induction frames generalizing g with
  | nil => exact ⟨rfl, rfl⟩
  | cons frame frames ih =>
    obtain ⟨final, outputs⟩ := ih ((gatewayMachine uECC_shared_secret).step g (.frame frame)).1
    refine ⟨final, ?_⟩
    simp only [List.map_cons, Mealy.Machine.outputs_cons, List.map_append, outputs]
    congr 1
    simp only [gatewayMachine, List.map_map]
    exact List.map_id _

/-- Bytes and frames agree: on the wire image of some frames the receive path makes exactly
the steps the program makes when these frames are delivered to it. -/
theorem receiveBytes_wire {g : Gateway} (state : g.localParser.state = .len) {frames : List SerialFrame}
    (last : ∀ frame ∈ frames.getLast?, frame.payload ≠ []) :
    receiveBytes uECC_shared_secret (wire frames) g =
      some { gateway := (gatewayMachine uECC_shared_secret).final g (frames.map .frame)
             dispatched := frameMachine.outputs g.localParser frames
             written := ((gatewayMachine uECC_shared_secret).outputs g (frames.map .frame)).map Write.frame } := by
  obtain ⟨final, outputs⟩ := byteMachine_wire state last
  obtain ⟨program, written⟩ := gatewayMachine_frames uECC_shared_secret g frames
  rw [receiveBytes, final, outputs, program, written, Option.map_some]

theorem receiveBytes_wire_carries {g : Gateway} (state : g.localParser.state = .len) {frames : List SerialFrame}
    (last : ∀ frame ∈ frames.getLast?, frame.payload ≠ []) :
    ∃ r, receiveBytes uECC_shared_secret (wire frames) g = some r ∧
      List.Forall₂ BleCmd.Carries r.dispatched frames ∧ r.gateway.localParser.state = .len := by
  refine ⟨_, receiveBytes_wire state last, frameMachine_carries _ _, ?_⟩
  rw [(gatewayMachine_frames uECC_shared_secret g frames).1]
  exact frameMachine_state state frames

/-- Decoding undoes encoding: however the wire image of some frames is cut into buffers, the receive
path hands over each of the frames once, in order, processes each as it is handed over and ends between
two frames. -/
theorem handleBuffers_wire {g : Gateway} (state : g.localParser.state = .len) {frames : List SerialFrame}
    (last : ∀ frame ∈ frames.getLast?, frame.payload ≠ []) {buffers : List (List UInt8)}
    (cut : buffers.flatten = wire frames) :
    ∃ r, handleBuffers uECC_shared_secret buffers g = some r ∧
      List.Forall₂ BleCmd.Carries r.dispatched frames ∧ r.gateway.localParser.state = .len ∧
      r.gateway.globals = (commandMachine uECC_shared_secret).final g.globals r.dispatched ∧
      r.written = (commandMachine uECC_shared_secret).outputs g.globals r.dispatched := by
  obtain ⟨r, run, carried, ended⟩ := @receiveBytes_wire_carries uECC_shared_secret g state frames last
  rw [← cut, ← handleBuffers_eq (BleParser.valid_of_len state)] at run
  have processes := handleBuffers_processes run
  exact ⟨r, run, carried, ended, processes.globals, processes.written⟩

theorem handleBuffers_wire_command_response :
    ∃ r, handleBuffers (fun _ _ => ⟨fun _ => 0, 1⟩) [[0x01], [0xC2, 0x03, 0x84, 0x61], [0x00]] Gateway.init =
        some r ∧
      List.Forall₂ BleCmd.Carries r.dispatched
        [⟨0xC2, [], by decide⟩, ⟨0x84, [0x61, 0x00], by decide⟩] ∧
      r.gateway.localParser.state = .len ∧
      r.gateway.globals = (commandMachine (fun _ _ => ⟨fun _ => 0, 1⟩)).final Globals.init r.dispatched ∧
      r.written = (commandMachine (fun _ _ => ⟨fun _ => 0, 1⟩)).outputs Globals.init r.dispatched :=
  handleBuffers_wire rfl (by decide) rfl

end BleGateway
