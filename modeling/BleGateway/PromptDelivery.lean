import BleGateway.Lib.Framing
import BleGateway.GatewayRun
import BleGateway.RoundTrip

namespace BleGateway
open Framing

variable (uECC_shared_secret : UECCSharedSecret)

/-- When `ble_handle_cmd` returns from each buffer, exactly the frames that have come in are
dispatched, and between two frames the parser waits for a length byte. -/
def DeliversPromptly (g : Gateway) (frames : List SerialFrame) (buffers : List (List UInt8)) : Prop :=
  ∀ k, ∃ r, handleBuffers uECC_shared_secret (buffers.take k) g = some r ∧
    r.dispatched.length = received bleWrite frames (buffers.take k).flatten.length ∧
    ∀ done, done <+: frames → (buffers.take k).flatten = wire done → r.gateway.localParser.state = .len

/-- No buffer ends right behind a frame without payload. -/
def EndsWithPayload (frames : List SerialFrame) (buffers : List (List UInt8)) : Prop :=
  ∀ k done frame, done ++ [frame] <+: frames → frame.payload = [] →
    (buffers.take k).flatten ≠ wire (done ++ [frame])

theorem frameMachine_outputs_length (p : BleParser) (frames : List SerialFrame) :
    (frameMachine.outputs p frames).length = frames.length :=
  (frameMachine_carries p frames).length_eq

/-- Part of a frame completes no command. -/
theorem byteMachine_part {p : BleParser} (state : p.state = .len) {frame : SerialFrame} {part : List UInt8}
    (inside : part <+: bleWrite frame) (short : part.length < (bleWrite frame).length) :
    ∃ q, byteMachine.final (some p) part = some q ∧ byteMachine.outputs (some p) part = [] := by
  obtain ⟨tail, whole⟩ := inside
  rcases part with _ | ⟨len, _ | ⟨opcode, payload⟩⟩
  · exact ⟨p, rfl, rfl⟩
  · have step : byteStep p len = (some (p.takeLength len), []) := by simp only [byteStep, state]
    exact ⟨p.takeLength len, by simp [step], by simp [step]⟩
  · simp only [bleWrite, List.cons_append, List.cons.injEq] at whole
    obtain ⟨rfl, rfl, _⟩ := whole
    have fewer : payload.length < frame.payload.length := by simpa [bleWrite] using short
    obtain ⟨final, outputs⟩ := byteMachine_payload_partial (p := p.header frame) payload rfl
      (by simp only [BleParser.header]; omega)
    have header := byteMachine_header state frame payload
    exact ⟨_, header.1.trans final, header.2.trans outputs⟩

/-- A last frame without payload is still pending when the bytes end behind it. -/
theorem byteMachine_wire_pending {p : BleParser} (state : p.state = .len) (frames : List SerialFrame)
    {frame : SerialFrame} (empty : frame.payload = []) :
    byteMachine.final (some p) (wire (frames ++ [frame])) = some ((frameMachine.final p frames).header frame) ∧
      byteMachine.outputs (some p) (wire (frames ++ [frame])) = frameMachine.outputs p frames := by
  obtain ⟨final, outputs⟩ := byteMachine_wire_append state frames
    (List.append_ne_nil_of_left_ne_nil (bleWrite_ne_nil frame) [])
  obtain ⟨header, silent⟩ := byteMachine_header (frameMachine_state state frames) frame []
  have bytes : bleWrite frame ++ [] = [UInt8.ofNat (1 + frame.payload.length), frame.opcode] := by
    rw [List.append_nil, bleWrite, empty]
  rw [wire_concat, final, outputs, bytes, header, silent]
  exact ⟨rfl, List.append_nil _⟩

/-- What has been dispatched when a buffer ends somewhere in the wire image of some frames. -/
theorem promptAt_iff {p : BleParser} (state : p.state = .len) {frames : List SerialFrame} {bytes : List UInt8}
    (cut : Cut bleWrite frames bytes) :
    ∃ q, byteMachine.final (some p) bytes = some q ∧
      (((byteMachine.outputs (some p) bytes).length = received bleWrite frames bytes.length ∧
          ∀ done, done <+: frames → bytes = wire done → q.state = .len) ↔
        ∀ done frame, done ++ [frame] <+: frames → frame.payload = [] → bytes ≠ wire (done ++ [frame])) := by
  cases cut with
  | @between done rest =>
    rw [received_between bleWrite_ne_nil]
    by_cases pending : ∃ first frame, done = first ++ [frame] ∧ frame.payload = []
    · obtain ⟨first, frame, rfl, empty⟩ := pending
      obtain ⟨final, outputs⟩ := byteMachine_wire_pending state first empty
      refine ⟨_, final, ?_⟩
      constructor
      · rintro ⟨count, _⟩
        rw [show (first ++ [frame]).flatMap bleWrite = wire (first ++ [frame]) from rfl, outputs,
          frameMachine_outputs_length, List.length_append, List.length_singleton] at count
        omega
      · intro ends
        exact absurd rfl (ends first frame (List.prefix_append _ _) empty)
    · have last : ∀ frame ∈ done.getLast?, frame.payload ≠ [] := by
        intro frame isLast empty
        obtain ⟨first, split⟩ := List.getLast?_eq_some_iff.mp isLast
        exact pending ⟨first, frame, split, empty⟩
      obtain ⟨final, outputs⟩ := byteMachine_wire state last
      refine ⟨_, final, ?_⟩
      constructor
      · intro _ first frame isPrefix empty same
        have equal := prefix_unique bleWrite_ne_nil isPrefix (List.prefix_append done rest) same.symm
        exact pending ⟨first, frame, equal.symm, empty⟩
      · intro _
        refine ⟨?_, fun _ _ _ => frameMachine_state state done⟩
        rw [show done.flatMap bleWrite = wire done from rfl, outputs, frameMachine_outputs_length]
  | @within done next rest part some inside short =>
    obtain ⟨final, outputs⟩ := byteMachine_wire_append state done some
    obtain ⟨q, final', silent⟩ := byteMachine_part (frameMachine_state state done) inside short
    have between : ∀ other, other <+: done ++ next :: rest → done.flatMap bleWrite ++ part ≠ wire other :=
      fun other isPrefix => within_ne_between bleWrite_ne_nil some short isPrefix
    refine ⟨q, final.trans final', ?_⟩
    constructor
    · intro _ first frame isPrefix _
      exact between _ isPrefix
    · intro _
      refine ⟨?_, fun other isPrefix same => absurd same (between other isPrefix)⟩
      rw [received_within done short, show done.flatMap bleWrite = wire done from rfl, outputs, silent,
        List.append_nil, frameMachine_outputs_length]

variable {uECC_shared_secret}

/-- However the wire image of some frames is cut, frames are delivered promptly exactly if no
buffer ends right behind a frame without payload. Whatever is delivered is processed. -/
theorem deliversPromptly_iff {g : Gateway} (state : g.localParser.state = .len) {frames : List SerialFrame}
    {buffers : List (List UInt8)} (cut : buffers.flatten = wire frames) :
    (DeliversPromptly uECC_shared_secret g frames buffers ↔ EndsWithPayload frames buffers) ∧
      ∀ k r, handleBuffers uECC_shared_secret (buffers.take k) g = some r → r.Processes uECC_shared_secret g := by
  refine ⟨forall_congr' fun k => ?_, fun k r => handleBuffers_processes⟩
  have isPrefix : (buffers.take k).flatten <+: frames.flatMap bleWrite := by
    rw [show frames.flatMap bleWrite = buffers.flatten from cut.symm]
    refine ⟨(buffers.drop k).flatten, ?_⟩
    rw [← List.flatten_append, List.take_append_drop]
  obtain ⟨q, final, prompt⟩ := promptAt_iff state (cut_of_isPrefix isPrefix)
  rw [handleBuffers_eq (BleParser.valid_of_len state), receiveBytes, final, Option.map_some]
  constructor
  · rintro ⟨r, same, delivered⟩
    cases same
    exact prompt.mp delivered
  · intro ends
    exact ⟨_, rfl, prompt.mpr ends⟩

/-- The response to an echo of nothing. -/
def emptyEcho : SerialFrame where
  opcode := 0x82
  payload := []
  bound := Nat.zero_le _

theorem emptyEcho_not_deliversPromptly : ¬DeliversPromptly echoPrivate .init [emptyEcho] [[0x01, 0x82]] := by
  intro delivers
  obtain ⟨r, run, count, _⟩ := delivers 1
  have silent : (handleBuffers echoPrivate ([[0x01, 0x82]].take 1) .init).map (·.dispatched.length) = some 0 := rfl
  rw [run, Option.map_some, Option.some_inj, count] at silent
  exact absurd silent (by decide)

theorem deliversPromptly_iff_emptyEcho :
    (DeliversPromptly echoPrivate .init [emptyEcho] [[0x01], [0x82]] ↔
        EndsWithPayload [emptyEcho] [[0x01], [0x82]]) ∧
      ∀ k r, handleBuffers echoPrivate (([[0x01], [0x82]] : List (List UInt8)).take k) .init = some r →
        r.Processes echoPrivate .init :=
  deliversPromptly_iff rfl rfl

end BleGateway
