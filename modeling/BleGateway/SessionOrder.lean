import BleGateway.GatewayRun
import BleGateway.Lib.Sessions

namespace BleGateway
open Sessions

/-- What a handler frame is to its session: a command, or a mesh packet with its access message. -/
inductive SessionFrame
  | command (opcode : UInt8)
  | packet (message : List UInt8)
deriving DecidableEq

/-- The access message of a mesh packet follows its ten header bytes. -/
def SessionFrame.ofFrame (frame : SerialFrame) : SessionFrame :=
  if frame.opcode = serialOpcodeCmdMeshPacketSend then .packet (frame.payload.drop 10)
  else .command frame.opcode

/-- The handler frames that belong to provisioning sessions. -/
def sessionWrites (writes : List Write) : List SessionFrame :=
  ((handlerFrames writes).filter (·.opcode ∉ moduleSetup)).map .ofFrame

/-- The steps of a session in order: provision, OOB use, ECDH secret, auth data, device key and
publication address, composition data get, app key add, model app bind, model publication set. -/
def sessionSteps : List (List SessionFrame) :=
  [[.command 0x63], [.command 0x66], [.command 0x68], [.command 0x67],
    [.command 0x9c, .command 0xa4],
    [.packet [0x80, 0x08, 0x00]],
    [.packet ([0x00, 0x00, 0x00, 0x00] ++ appKey)],
    [.packet [0x80, 0x3d, 0x1a, 0x00, 0x00, 0x00, 0x00, 0x10]],
    [.packet [0x03, 0x1a, 0x00, 0x01, 0x00, 0x00, 0x00, 0x01, 0x00, 0x00, 0x00, 0x10]]]

def BleUnprovisionerState.stepsDone : BleUnprovisionerState → Nat
  | .new => 0
  | .provision => 1
  | .oobuse => 2
  | .ecdh => 3
  | .auth => 4
  | .devkeyAddrpubadd => 5
  | .psComposdata => 6
  | .psAppkeyAdd => 7
  | .psModelAppBind => 8
  | .psModelPublicationSet => 9

@[simp] theorem sessionWrites_append (first second : List Write) :
    sessionWrites (first ++ second) = sessionWrites first ++ sessionWrites second := by
  simp [sessionWrites]

@[simp] theorem sessionWrites_operated (frames : List SerialFrame) :
    sessionWrites (frames.map Write.operated) = [] := by
  simp [sessionWrites]

theorem sessionWrites_handled (frames : List SerialFrame) :
    sessionWrites (frames.map Write.handled) =
      (frames.filter (·.opcode ∉ moduleSetup)).map .ofFrame := by
  simp [sessionWrites]

theorem sessionWrites_setup {frames : List SerialFrame} (setup : ∀ frame ∈ frames, frame.opcode ∈ moduleSetup) :
    sessionWrites (frames.map Write.handled) = [] := by
  rw [sessionWrites_handled, List.map_eq_nil_iff, List.filter_eq_nil_iff]
  intro frame member
  simpa using setup frame member

theorem sessionWrites_packet (appkeyHandle dstAddrHandle : UInt16) (message : List UInt8)
    (fits : message.length ≤ 244) :
    sessionWrites ([blePacketSend (meshPacket appkeyHandle dstAddrHandle message fits)].map Write.handled) =
      [.packet message] := by
  have kept : serialOpcodeCmdMeshPacketSend ∉ moduleSetup := fun setup => (setup_opcode_ne setup).2.2.2 rfl
  have access := blePacketSend_meshPacket_message appkeyHandle dstAddrHandle message fits
  rw [sessionWrites_handled]
  simp [SessionFrame.ofFrame, kept, access]

theorem sessionOpen_advance {g globals : Globals} {frames : List SerialFrame} {past : List Write}
    {step : List SessionFrame} (writes : sessionWrites (frames.map Write.handled) = step)
    (next : sessionSteps[g.state.stepsDone]? = some step)
    (moved : globals.state.stepsDone = g.state.stepsDone + 1)
    (session : Open sessionSteps g.state.stepsDone (sessionWrites past)) :
    Open sessionSteps globals.state.stepsDone (sessionWrites (past ++ frames.map Write.handled)) := by
  rw [sessionWrites_append, writes, moved]
  exact session.next next

variable {uECC_shared_secret : UECCSharedSecret}

/-- What a handler writes is nothing to the session, or its next step. -/
theorem sessionOpen_command {cmd : BleCmd} {g globals : Globals} {frames : List SerialFrame} {past : List Write}
    (step : CommandStep uECC_shared_secret cmd g globals frames)
    (session : Open sessionSteps g.state.stepsDone (sessionWrites past)) :
    Open sessionSteps globals.state.stepsDone (sessionWrites (past ++ frames.map Write.handled)) := by
  cases step with
  | quiet setup => rwa [sessionWrites_append, sessionWrites_setup setup, List.append_nil]
  | subnetHandle =>
    rw [sessionWrites_append, sessionWrites_setup, List.append_nil]
    · exact session
    · simp [moduleSetup]
  | devkeyHandle | dstAddrHandle =>
    rw [List.map_nil, List.append_nil]
    exact session
  | provision _ state | oobUse _ state | ecdhSecret _ state | authData _ state | complete _ state =>
    exact sessionOpen_advance rfl (by rw [state]; rfl) (by rw [state]; rfl) session
  | compositionData _ state | appkeyAdd _ state | modelAppBind _ _ state | publicationSet _ _ state =>
    exact sessionOpen_advance (sessionWrites_packet _ _ _ _) (by rw [state]; rfl) (by rw [state]; rfl) session
  | abort | finish => simpa [BleUnprovisionerState.stepsDone] using session.close

theorem sessionOpen_key {c : Char} {g globals : Globals} {frames : List SerialFrame} {past : List Write}
    (step : KeyStep c g globals frames)
    (session : Open sessionSteps g.state.stepsDone (sessionWrites past)) :
    Open sessionSteps globals.state.stepsDone (sessionWrites (past ++ frames.map Write.operated)) := by
  rw [sessionWrites_append, sessionWrites_operated, List.append_nil]
  cases step with
  | scanStart => exact session.close
  | send => exact session

/-- The inputs that take a session back to NEW: LINK_CLOSED outside DEVKEY_ADDRPUBADD, a
publication status in the last state, and the scan key. -/
def EndsSession (g : Gateway) : Input → Prop
  | .frame f =>
    let cmd := g.localParser.cmd.receive f
    cmd.opcode = serialOpcodeEvtProvLinkClosed ∧ g.globals.state ≠ .devkeyAddrpubadd ∨
      cmd.opcode = serialOpcodeEvtMeshMessageReceivedUnicast ∧
        (meshMessageOpcode cmd).1 = configOpcodeModelPublicationStatus ∧
        g.globals.state = .psModelPublicationSet
  | .key c => c = '1'

def WritesProvision (uECC_shared_secret : UECCSharedSecret) (g : Gateway) (input : Input) : Prop :=
  ∃ write ∈ ((gatewayMachine uECC_shared_secret).step g input).2, write.frame.opcode = 0x63

theorem WritesProvision.starts {g : Gateway} {input : Input}
    (writes : WritesProvision uECC_shared_secret g input) :
    g.globals.state = .new ∧
      ((gatewayMachine uECC_shared_secret).step g input).1.globals.state = .provision := by
  obtain ⟨write, member, opcode⟩ := writes
  have step := gatewayMachine_step uECC_shared_secret g input
  generalize ((gatewayMachine uECC_shared_secret).step g input).1.globals = globals at step ⊢
  generalize ((gatewayMachine uECC_shared_secret).step g input).2 = writes at step member
  cases step with
  | command command =>
    obtain ⟨frame, frameMember, rfl⟩ := List.mem_map.mp member
    obtain ⟨_, state, rfl, _⟩ := command.of_provision_frame frameMember opcode
    exact ⟨state, rfl⟩
  | key key =>
    obtain ⟨frame, frameMember, rfl⟩ := List.mem_map.mp member
    exact absurd opcode (key.opcode_ne frameMember).1

/-- Nothing else takes a session back to NEW. -/
theorem step_state_ne_new {g : Gateway} {input : Input} (running : g.globals.state ≠ .new)
    (goesOn : ¬EndsSession g input) :
    ((gatewayMachine uECC_shared_secret).step g input).1.globals.state ≠ .new := by
  have step := gatewayMachine_step uECC_shared_secret g input
  generalize ((gatewayMachine uECC_shared_secret).step g input).1.globals = globals at step ⊢
  generalize ((gatewayMachine uECC_shared_secret).step g input).2 = writes at step
  cases step with
  | command command =>
    cases command with
    | abort event state => exact absurd (Or.inl ⟨event, state⟩) goesOn
    | finish event opcode state => exact absurd (Or.inr ⟨event, opcode, state⟩) goesOn
    | quiet | subnetHandle | devkeyHandle | dstAddrHandle => exact running
    | provision | oobUse | ecdhSecret | authData | complete | compositionData | appkeyAdd
    | modelAppBind | publicationSet => exact fun new => by cases new
  | key key =>
    cases key with
    | scanStart pressed => exact absurd pressed goesOn
    | send => exact running

theorem sessionOpen_run (uECC_shared_secret : UECCSharedSecret) (word : List Input) :
    Open sessionSteps ((gatewayMachine uECC_shared_secret).final .init word).globals.state.stepsDone
      (sessionWrites ((gatewayMachine uECC_shared_secret).outputs .init word)) :=
  gateway_run uECC_shared_secret (fun g past => Open sessionSteps g.state.stepsDone (sessionWrites past))
    (fun _ _ _ _ _ step => sessionOpen_command step) (fun _ _ _ _ _ step => sessionOpen_key step)
    (g := .init) prefixRuns_nil.opened word

/-- Over every run, the session writes of the handlers are non-empty prefixes of the step sequence
one after the other, and between two provision frames some input ends the first session. -/
theorem sessionWrites_prefixRuns (uECC_shared_secret : UECCSharedSecret) :
    (∀ word : List Input,
      PrefixRuns sessionSteps (sessionWrites ((gatewayMachine uECC_shared_secret).outputs .init word))) ∧
    ∀ (before between : List Input) (first second : Input),
      WritesProvision uECC_shared_secret ((gatewayMachine uECC_shared_secret).final .init before) first →
      WritesProvision uECC_shared_secret
        ((gatewayMachine uECC_shared_secret).final .init (before ++ first :: between)) second →
      ∃ early ending late, between = early ++ ending :: late ∧
        EndsSession ((gatewayMachine uECC_shared_secret).final .init (before ++ first :: early)) ending := by
  constructor
  · intro word
    exact (sessionOpen_run uECC_shared_secret word).prefixRuns
  · -- the first provision leaves NEW, and the second needs NEW again
    intro before between first second starts again
    simp only [Mealy.Machine.final_append, Mealy.Machine.final_cons] at again ⊢
    rcases Mealy.Machine.along_not_or_exists (m := gatewayMachine uECC_shared_secret) EndsSession _ between with
      never | found
    · have running := Mealy.Machine.final_of_along
        (I := fun g : Gateway => g.globals.state ≠ .new) (fun _ _ => step_state_ne_new)
        (by rw [starts.starts.2]; exact fun new => by cases new) never
      exact absurd again.starts.1 running
    · exact found

end BleGateway
