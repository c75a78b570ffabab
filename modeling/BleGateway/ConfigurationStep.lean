import BleGateway.GatewayRun

namespace BleGateway

/-- The messages that move the configuration of a node on, once its composition data are in. -/
inductive ConfigMessage
  | appkeyAdd
  | modelAppBind
  | modelPublicationSet
deriving DecidableEq

/-- The access opcode the message starts with. -/
def ConfigMessage.accessOpcode : ConfigMessage → List UInt8
  | .appkeyAdd => [0x00]
  | .modelAppBind => [0x80, 0x3d]
  | .modelPublicationSet => [0x03]

/-- A mesh packet with that message, by the access opcode behind its ten header bytes. -/
def ConfigMessage.SentBy (message : ConfigMessage) (frame : SerialFrame) : Prop :=
  frame.opcode = serialOpcodeCmdMeshPacketSend ∧ message.accessOpcode <+: frame.payload.drop 10

def ConfigMessage.packet (message : ConfigMessage) (unprovisioner : BleUnprovisioner) : SerialFrame :=
  match message with
  | .appkeyAdd => blePackerSendAppkeyAdd unprovisioner
  | .modelAppBind => blePacketSendModelAppBind unprovisioner
  | .modelPublicationSet => blePacketSendPublicationSet unprovisioner

/-- The state in which the message is sent. -/
def ConfigMessage.state : ConfigMessage → BleUnprovisionerState
  | .appkeyAdd => .psComposdata
  | .modelAppBind => .psAppkeyAdd
  | .modelPublicationSet => .psModelAppBind

/-- The state behind each step of a configuration; the last one completes it. -/
def BleUnprovisionerState.nextStep : BleUnprovisionerState → Option BleUnprovisionerState
  | .psComposdata => some .psAppkeyAdd
  | .psAppkeyAdd => some .psModelAppBind
  | .psModelAppBind => some .psModelPublicationSet
  | .psModelPublicationSet => some .new
  | _ => none

theorem ConfigMessage.sentBy_meshPacket {message : ConfigMessage} {appkeyHandle dstAddrHandle : UInt16}
    {data : List UInt8} {fits : data.length ≤ 244} :
    message.SentBy (blePacketSend (meshPacket appkeyHandle dstAddrHandle data fits)) ↔
      message.accessOpcode <+: data := by
  rw [SentBy, blePacketSend_meshPacket_message]
  exact and_iff_right rfl

theorem ConfigMessage.packet_sentBy (message : ConfigMessage) (unprovisioner : BleUnprovisioner) :
    message.SentBy (message.packet unprovisioner) := by
  cases message <;> exact ConfigMessage.sentBy_meshPacket.mpr (by decide)

variable {uECC_shared_secret : UECCSharedSecret} {cmd : BleCmd} {g globals : Globals} {frames : List SerialFrame}

/-- A handler sends a configuration message in its state, on the status message awaited there or,
for the first, on a TX_COMPLETE event. -/
theorem CommandStep.of_config_frame (step : CommandStep uECC_shared_secret cmd g globals frames)
    {frame : SerialFrame} (member : frame ∈ frames) {message : ConfigMessage} (sent : message.SentBy frame) :
    g.state = message.state ∧ frame = message.packet g.unprovisioner ∧
      (cmd.opcode = serialOpcodeEvtMeshMessageReceivedUnicast ∧ awaited g.state = some (meshMessageOpcode cmd).1 ∨
        message = .appkeyAdd ∧ cmd.opcode = serialOpcodeEvtMeshTxComplete) := by
  cases step with
  | compositionData =>
    rw [List.mem_singleton.mp member] at sent
    have starts := ConfigMessage.sentBy_meshPacket.mp sent
    cases message <;> exact absurd starts (by decide)
  | appkeyAdd event state =>
    rw [List.mem_singleton.mp member] at sent
    have starts := ConfigMessage.sentBy_meshPacket.mp sent
    cases message with
    | appkeyAdd =>
      refine ⟨state, List.mem_singleton.mp member, ?_⟩
      rw [state]
      rcases event with ⟨event, opcode⟩ | event
      · exact Or.inl ⟨event, congrArg some opcode.symm⟩
      · exact Or.inr ⟨rfl, event⟩
    | modelAppBind | modelPublicationSet => exact absurd starts (by decide)
  | modelAppBind event opcode state =>
    rw [List.mem_singleton.mp member] at sent
    have starts := ConfigMessage.sentBy_meshPacket.mp sent
    cases message with
    | modelAppBind =>
      rw [state]
      exact ⟨rfl, List.mem_singleton.mp member, Or.inl ⟨event, congrArg some opcode.symm⟩⟩
    | appkeyAdd | modelPublicationSet => exact absurd starts (by decide)
  | publicationSet event opcode state =>
    rw [List.mem_singleton.mp member] at sent
    have starts := ConfigMessage.sentBy_meshPacket.mp sent
    cases message with
    | modelPublicationSet =>
      rw [state]
      exact ⟨rfl, List.mem_singleton.mp member, Or.inl ⟨event, congrArg some opcode.symm⟩⟩
    | appkeyAdd | modelAppBind => exact absurd starts (by decide)
  | quiet setup => exact absurd sent.1 (setup_opcode_ne (setup frame member)).2.2.2
  | devkeyHandle | dstAddrHandle | abort | finish => exact absurd member List.not_mem_nil
  | subnetHandle | complete =>
    simp only [List.mem_cons, List.not_mem_nil, or_false] at member
    rcases member with rfl | rfl | rfl <;> exact absurd sent.1 (by simp [serialOpcodeCmdMeshPacketSend])
  | provision | oobUse | ecdhSecret | authData =>
    rw [List.mem_singleton.mp member] at sent
    exact absurd sent.1 (by simp [serialOpcodeCmdMeshPacketSend])

/-- An awaited status message completes its step, whatever it says. -/
theorem bleProcessDataMessageUnicast_nextStep {opcode : UInt16} (pData : Nat) (cmd : BleCmd)
    (now : awaited g.state = some opcode) :
    g.state.nextStep = some (bleProcessDataMessageUnicast opcode pData cmd g).1.state := by
  cases state : g.state <;> rw [state] at now <;> cases now <;>
    simp only [bleProcessDataMessageUnicast, if_pos state]
  all_goals rfl

theorem bleProcessDataMessageUnicast_packet {opcode : UInt16} {pData : Nat} {message : ConfigMessage}
    (state : g.state = message.state) (now : awaited g.state = some opcode) :
    (bleProcessDataMessageUnicast opcode pData cmd g).2 = [message.packet g.unprovisioner] := by
  rw [state] at now
  cases message <;> cases now <;> rw [ConfigMessage.state] at state <;>
    simp only [bleProcessDataMessageUnicast, if_pos state]
  all_goals rfl

end BleGateway
