import BleGateway.HandleCmd

namespace BleGateway

/-- Opcodes of the handler frames that belong to no provisioning session: scan stop,
subnet add, app key add and local unicast set. -/
def moduleSetup : List UInt8 := [0x62, 0x92, 0x97, 0x9f]

theorem setup_opcode_ne {opcode : UInt8} (setup : opcode ∈ moduleSetup) :
    opcode ≠ 0x63 ∧ opcode ≠ 0x9c ∧ opcode ≠ 0xa4 ∧ opcode ≠ serialOpcodeCmdMeshPacketSend := by
  simp only [moduleSetup, List.mem_cons, List.not_mem_nil, or_false] at setup
  rcases setup with rfl | rfl | rfl | rfl <;> simp [serialOpcodeCmdMeshPacketSend]

/-- Everything one call of `ble_processCommand` can do, with the event and the state it needs. -/
inductive CommandStep (uECC_shared_secret : UECCSharedSecret) (cmd : BleCmd) (g : Globals) :
    Globals → List SerialFrame → Prop
  | quiet {frames} : (∀ frame ∈ frames, frame.opcode ∈ moduleSetup) →
      CommandStep uECC_shared_secret cmd g g frames
  | subnetHandle : cmd.opcode = serialOpcodeEvtCmdRsp → cmd.cmdRsp.opcode = serialOpcodeCmdMeshSubnetAdd →
      cmd.cmdRsp.status = serialStatusSuccess → g.state = .new →
      CommandStep uECC_shared_secret cmd g { g with unprovisioner.subnetHandle := cmd.cmdRsp.handle }
        [bleAppKeyAdd { g.unprovisioner with subnetHandle := cmd.cmdRsp.handle },
          bleAppKeyAdd2 { g.unprovisioner with subnetHandle := cmd.cmdRsp.handle }]
  | devkeyHandle : cmd.opcode = serialOpcodeEvtCmdRsp → cmd.cmdRsp.opcode = serialOpcodeCmdMeshDevkeyAdd →
      cmd.cmdRsp.status = serialStatusSuccess → g.state = .devkeyAddrpubadd →
      CommandStep uECC_shared_secret cmd g { g with unprovisioner.devkeyHandle := cmd.cmdRsp.handle } []
  | dstAddrHandle : cmd.opcode = serialOpcodeEvtCmdRsp →
      cmd.cmdRsp.opcode = serialOpcodeCmdMeshAddrPublicationAdd →
      cmd.cmdRsp.status = serialStatusSuccess → g.state = .devkeyAddrpubadd →
      CommandStep uECC_shared_secret cmd g { g with unprovisioner.dstAddrHandle := cmd.cmdRsp.handle } []
  | provision : cmd.opcode = serialOpcodeEvtProvUnprovisionedReceived → g.state = .new →
      CommandStep uECC_shared_secret cmd g ({ g with devAddr := g.devAddr + 1 }.setState .provision)
        [provDataFrame cmd.provUnprovisioned.uuid (g.devAddr + 1)]
  | oobUse : cmd.opcode = serialOpcodeEvtProvCapsReceived → g.state = .provision →
      CommandStep uECC_shared_secret cmd g (g.setState .oobuse) [bleOOBuse cmd.provCapsRecv]
  | ecdhSecret : cmd.opcode = serialOpcodeEvtProvEcdhRequest → g.state = .oobuse →
      CommandStep uECC_shared_secret cmd g (g.setState .ecdh)
        [bleECDHSecret uECC_shared_secret cmd.provECDHReq]
  | authData : cmd.opcode = serialOpcodeEvtProvAuthRequest → g.state = .ecdh →
      CommandStep uECC_shared_secret cmd g (g.setState .auth) [bleAuthData cmd.provAuthReq]
  | complete : cmd.opcode = serialOpcodeEvtProvComplete → g.state = .auth →
      CommandStep uECC_shared_secret cmd g
        ({ g with unprovisioner.dstAddrHandle := cmd.provComplete.address }.setState .devkeyAddrpubadd)
        [bleScanStop,
          bleDevkeyAdd cmd.provComplete { g.unprovisioner with dstAddrHandle := cmd.provComplete.address }
            g.devAddr,
          bleAddrPublicationAdd g.devAddr]
  | compositionData : cmd.opcode = serialOpcodeEvtProvLinkClosed → g.state = .devkeyAddrpubadd →
      CommandStep uECC_shared_secret cmd g (g.setState .psComposdata)
        [blePackerSendCompositionData g.unprovisioner]
  | abort : cmd.opcode = serialOpcodeEvtProvLinkClosed → g.state ≠ .devkeyAddrpubadd →
      CommandStep uECC_shared_secret cmd g (g.setState .new) []
  | appkeyAdd : cmd.opcode = serialOpcodeEvtMeshMessageReceivedUnicast ∧
        (meshMessageOpcode cmd).1 = configOpcodeCompositionDataStatus ∨
        cmd.opcode = serialOpcodeEvtMeshTxComplete → g.state = .psComposdata →
      CommandStep uECC_shared_secret cmd g (g.setState .psAppkeyAdd) [blePackerSendAppkeyAdd g.unprovisioner]
  | modelAppBind : cmd.opcode = serialOpcodeEvtMeshMessageReceivedUnicast →
      (meshMessageOpcode cmd).1 = configOpcodeAppkeyStatus → g.state = .psAppkeyAdd →
      CommandStep uECC_shared_secret cmd g (g.setState .psModelAppBind)
        [blePacketSendModelAppBind g.unprovisioner]
  | publicationSet : cmd.opcode = serialOpcodeEvtMeshMessageReceivedUnicast →
      (meshMessageOpcode cmd).1 = configOpcodeModelAppStatus → g.state = .psModelAppBind →
      CommandStep uECC_shared_secret cmd g
        ({ g with unprovisioner.elementAddress := cmd.word ((meshMessageOpcode cmd).2 + 1) }.setState
          .psModelPublicationSet)
        [blePacketSendPublicationSet g.unprovisioner]
  | finish : cmd.opcode = serialOpcodeEvtMeshMessageReceivedUnicast →
      (meshMessageOpcode cmd).1 = configOpcodeModelPublicationStatus → g.state = .psModelPublicationSet →
      CommandStep uECC_shared_secret cmd g (g.setState .new) []

variable {uECC_shared_secret : UECCSharedSecret} {cmd : BleCmd} {g : Globals}

theorem CommandStep.idle : CommandStep uECC_shared_secret cmd g g [] := .quiet (fun _ h => nomatch h)

theorem bleProcessDataCmdRsp_step (event : cmd.opcode = serialOpcodeEvtCmdRsp) :
    CommandStep uECC_shared_secret cmd g (bleProcessDataCmdRsp cmd g).1 (bleProcessDataCmdRsp cmd g).2 := by
  unfold bleProcessDataCmdRsp
  split
  next opcode =>
    split
    next success =>
      split
      next state => exact .devkeyHandle event opcode success state
      next => exact .idle
    next => exact .idle
  next opcode =>
    split
    next success =>
      split
      next state => exact .subnetHandle event opcode success state
      next => exact .quiet (by simp [moduleSetup])
    next => exact .idle
  next opcode =>
    split
    next success =>
      split
      next state => exact .dstAddrHandle event opcode success state
      next => exact .idle
    next => exact .idle
  next opcode =>
    split
    next => exact .quiet (by simp [moduleSetup])
    next => exact .idle
  all_goals exact .idle

theorem bleProcessDataMessageUnicast_step (event : cmd.opcode = serialOpcodeEvtMeshMessageReceivedUnicast) :
    CommandStep uECC_shared_secret cmd g
      (bleProcessDataMessageUnicast (meshMessageOpcode cmd).1 (meshMessageOpcode cmd).2 cmd g).1
      (bleProcessDataMessageUnicast (meshMessageOpcode cmd).1 (meshMessageOpcode cmd).2 cmd g).2 := by
  unfold bleProcessDataMessageUnicast
  split
  next opcode =>
    split
    next state => exact .appkeyAdd (Or.inl ⟨event, opcode⟩) state
    next => exact .idle
  next opcode =>
    split
    next state => exact .modelAppBind event opcode state
    next => exact .idle
  next opcode =>
    split
    next state => exact .publicationSet event opcode state
    next => exact .idle
  next opcode =>
    split
    next state => exact .finish event opcode state
    next => exact .idle
  all_goals exact .idle

theorem bleProcessCommand_step (uECC_shared_secret : UECCSharedSecret) (cmd : BleCmd) (g : Globals) :
    CommandStep uECC_shared_secret cmd g (bleProcessCommand uECC_shared_secret cmd g).1
      (bleProcessCommand uECC_shared_secret cmd g).2 := by
  unfold bleProcessCommand
  split
  next event => exact bleProcessDataCmdRsp_step event
  next event =>
    split
    next state => exact .provision event state
    next => exact .idle
  next => exact .idle
  next event =>
    split
    next state => exact .oobUse event state
    next => exact .idle
  next event =>
    split
    next state => exact .complete event state
    next => exact .quiet (by simp [moduleSetup])
  next event =>
    split
    next state => exact .ecdhSecret event state
    next => exact .idle
  next event =>
    split
    next state => exact .authData event state
    next => exact .idle
  next event =>
    split
    next state => exact .compositionData event state
    next state => exact .abort event state
  next event => exact bleProcessDataMessageUnicast_step event
  next => exact .quiet (by simp [moduleSetup])
  next => exact .idle
  next => exact .idle
  next event =>
    split
    next state => exact .appkeyAdd (Or.inr event) state
    next => exact .idle
  all_goals exact .idle

/-- Only a beacon in state NEW makes a handler write a provision frame. -/
theorem CommandStep.of_provision_frame {globals : Globals} {frames : List SerialFrame} {frame : SerialFrame}
    (step : CommandStep uECC_shared_secret cmd g globals frames) (member : frame ∈ frames)
    (opcode : frame.opcode = 0x63) :
    cmd.opcode = serialOpcodeEvtProvUnprovisionedReceived ∧ g.state = .new ∧
      globals = { g with devAddr := g.devAddr + 1 }.setState .provision ∧
      frame = provDataFrame cmd.provUnprovisioned.uuid (g.devAddr + 1) := by
  cases step with
  | quiet setup => exact absurd opcode (setup_opcode_ne (setup frame member)).1
  | provision event state => exact ⟨event, state, rfl, List.mem_singleton.mp member⟩
  | devkeyHandle | dstAddrHandle | abort | finish => exact absurd member List.not_mem_nil
  | subnetHandle | complete =>
    simp only [List.mem_cons, List.not_mem_nil, or_false] at member
    rcases member with rfl | rfl | rfl <;> simp at opcode
  | oobUse | ecdhSecret | authData | compositionData | appkeyAdd | modelAppBind | publicationSet =>
    rw [List.mem_singleton.mp member] at opcode
    simp at opcode

theorem bleProcessCommand_beacon (uECC_shared_secret : UECCSharedSecret) (cmd : BleCmd)
    (event : cmd.opcode = serialOpcodeEvtProvUnprovisionedReceived)
    (state : g.state = .new) :
    bleProcessCommand uECC_shared_secret cmd g =
      ({ g with devAddr := g.devAddr + 1 }.setState .provision,
        [provDataFrame cmd.provUnprovisioned.uuid (g.devAddr + 1)]) := by
  unfold bleProcessCommand
  rw [event]
  exact if_pos state

theorem bleProcessCommand_beacon_of_ne (uECC_shared_secret : UECCSharedSecret) (cmd : BleCmd)
    (event : cmd.opcode = serialOpcodeEvtProvUnprovisionedReceived) (state : g.state ≠ .new) :
    bleProcessCommand uECC_shared_secret cmd g = (g, []) := by
  unfold bleProcessCommand
  rw [event]
  exact if_neg state

theorem bleProcessCommand_caps (uECC_shared_secret : UECCSharedSecret) (cmd : BleCmd)
    (event : cmd.opcode = serialOpcodeEvtProvCapsReceived) (state : g.state = .provision) :
    bleProcessCommand uECC_shared_secret cmd g = (g.setState .oobuse, [bleOOBuse cmd.provCapsRecv]) := by
  unfold bleProcessCommand
  rw [event]
  exact if_pos state

theorem bleProcessCommand_ecdh (uECC_shared_secret : UECCSharedSecret) (cmd : BleCmd)
    (event : cmd.opcode = serialOpcodeEvtProvEcdhRequest) (state : g.state = .oobuse) :
    bleProcessCommand uECC_shared_secret cmd g =
      (g.setState .ecdh, [bleECDHSecret uECC_shared_secret cmd.provECDHReq]) := by
  unfold bleProcessCommand
  rw [event]
  exact if_pos state

theorem bleProcessCommand_ecdh_of_ne (uECC_shared_secret : UECCSharedSecret) (cmd : BleCmd)
    (event : cmd.opcode = serialOpcodeEvtProvEcdhRequest) (state : g.state ≠ .oobuse) :
    bleProcessCommand uECC_shared_secret cmd g = (g, []) := by
  unfold bleProcessCommand
  rw [event]
  exact if_neg state

theorem bleProcessCommand_auth (uECC_shared_secret : UECCSharedSecret) (cmd : BleCmd)
    (event : cmd.opcode = serialOpcodeEvtProvAuthRequest) (state : g.state = .ecdh) :
    bleProcessCommand uECC_shared_secret cmd g = (g.setState .auth, [bleAuthData cmd.provAuthReq]) := by
  unfold bleProcessCommand
  rw [event]
  exact if_pos state

theorem bleProcessCommand_cmdRsp (uECC_shared_secret : UECCSharedSecret) (cmd : BleCmd)
    (event : cmd.opcode = serialOpcodeEvtCmdRsp) :
    bleProcessCommand uECC_shared_secret cmd g = bleProcessDataCmdRsp cmd g := by
  unfold bleProcessCommand
  rw [event]
  rfl

theorem bleProcessCommand_linkClosed (uECC_shared_secret : UECCSharedSecret) (cmd : BleCmd)
    (event : cmd.opcode = serialOpcodeEvtProvLinkClosed) (state : g.state = .devkeyAddrpubadd) :
    bleProcessCommand uECC_shared_secret cmd g =
      (g.setState .psComposdata, [blePackerSendCompositionData g.unprovisioner]) := by
  unfold bleProcessCommand
  rw [event]
  exact if_pos state

theorem bleProcessDataCmdRsp_devkeyAdd (opcode : cmd.cmdRsp.opcode = serialOpcodeCmdMeshDevkeyAdd)
    (success : cmd.cmdRsp.status = serialStatusSuccess) (state : g.state = .devkeyAddrpubadd) :
    bleProcessDataCmdRsp cmd g = ({ g with unprovisioner.devkeyHandle := cmd.cmdRsp.handle }, []) := by
  unfold bleProcessDataCmdRsp
  rw [opcode]
  exact (if_pos success).trans (if_pos state)

theorem bleProcessDataCmdRsp_addrPublicationAdd
    (opcode : cmd.cmdRsp.opcode = serialOpcodeCmdMeshAddrPublicationAdd)
    (success : cmd.cmdRsp.status = serialStatusSuccess) (state : g.state = .devkeyAddrpubadd) :
    bleProcessDataCmdRsp cmd g = ({ g with unprovisioner.dstAddrHandle := cmd.cmdRsp.handle }, []) := by
  unfold bleProcessDataCmdRsp
  rw [opcode]
  exact (if_pos success).trans (if_pos state)

theorem bleProcessDataCmdRsp_subnetAdd (opcode : cmd.cmdRsp.opcode = serialOpcodeCmdMeshSubnetAdd) :
    bleProcessDataCmdRsp cmd g =
      if cmd.cmdRsp.status = serialStatusSuccess then
        let g := if g.state = .new then { g with unprovisioner.subnetHandle := cmd.cmdRsp.handle } else g
        (g, [bleAppKeyAdd g.unprovisioner, bleAppKeyAdd2 g.unprovisioner])
      else (g, []) := by
  unfold bleProcessDataCmdRsp
  rw [opcode]
  rfl

theorem bleProcessDataCmdRsp_localUnicastSet
    (opcode : cmd.cmdRsp.opcode = serialOpcodeCmdMeshAddrLocalUnicastSet) :
    bleProcessDataCmdRsp cmd g =
      if cmd.cmdRsp.status = serialStatusSuccess then (g, [bleSubnetAdd]) else (g, []) := by
  unfold bleProcessDataCmdRsp
  rw [opcode]
  rfl

/-- The status message that moves a configuration on. -/
def awaited : BleUnprovisionerState → Option UInt16
  | .psComposdata => some configOpcodeCompositionDataStatus
  | .psAppkeyAdd => some configOpcodeAppkeyStatus
  | .psModelAppBind => some configOpcodeModelAppStatus
  | .psModelPublicationSet => some configOpcodeModelPublicationStatus
  | _ => none

theorem bleProcessDataMessageUnicast_of_not_awaited {opcode : UInt16} {pData : Nat}
    (other : awaited g.state ≠ some opcode) : bleProcessDataMessageUnicast opcode pData cmd g = (g, []) := by
  unfold bleProcessDataMessageUnicast
  split
  all_goals first
    | rfl
    | exact if_neg fun state => other (by rw [state]; rfl)

theorem bleProcessDataMessageUnicast_awaited {opcode : UInt16} {pData : Nat}
    (now : awaited g.state = some opcode) : (bleProcessDataMessageUnicast opcode pData cmd g).1.state ≠ g.state := by
  cases state : g.state <;> rw [state] at now <;> cases now <;>
    simp only [bleProcessDataMessageUnicast, if_pos state]
  all_goals exact fun same => by cases same

theorem bleProcessDataMessageUnicast_modelAppStatus {pData : Nat} (state : g.state = .psModelAppBind) :
    bleProcessDataMessageUnicast configOpcodeModelAppStatus pData cmd g =
      ({ g with unprovisioner.elementAddress := cmd.word (pData + 1) }.setState .psModelPublicationSet,
        [blePacketSendPublicationSet g.unprovisioner]) := by
  unfold bleProcessDataMessageUnicast
  exact if_pos state

theorem bleProcessCommand_unicast (uECC_shared_secret : UECCSharedSecret) (cmd : BleCmd)
    (event : cmd.opcode = serialOpcodeEvtMeshMessageReceivedUnicast) :
    bleProcessCommand uECC_shared_secret cmd g =
      bleProcessDataMessageUnicast (meshMessageOpcode cmd).1 (meshMessageOpcode cmd).2 cmd g := by
  unfold bleProcessCommand
  rw [event]
  rfl

theorem bleProcessCommand_txComplete (uECC_shared_secret : UECCSharedSecret) (cmd : BleCmd)
    (event : cmd.opcode = serialOpcodeEvtMeshTxComplete) (state : g.state = .psComposdata) :
    bleProcessCommand uECC_shared_secret cmd g =
      (g.setState .psAppkeyAdd, [blePackerSendAppkeyAdd g.unprovisioner]) := by
  unfold bleProcessCommand
  rw [event]
  exact if_pos state

theorem bleProcessCommand_complete (uECC_shared_secret : UECCSharedSecret) (cmd : BleCmd)
    (event : cmd.opcode = serialOpcodeEvtProvComplete) (state : g.state = .auth) :
    bleProcessCommand uECC_shared_secret cmd g =
      ({ g with unprovisioner.dstAddrHandle := cmd.provComplete.address }.setState .devkeyAddrpubadd,
        [bleScanStop,
          bleDevkeyAdd cmd.provComplete { g.unprovisioner with dstAddrHandle := cmd.provComplete.address }
            g.devAddr,
          bleAddrPublicationAdd g.devAddr]) := by
  unfold bleProcessCommand
  rw [event]
  exact if_pos state

theorem CommandStep.devAddr {globals : Globals} {frames : List SerialFrame}
    (step : CommandStep uECC_shared_secret cmd g globals frames) :
    globals.devAddr = g.devAddr ∨
      cmd.opcode = serialOpcodeEvtProvUnprovisionedReceived ∧ g.state = .new := by
  cases step with
  | provision event state => exact Or.inr ⟨event, state⟩
  | _ => exact Or.inl rfl

/-- Only PROV_COMPLETE in state AUTH makes a handler register a device. -/
theorem CommandStep.of_device_frame {globals : Globals} {frames : List SerialFrame} {frame : SerialFrame}
    (step : CommandStep uECC_shared_secret cmd g globals frames) (member : frame ∈ frames)
    (opcode : frame.opcode = 0x9c ∨ frame.opcode = 0xa4) :
    cmd.opcode = serialOpcodeEvtProvComplete ∧ g.state = .auth ∧ frame.word 0 = g.devAddr := by
  cases step with
  | complete event state =>
    simp only [List.mem_cons, List.not_mem_nil, or_false] at member
    rcases member with rfl | rfl | rfl
    · simp at opcode
    · exact ⟨event, state, bleDevkeyAdd_ownerAddr _ _ _⟩
    · exact ⟨event, state, bleAddrPublicationAdd_address _⟩
  | quiet setup =>
    obtain ⟨_, notDevkey, notPublication, _⟩ := setup_opcode_ne (setup frame member)
    exact absurd opcode (not_or.mpr ⟨notDevkey, notPublication⟩)
  | devkeyHandle | dstAddrHandle | abort | finish => exact absurd member List.not_mem_nil
  | subnetHandle =>
    simp only [List.mem_cons, List.not_mem_nil, or_false] at member
    rcases member with rfl | rfl <;> simp at opcode
  | provision | oobUse | ecdhSecret | authData | compositionData | appkeyAdd | modelAppBind | publicationSet =>
    rw [List.mem_singleton.mp member] at opcode
    simp at opcode

/-- The states in which the handlers configure a provisioned device. -/
def BleUnprovisionerState.Configuring (state : BleUnprovisionerState) : Prop :=
  state = .psComposdata ∨ state = .psAppkeyAdd ∨ state = .psModelAppBind ∨ state = .psModelPublicationSet

/-- Handlers write packets while they configure a device, or to start that when the link closes, and
with the handles stored by then. -/
theorem CommandStep.of_packet_frame {globals : Globals} {frames : List SerialFrame} {frame : SerialFrame}
    (step : CommandStep uECC_shared_secret cmd g globals frames) (member : frame ∈ frames)
    (opcode : frame.opcode = serialOpcodeCmdMeshPacketSend) :
    (g.state.Configuring ∨ cmd.opcode = serialOpcodeEvtProvLinkClosed ∧ g.state = .devkeyAddrpubadd) ∧
      frame.word 0 = g.unprovisioner.devkeyHandle ∧ frame.word 4 = g.unprovisioner.dstAddrHandle := by
  cases step with
  | compositionData event state =>
    rw [List.mem_singleton.mp member]
    exact ⟨Or.inr ⟨event, state⟩, blePacketSend_meshPacket_appkeyHandle _ _ _ _,
      blePacketSend_meshPacket_dstAddrHandle _ _ _ _⟩
  | appkeyAdd _ state | modelAppBind _ _ state | publicationSet _ _ state =>
    rw [List.mem_singleton.mp member, state]
    refine ⟨?_, blePacketSend_meshPacket_appkeyHandle _ _ _ _, blePacketSend_meshPacket_dstAddrHandle _ _ _ _⟩
    simp [BleUnprovisionerState.Configuring]
  | quiet setup => exact absurd opcode (setup_opcode_ne (setup frame member)).2.2.2
  | devkeyHandle | dstAddrHandle | abort | finish => exact absurd member List.not_mem_nil
  | subnetHandle | complete =>
    simp only [List.mem_cons, List.not_mem_nil, or_false] at member
    rcases member with rfl | rfl | rfl <;> simp [serialOpcodeCmdMeshPacketSend] at opcode
  | provision | oobUse | ecdhSecret | authData =>
    rw [List.mem_singleton.mp member] at opcode
    simp [serialOpcodeCmdMeshPacketSend] at opcode

end BleGateway
