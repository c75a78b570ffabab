import BleGateway.Serial

namespace BleGateway

/-- The globals the handlers change: `unprovisioner` and `dev_addr`. -/
structure Globals where
  unprovisioner : BleUnprovisioner
  devAddr : UInt16
deriving DecidableEq

def Globals.init : Globals where
  unprovisioner :=
    { state := .new, dstAddrHandle := 0, devkeyHandle := 0, unicast := 0, subnetHandle := 0,
      elementAddress := 0 }
  devAddr := devAddrInit

def Globals.state (g : Globals) : BleUnprovisionerState := g.unprovisioner.state

def Globals.setState (g : Globals) (state : BleUnprovisionerState) : Globals :=
  { g with unprovisioner.state := state }

@[simp] theorem Globals.setState_state (g : Globals) (state : BleUnprovisionerState) :
    (g.setState state).state = state := rfl

@[simp] theorem Globals.setState_devAddr (g : Globals) (state : BleUnprovisionerState) :
    (g.setState state).devAddr = g.devAddr := rfl

def bleProcessDataCmdRsp (cmd : BleCmd) (g : Globals) : Globals × List SerialFrame :=
  match cmd.cmdRsp.opcode with
  | serialOpcodeCmdMeshDevkeyAdd =>
    if cmd.cmdRsp.status = serialStatusSuccess then
      if g.state = .devkeyAddrpubadd then
        ({ g with unprovisioner.devkeyHandle := cmd.cmdRsp.handle }, [])
      else (g, [])
    else (g, [])
  | serialOpcodeCmdMeshSubnetAdd =>
    if cmd.cmdRsp.status = serialStatusSuccess then
      let g :=
        if g.state = .new then { g with unprovisioner.subnetHandle := cmd.cmdRsp.handle } else g
      (g, [bleAppKeyAdd g.unprovisioner, bleAppKeyAdd2 g.unprovisioner])
    else (g, [])
  | serialOpcodeCmdMeshAddrPublicationAdd =>
    if cmd.cmdRsp.status = serialStatusSuccess then
      if g.state = .devkeyAddrpubadd then
        ({ g with unprovisioner.dstAddrHandle := cmd.cmdRsp.handle }, [])
      else (g, [])
    else (g, [])
  | serialOpcodeCmdMeshAddrLocalUnicastSet =>
    if cmd.cmdRsp.status = serialStatusSuccess then (g, [bleSubnetAdd]) else (g, [])
  -- from here on the response is only printed
  | serialOpcodeCmdMeshAppkeyAdd => (g, [])
  | serialOpcodeCmdProvScanStart => (g, [])
  | serialOpcodeCmdProvScanStop => (g, [])
  | serialOpcodeCmdProvProvision => (g, [])
  | serialOpcodeCmdProvOobUse => (g, [])
  | serialOpcodeCmdProvEcdhSecret => (g, [])
  | serialOpcodeCmdMeshPacketSend => (g, [])
  | _ => (g, [])

/-- `ble_processDataMessageUnicast`; `pData` is the offset of the message
parameters in `cmd.data`. -/
def bleProcessDataMessageUnicast (opcode : UInt16) (pData : Nat) (cmd : BleCmd) (g : Globals) :
    Globals × List SerialFrame :=
  match opcode with
  | configOpcodeCompositionDataStatus =>
    if g.state = .psComposdata then
      (g.setState .psAppkeyAdd, [blePackerSendAppkeyAdd g.unprovisioner])
    else (g, [])
  | configOpcodeAppkeyStatus =>
    if g.state = .psAppkeyAdd then
      (g.setState .psModelAppBind, [blePacketSendModelAppBind g.unprovisioner])
    else (g, [])
  | configOpcodeModelAppStatus =>
    if g.state = .psModelAppBind then
      -- config_msg_app_status_t: the element address follows the status byte
      let elementAddress := cmd.word (pData + 1)
      ({ g with unprovisioner.elementAddress := elementAddress }.setState .psModelPublicationSet,
        [blePacketSendPublicationSet g.unprovisioner])
    else (g, [])
  | configOpcodeModelPublicationStatus =>
    if g.state = .psModelPublicationSet then (g.setState .new, []) else (g, [])
  | genericOnoffOpcodeStatus => (g, [])
  | configOpcodeNodeResetStatus => (g, [])
  | _ => (g, [])

/-- The access opcode of a received mesh message and the offset of its parameters. -/
def meshMessageOpcode (cmd : BleCmd) : UInt16 × Nat :=
  let data (i : Nat) := cmd.data.read (meshMessageRecData + i)
  if data 0 = 0x80 then ((data 1).toUInt16 ||| 0x8000, meshMessageRecData + 2)
  else if data 0 = 0x82 then ((data 1).toUInt16 ||| 0x8200, meshMessageRecData + 2)
  else ((data 0).toUInt16, meshMessageRecData + 1)

variable (uECC_shared_secret : UECCSharedSecret)

/-- `ble_processCommand`: the new globals and the frames it has `ble_write` send, in order. -/
def bleProcessCommand (cmd : BleCmd) (g : Globals) : Globals × List SerialFrame :=
  match cmd.opcode with
  | serialOpcodeEvtCmdRsp => bleProcessDataCmdRsp cmd g
  | serialOpcodeEvtProvUnprovisionedReceived =>
    if g.state = .new then
      let (devAddr, frame) := bleProvision cmd.provUnprovisioned g.devAddr
      ({ g with devAddr := devAddr }.setState .provision, [frame])
    else (g, [])
  | serialOpcodeEvtProvLinkEstablished => (g, [])
  | serialOpcodeEvtProvCapsReceived =>
    if g.state = .provision then (g.setState .oobuse, [bleOOBuse cmd.provCapsRecv]) else (g, [])
  | serialOpcodeEvtProvComplete =>
    if g.state = .auth then
      let g := { g with unprovisioner.dstAddrHandle := cmd.provComplete.address }
      (g.setState .devkeyAddrpubadd,
        [bleScanStop, bleDevkeyAdd cmd.provComplete g.unprovisioner g.devAddr,
          bleAddrPublicationAdd g.devAddr])
    else (g, [bleScanStop])
  | serialOpcodeEvtProvEcdhRequest =>
    if g.state = .oobuse then
      (g.setState .ecdh, [bleECDHSecret uECC_shared_secret cmd.provECDHReq])
    else (g, [])
  | serialOpcodeEvtProvAuthRequest =>
    if g.state = .ecdh then (g.setState .auth, [bleAuthData cmd.provAuthReq]) else (g, [])
  | serialOpcodeEvtProvLinkClosed =>
    if g.state = .devkeyAddrpubadd then
      (g.setState .psComposdata, [blePackerSendCompositionData g.unprovisioner])
    else (g.setState .new, [])
  | serialOpcodeEvtMeshMessageReceivedUnicast =>
    let (opcode, pData) := meshMessageOpcode cmd
    bleProcessDataMessageUnicast opcode pData cmd g
  | serialOpcodeEvtDeviceStarted => (g, [bleAddrLocalUnicastSet])
  | serialOpcodeEvtMeshIvEntrySetNotification => (g, [])
  | serialOpcodeEvtMeshSeqnumEntrySetNotification => (g, [])
  | serialOpcodeEvtMeshTxComplete =>
    if g.state = .psComposdata then
      (g.setState .psAppkeyAdd, [blePackerSendAppkeyAdd g.unprovisioner])
    else (g, [])
  | serialOpcodeEvtProvFailed => (g, [])
  | _ => (g, [])

end BleGateway
