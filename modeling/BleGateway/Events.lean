import BleGateway.Parser

namespace BleGateway
open LittleEndian

/-! Opcodes of the events and of the commands the program distinguishes. -/

@[match_pattern] abbrev serialOpcodeEvtDeviceStarted : UInt8 := 0x81
@[match_pattern] abbrev serialOpcodeEvtCmdRsp : UInt8 := 0x84
@[match_pattern] abbrev serialOpcodeEvtProvUnprovisionedReceived : UInt8 := 0xC0
@[match_pattern] abbrev serialOpcodeEvtProvLinkEstablished : UInt8 := 0xC1
@[match_pattern] abbrev serialOpcodeEvtProvLinkClosed : UInt8 := 0xC2
@[match_pattern] abbrev serialOpcodeEvtProvCapsReceived : UInt8 := 0xC3
@[match_pattern] abbrev serialOpcodeEvtProvComplete : UInt8 := 0xC5
@[match_pattern] abbrev serialOpcodeEvtProvAuthRequest : UInt8 := 0xC6
@[match_pattern] abbrev serialOpcodeEvtProvEcdhRequest : UInt8 := 0xC7
@[match_pattern] abbrev serialOpcodeEvtProvFailed : UInt8 := 0xC9
@[match_pattern] abbrev serialOpcodeEvtMeshMessageReceivedUnicast : UInt8 := 0xD0
@[match_pattern] abbrev serialOpcodeEvtMeshTxComplete : UInt8 := 0xD2
@[match_pattern] abbrev serialOpcodeEvtMeshIvEntrySetNotification : UInt8 := 0xD9
@[match_pattern] abbrev serialOpcodeEvtMeshSeqnumEntrySetNotification : UInt8 := 0xDA

@[match_pattern] abbrev serialOpcodeCmdDeviceRadioReset : UInt8 := 0x0E
@[match_pattern] abbrev serialOpcodeCmdProvScanStart : UInt8 := 0x61
@[match_pattern] abbrev serialOpcodeCmdProvScanStop : UInt8 := 0x62
@[match_pattern] abbrev serialOpcodeCmdProvProvision : UInt8 := 0x63
@[match_pattern] abbrev serialOpcodeCmdProvOobUse : UInt8 := 0x66
@[match_pattern] abbrev serialOpcodeCmdProvEcdhSecret : UInt8 := 0x68
@[match_pattern] abbrev serialOpcodeCmdMeshSubnetAdd : UInt8 := 0x92
@[match_pattern] abbrev serialOpcodeCmdMeshAppkeyAdd : UInt8 := 0x97
@[match_pattern] abbrev serialOpcodeCmdMeshDevkeyAdd : UInt8 := 0x9C
@[match_pattern] abbrev serialOpcodeCmdMeshAddrLocalUnicastSet : UInt8 := 0x9F
@[match_pattern] abbrev serialOpcodeCmdMeshAddrPublicationAdd : UInt8 := 0xA4
@[match_pattern] abbrev serialOpcodeCmdMeshPacketSend : UInt8 := 0xAB
@[match_pattern] abbrev serialOpcodeCmdDfuJumpToBootloader : UInt8 := 0xD0

@[match_pattern] abbrev configOpcodeCompositionDataStatus : UInt16 := 0x02
@[match_pattern] abbrev configOpcodeAppkeyStatus : UInt16 := 0x8003
@[match_pattern] abbrev configOpcodeModelPublicationStatus : UInt16 := 0x8019
@[match_pattern] abbrev configOpcodeModelAppStatus : UInt16 := 0x803E
@[match_pattern] abbrev configOpcodeNodeResetStatus : UInt16 := 0x804A
@[match_pattern] abbrev genericOnoffOpcodeStatus : UInt16 := 0x8204

abbrev serialStatusSuccess : UInt8 := 0x00

/-! The event structures the program lays over `cmd.data`, with the fields its handlers use. -/

/-- `ble_CmdRsp_t`; `handle` is `*(uint16_t *)data`. -/
structure BleCmdRsp where
  opcode : UInt8
  status : UInt8
  handle : UInt16

structure BleProvUnprovisionedRecv where
  uuid : Buffer 16

/-- `ble_ProvCapsRecv_t`; `inOOBAct` is the first byte of the array. -/
structure BleProvCapsRecv where
  contextID : UInt8
  numElement : UInt8
  inOOBSize : UInt8
  inOOBAct : UInt8

structure BleProvECDHReq where
  contextID : UInt8
  peerPublic : Buffer 64
  nodePrivate : Buffer 32

structure BleProvAuthReq where
  contextID : UInt8

/-- `ble_ProvComplete_t`; `address` is `*(uint16_t *)address`. -/
structure BleProvComplete where
  address : UInt16
  devkey : Buffer 16

/-- The 16-bit little-endian value at an offset of `cmd.data`. -/
def BleCmd.word (cmd : BleCmd) (off : Nat) : UInt16 :=
  word16 (cmd.data.read off) (cmd.data.read (off + 1))

def BleCmd.cmdRsp (cmd : BleCmd) : BleCmdRsp where
  opcode := cmd.data.read 0
  status := cmd.data.read 1
  handle := cmd.word 2

def BleCmd.provUnprovisioned (cmd : BleCmd) : BleProvUnprovisionedRecv where
  uuid := cmd.data.slice 0 16

def BleCmd.provCapsRecv (cmd : BleCmd) : BleProvCapsRecv where
  contextID := cmd.data.read 0
  numElement := cmd.data.read 1
  inOOBSize := cmd.data.read 7
  inOOBAct := cmd.data.read 8

def BleCmd.provECDHReq (cmd : BleCmd) : BleProvECDHReq where
  contextID := cmd.data.read 0
  peerPublic := cmd.data.slice 1 64
  nodePrivate := cmd.data.slice 65 32

def BleCmd.provAuthReq (cmd : BleCmd) : BleProvAuthReq where
  contextID := cmd.data.read 0

def BleCmd.provComplete (cmd : BleCmd) : BleProvComplete where
  address := cmd.word 7
  devkey := cmd.data.slice 11 16

/-- Offset of `data` in `serial_evt_mesh_message_received_t`. -/
def meshMessageRecData : Nat := 19

end BleGateway
