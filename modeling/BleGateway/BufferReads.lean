import BleGateway.GatewayRun
import BleGateway.MeshMessage

namespace BleGateway

/-! Where the program reads `cmd.data`: lists of offsets, function by function. -/

/-- The offsets of a field of `size` bytes at `off`. -/
def field (off size : Nat) : List Nat := List.range' off size

def printProvUnprovisioned : List Nat :=
  field 0 16 ++ field 16 1 ++ field 17 1 ++ field 18 1 ++ field 19 6

def printProvLinkEsta : List Nat := field 0 1

def printProvCapsRecv : List Nat :=
  field 0 1 ++ field 1 1 ++ field 2 1 ++ field 3 1 ++ field 4 1 ++ field 5 2 ++ field 7 1 ++ field 8 2

def printProvECDHReq : List Nat := field 0 1 ++ field 1 64 ++ field 65 32

def printProvAuthReq : List Nat := field 0 1 ++ field 1 1 ++ field 2 1 ++ field 3 1

def printProvComplete : List Nat :=
  field 0 1 ++ field 1 4 ++ field 5 2 ++ field 7 2 ++ field 9 1 ++ field 10 1 ++ field 11 16 ++ field 27 16

def printLinkClose : List Nat := field 0 1 ++ field 1 1

/-- `print_CmdRsp`: the loop runs to `sizeof(size_data)`, the size of an `int`. -/
def printCmdRsp : List Nat := field 0 1 ++ field 1 1 ++ field 2 4

def printMeshMessageRec (sizeData : Int) : List Nat :=
  field 0 2 ++ field 2 2 ++ field 4 2 ++ field 6 2 ++ field 8 1 ++ field 9 1 ++ field 10 6 ++ field 16 1 ++
    field 17 2 ++ field meshMessageRecData sizeData.toNat

def printDeviceStarted : List Nat := field 0 1 ++ field 1 1 ++ field 2 1

def printMeshIvEntrySetNoti : List Nat := field 0 4 ++ field 4 1 ++ field 5 2

def printMeshSeqnumEntrySetNoti : List Nat := field 0 4

def printMeshTXComplete : List Nat := field 0 4

def printProvFailed : List Nat := field 0 1 ++ field 1 1

/-- `config_msg_composition_data_status_t` at `pData`: the count of models. -/
def BleCmd.modelCount (cmd : BleCmd) (pData : Nat) : Nat := (cmd.data.read (pData + 13)).toNat

def printMsgCompositionDataStatus (pData : Nat) (cmd : BleCmd) : List Nat :=
  field pData 1 ++ field (pData + 1) 2 ++ field (pData + 3) 2 ++ field (pData + 5) 2 ++ field (pData + 7) 2 ++
    field (pData + 9) 2 ++ field (pData + 11) 2 ++ field (pData + 13) 1 ++ field (pData + 14) 1 ++
    (List.range (cmd.modelCount pData)).flatMap fun i => field (pData + 15 + 2 * i) 2

def printMsgAppkeyStatus (pData : Nat) : List Nat :=
  field pData 1 ++ field (pData + 1) 1 ++ field (pData + 2) 1 ++ field (pData + 3) 1

def printMsgAppStatus (pData : Nat) : List Nat :=
  field pData 1 ++ field (pData + 1) 2 ++ field (pData + 3) 2 ++ field (pData + 5) 2

def printMsgPublicationStatus (pData : Nat) : List Nat :=
  field pData 1 ++ field (pData + 1) 2 ++ field (pData + 3) 2 ++ field (pData + 5) 2 ++ field (pData + 7) 1 ++
    field (pData + 8) 1 ++ field (pData + 9) 1 ++ field (pData + 10) 2

/-- Reads of a branch that looks at the status first. -/
def successReads (cmd : BleCmd) (reads : List Nat) : List Nat :=
  field 1 1 ++ if cmd.cmdRsp.status = serialStatusSuccess then reads else []

/-- Reads of a branch that keeps the returned handle in one state. -/
def handleReads (cmd : BleCmd) (state kept : BleUnprovisionerState) : List Nat :=
  successReads cmd (printCmdRsp ++ if state = kept then field 2 2 else [])

def bleProcessDataCmdRspReads (cmd : BleCmd) (state : BleUnprovisionerState) : List Nat :=
  field 0 1 ++
    match cmd.cmdRsp.opcode with
    | serialOpcodeCmdMeshDevkeyAdd => handleReads cmd state .devkeyAddrpubadd
    | serialOpcodeCmdMeshSubnetAdd => handleReads cmd state .new
    | serialOpcodeCmdMeshAddrPublicationAdd => handleReads cmd state .devkeyAddrpubadd
    | serialOpcodeCmdMeshAddrLocalUnicastSet => successReads cmd printCmdRsp
    | serialOpcodeCmdMeshAppkeyAdd => successReads cmd printCmdRsp
    | serialOpcodeCmdProvScanStart => successReads cmd printCmdRsp
    | serialOpcodeCmdProvScanStop => successReads cmd printCmdRsp
    | serialOpcodeCmdProvProvision => successReads cmd printCmdRsp
    | serialOpcodeCmdProvOobUse => successReads cmd printCmdRsp
    | serialOpcodeCmdProvEcdhSecret => successReads cmd printCmdRsp
    | serialOpcodeCmdMeshPacketSend => successReads cmd printCmdRsp
    | _ => field 0 1

def bleProcessDataMessageUnicastReads (opcode : UInt16) (pData : Nat) (cmd : BleCmd)
    (state : BleUnprovisionerState) : List Nat :=
  match opcode with
  | configOpcodeCompositionDataStatus => printMsgCompositionDataStatus pData cmd
  | configOpcodeAppkeyStatus => printMsgAppkeyStatus pData
  | configOpcodeModelAppStatus =>
    printMsgAppStatus pData ++ if state = .psModelAppBind then field (pData + 1) 2 else []
  | configOpcodeModelPublicationStatus => printMsgPublicationStatus pData
  | genericOnoffOpcodeStatus => field pData 1
  | configOpcodeNodeResetStatus => []
  | _ => []

/-- The first byte of the access opcode, and the second where there is one. -/
def meshMessageOpcodeReads (cmd : BleCmd) : List Nat :=
  field meshMessageRecData 1 ++
    if cmd.data.read meshMessageRecData = 0x80 ∨ cmd.data.read meshMessageRecData = 0x82 then
      field (meshMessageRecData + 1) 1
    else []

def bleProvisionReads : List Nat := field 0 16

def bleOOBuseReads : List Nat := field 0 1 ++ field 8 1 ++ field 7 1

/-- `ble_ECDHSecret`; `uECC_shared_secret` reads both keys. -/
def bleECDHSecretReads : List Nat := field 0 1 ++ field 1 64 ++ field 65 32

def bleAuthDataReads : List Nat := field 0 1

def bleDevkeyAddReads : List Nat := field 11 16

def serialPacketOverhead : Int := 19

/-- The offsets that `ble_processCommand` and what it calls read, relative to `cmd.data`. -/
def bleProcessCommandReads (cmd : BleCmd) (state : BleUnprovisionerState) : List Nat :=
  match cmd.opcode with
  | serialOpcodeEvtCmdRsp => bleProcessDataCmdRspReads cmd state
  | serialOpcodeEvtProvUnprovisionedReceived =>
    printProvUnprovisioned ++ if state = .new then bleProvisionReads else []
  | serialOpcodeEvtProvLinkEstablished => if state = .provision then printProvLinkEsta else []
  | serialOpcodeEvtProvCapsReceived =>
    printProvCapsRecv ++ if state = .provision then bleOOBuseReads else []
  | serialOpcodeEvtProvComplete =>
    printProvComplete ++ if state = .auth then field 7 2 ++ bleDevkeyAddReads else []
  | serialOpcodeEvtProvEcdhRequest =>
    printProvECDHReq ++ if state = .oobuse then bleECDHSecretReads else []
  | serialOpcodeEvtProvAuthRequest => printProvAuthReq ++ if state = .ecdh then bleAuthDataReads else []
  | serialOpcodeEvtProvLinkClosed => printLinkClose
  | serialOpcodeEvtMeshMessageReceivedUnicast =>
    let (opcode, pData) := meshMessageOpcode cmd
    printMeshMessageRec (cmd.len - serialPacketOverhead) ++ meshMessageOpcodeReads cmd ++
      bleProcessDataMessageUnicastReads opcode pData cmd state
  | serialOpcodeEvtDeviceStarted => printDeviceStarted
  | serialOpcodeEvtMeshIvEntrySetNotification => printMeshIvEntrySetNoti
  | serialOpcodeEvtMeshSeqnumEntrySetNotification => printMeshSeqnumEntrySetNoti
  | serialOpcodeEvtMeshTxComplete => printMeshTXComplete
  | serialOpcodeEvtProvFailed => printProvFailed
  | _ => []

def Inside (reads : List Nat) : Prop := ∀ off ∈ reads, off < 256

@[simp] theorem inside_nil : Inside [] := fun _ member => absurd member List.not_mem_nil

@[simp] theorem inside_append {first second : List Nat} :
    Inside (first ++ second) ↔ Inside first ∧ Inside second := List.forall_mem_append

@[simp] theorem inside_field {off size : Nat} : Inside (field off size) ↔ size = 0 ∨ off + size ≤ 256 := by
  simp only [Inside, field, List.mem_range'_1]
  constructor
  · intro inside
    by_cases empty : size = 0
    · exact Or.inl empty
    · have last := inside (off + size - 1) (by omega)
      omega
  · rintro (empty | fits) i ⟨low, high⟩
    · omega
    · omega

theorem inside_models {start count : Nat} :
    Inside ((List.range count).flatMap fun i => field (start + 2 * i) 2) ↔
      ∀ i, i < count → 2 = 0 ∨ start + 2 * i + 2 ≤ 256 := by
  simp only [← inside_field, Inside, List.mem_flatMap, List.mem_range]
  constructor
  · intro inside i counted off member
    exact inside off ⟨i, counted, member⟩
  · rintro inside off ⟨i, counted, member⟩
    exact inside i counted off member

theorem inside_ite {condition : Prop} [Decidable condition] {first second : List Nat} (holds : Inside first)
    (fails : Inside second) : Inside (if condition then first else second) := by
  split
  · exact holds
  · exact fails

theorem successReads_inside {cmd : BleCmd} {reads : List Nat} (inside : Inside reads) :
    Inside (successReads cmd reads) := by
  rw [successReads, inside_append]
  exact ⟨by simp, inside_ite inside inside_nil⟩

theorem printCmdRsp_inside : Inside printCmdRsp := by simp [printCmdRsp]

theorem handleReads_inside {cmd : BleCmd} {state kept : BleUnprovisionerState} :
    Inside (handleReads cmd state kept) := by
  apply successReads_inside
  rw [inside_append]
  exact ⟨printCmdRsp_inside, inside_ite (by simp) inside_nil⟩

theorem bleProcessDataCmdRspReads_inside (cmd : BleCmd) (state : BleUnprovisionerState) :
    Inside (bleProcessDataCmdRspReads cmd state) := by
  rw [bleProcessDataCmdRspReads, inside_append]
  refine ⟨by simp, ?_⟩
  split
  next => exact handleReads_inside
  next => exact handleReads_inside
  next => exact handleReads_inside
  case h_12 => simp
  all_goals exact successReads_inside printCmdRsp_inside

/-- The model identifiers printed reach as far as the count in the message says. -/
theorem printMsgCompositionDataStatus_inside {pData : Nat} (low : pData ≤ 21) (cmd : BleCmd) :
    Inside (printMsgCompositionDataStatus pData cmd) ↔ pData + 15 + 2 * cmd.modelCount pData ≤ 256 := by
  simp only [printMsgCompositionDataStatus, inside_append, inside_field, inside_models]
  constructor
  · rintro ⟨_, models⟩
    by_cases none : cmd.modelCount pData = 0
    · omega
    · have last := models (cmd.modelCount pData - 1) (by omega)
      omega
  · intro fits
    refine ⟨by omega, ?_⟩
    intro i counted
    omega

theorem bleProcessDataMessageUnicastReads_inside {opcode : UInt16} {pData : Nat} (low : pData ≤ 21) (cmd : BleCmd)
    (state : BleUnprovisionerState) (other : opcode ≠ configOpcodeCompositionDataStatus) :
    Inside (bleProcessDataMessageUnicastReads opcode pData cmd state) := by
  unfold bleProcessDataMessageUnicastReads
  split
  next => exact absurd rfl other
  next => simp [printMsgAppkeyStatus]; omega
  next =>
    rw [inside_append]
    exact ⟨by simp [printMsgAppStatus]; omega, inside_ite (by simp; omega) inside_nil⟩
  next => simp [printMsgPublicationStatus]; omega
  next => simp; omega
  all_goals exact inside_nil

/-- A message is printed as far as the frame goes. -/
theorem meshMessageReads_inside {cmd : BleCmd} (len : cmd.len ≤ 254) :
    Inside (printMeshMessageRec (cmd.len - serialPacketOverhead) ++ meshMessageOpcodeReads cmd) := by
  rw [inside_append]
  constructor
  · simp [printMeshMessageRec, meshMessageRecData, serialPacketOverhead]
    omega
  · rw [meshMessageOpcodeReads, inside_append]
    exact ⟨by simp [meshMessageRecData], inside_ite (by simp [meshMessageRecData]) inside_nil⟩

theorem bleProcessCommandReads_inside {cmd : BleCmd} (state : BleUnprovisionerState)
    (other : cmd.opcode ≠ serialOpcodeEvtMeshMessageReceivedUnicast) : Inside (bleProcessCommandReads cmd state) := by
  unfold bleProcessCommandReads
  split
  next => exact bleProcessDataCmdRspReads_inside cmd state
  next =>
    exact inside_append.mpr ⟨by simp [printProvUnprovisioned], inside_ite (by simp [bleProvisionReads]) inside_nil⟩
  next => exact inside_ite (by simp [printProvLinkEsta]) inside_nil
  next => exact inside_append.mpr ⟨by simp [printProvCapsRecv], inside_ite (by simp [bleOOBuseReads]) inside_nil⟩
  next => exact inside_append.mpr ⟨by simp [printProvComplete], inside_ite (by simp [bleDevkeyAddReads]) inside_nil⟩
  next => exact inside_append.mpr ⟨by simp [printProvECDHReq], inside_ite (by simp [bleECDHSecretReads]) inside_nil⟩
  next => exact inside_append.mpr ⟨by simp [printProvAuthReq], inside_ite (by simp [bleAuthDataReads]) inside_nil⟩
  next => simp [printLinkClose]
  next event => exact absurd event other
  next => simp [printDeviceStarted]
  next => simp [printMeshIvEntrySetNoti]
  next => simp [printMeshSeqnumEntrySetNoti]
  next => simp [printMeshTXComplete]
  next => simp [printProvFailed]
  next => exact inside_nil

/-- Whatever frame comes in, its handling reads inside `cmd.data`, unless it is a Composition
Data Status message that counts more than 110 models. -/
theorem bleProcessCommandReads_inside_iff {cmd : BleCmd} (len : 0 ≤ cmd.len ∧ cmd.len ≤ 254)
    (state : BleUnprovisionerState) :
    (∀ off ∈ bleProcessCommandReads cmd state, off < 256) ↔
      ¬(cmd.opcode = serialOpcodeEvtMeshMessageReceivedUnicast ∧ cmd.data.read 19 = 0x02 ∧
        110 < cmd.modelCount 20) := by
  by_cases event : cmd.opcode = serialOpcodeEvtMeshMessageReceivedUnicast
  · have composition : (meshMessageOpcode cmd).1 = configOpcodeCompositionDataStatus ↔ cmd.data.read 19 = 0x02 :=
      meshMessageOpcode_short_iff 0x02 rfl (by decide)
    have reads : bleProcessCommandReads cmd state =
        printMeshMessageRec (cmd.len - serialPacketOverhead) ++ meshMessageOpcodeReads cmd ++
          bleProcessDataMessageUnicastReads (meshMessageOpcode cmd).1 (meshMessageOpcode cmd).2 cmd state := by
      simp only [bleProcessCommandReads, event]
      rfl
    change Inside (bleProcessCommandReads cmd state) ↔ _
    rw [reads, inside_append, and_iff_right (meshMessageReads_inside len.2), and_iff_right event]
    by_cases first : cmd.data.read 19 = 0x02
    · have offset : (meshMessageOpcode cmd).2 = 20 := meshMessageOpcode_offset_short (by simp [first])
      have message := printMsgCompositionDataStatus_inside (show 20 ≤ 21 by omega) cmd
      rw [composition.mpr first, offset, and_iff_right first]
      exact message.trans (by omega)
    · have other : (meshMessageOpcode cmd).1 ≠ configOpcodeCompositionDataStatus :=
        fun same => first (composition.mp same)
      exact iff_of_true (bleProcessDataMessageUnicastReads_inside (meshMessageOpcode_offset_le cmd) cmd state other)
        fun counted => first counted.1
  · exact iff_of_true (bleProcessCommandReads_inside state event) fun counted => event counted.1

/-- 111 models at two bytes each end right behind `cmd.data`. -/
def manyModels : SerialFrame := unicastFrame 0x001b ([0x02] ++ List.replicate 13 0 ++ [111, 0]) (by decide)

theorem manyModels_not_inside :
    ¬∀ off ∈ bleProcessCommandReads (bleCliInit.cmd.receive manyModels) .new, off < 256 := by
  intro inside
  exact absurd (inside 256 (by decide +kernel)) (by omega)

theorem bleProcessCommandReads_inside_iff_manyModels :
    (∀ off ∈ bleProcessCommandReads (bleCliInit.cmd.receive manyModels) .new, off < 256) ↔
      ¬((bleCliInit.cmd.receive manyModels).opcode = serialOpcodeEvtMeshMessageReceivedUnicast ∧
        (bleCliInit.cmd.receive manyModels).data.read 19 = 0x02 ∧
        110 < (bleCliInit.cmd.receive manyModels).modelCount 20) :=
  bleProcessCommandReads_inside_iff ⟨by decide, by decide⟩ .new

end BleGateway
