import BleGateway.GatewayRun
import BleGateway.Lib.History

namespace BleGateway
open History

/-- A command response as the program reads it, and the state in which it arrives. -/
structure Response extends BleCmdRsp where
  state : BleUnprovisionerState

def response (g : Gateway) : Input → Option Response
  | .frame f =>
    let cmd := g.localParser.cmd.receive f
    if cmd.opcode = serialOpcodeEvtCmdRsp then some { cmd.cmdRsp with state := g.globals.state } else none
  | .key _ => none

abbrev Response.Succeeds (opcode : UInt8) (r : Response) : Prop :=
  r.opcode = opcode ∧ r.status = serialStatusSuccess

/-- The responses whose handle is kept as the handle of the subnetwork. -/
abbrev Response.StoresSubnet (r : Response) : Prop := r.Succeeds serialOpcodeCmdMeshSubnetAdd ∧ r.state = .new

/-- The program with the command responses it has received. -/
def respondedMachine (uECC_shared_secret : UECCSharedSecret) :
    Mealy.Machine (Mealy.Observed Gateway (List Response)) Input Write :=
  (gatewayMachine uECC_shared_secret).observe fun responses g input _ => responses ++ (response g input).toList

def respondedInit : Mealy.Observed Gateway (List Response) where
  state := .init
  note := []

theorem respondedMachine_run (uECC_shared_secret : UECCSharedSecret) (word : List Input) :
    ((respondedMachine uECC_shared_secret).final respondedInit word).state =
        (gatewayMachine uECC_shared_secret).final .init word ∧
      (respondedMachine uECC_shared_secret).outputs respondedInit word =
        (gatewayMachine uECC_shared_secret).outputs .init word :=
  Mealy.Machine.observe_run respondedInit word

/-- The subnetwork handle after some responses: the one of the last response that stores it. -/
def storedSubnet (responses : List Response) : UInt16 :=
  ((last Response.StoresSubnet responses).map (·.handle)).getD 0

theorem storedSubnet_append (responses : List Response) (r : Option Response) :
    storedSubnet (responses ++ r.toList) =
      match r with
      | some r => if r.StoresSubnet then r.handle else storedSubnet responses
      | none => storedSubnet responses := by
  cases r with
  | none => rw [Option.toList_none, List.append_nil]
  | some r =>
    by_cases stores : r.StoresSubnet
    · simp only [storedSubnet, Option.toList_some, last_append_stop stores, if_pos stores]
      rfl
    · have goesOn : ∀ entry ∈ [r], ¬entry.StoresSubnet := by simpa using stores
      simp only [storedSubnet, Option.toList_some, last_append_of_not goesOn, if_neg stores]

variable {uECC_shared_secret : UECCSharedSecret} {cmd : BleCmd} {g globals : Globals} {frames : List SerialFrame}

theorem CommandStep.of_subnetHandle (step : CommandStep uECC_shared_secret cmd g globals frames)
    (other : ¬(cmd.opcode = serialOpcodeEvtCmdRsp ∧ cmd.cmdRsp.opcode = serialOpcodeCmdMeshSubnetAdd ∧
      cmd.cmdRsp.status = serialStatusSuccess ∧ g.state = .new)) :
    globals.unprovisioner.subnetHandle = g.unprovisioner.subnetHandle := by
  cases step with
  | subnetHandle event opcode success state => exact absurd ⟨event, opcode, success, state⟩ other
  | _ => rfl

/-- The app keys and device keys of a handler are added under the stored subnetwork handle. -/
def AddsUnderStored (result : Globals × List SerialFrame) : Prop :=
  ∀ frame ∈ result.2, frame.opcode = 0x97 ∨ frame.opcode = 0x9c →
    frame.word 2 = result.1.unprovisioner.subnetHandle

theorem addsUnderStored_nil : AddsUnderStored (globals, []) := fun _ member => absurd member List.not_mem_nil

theorem addsUnderStored_other {frame : SerialFrame} (other : ¬(frame.opcode = 0x97 ∨ frame.opcode = 0x9c)) :
    AddsUnderStored (globals, [frame]) := by
  intro frame member opcode
  rw [List.mem_singleton.mp member] at opcode
  exact absurd opcode other

theorem addsUnderStored_appkeys :
    AddsUnderStored (globals, [bleAppKeyAdd globals.unprovisioner, bleAppKeyAdd2 globals.unprovisioner]) := by
  intro frame member _
  rcases List.mem_pair.mp member with rfl | rfl <;> exact appkeyAddFrame_subnetHandle _ _ _ _

theorem addsUnderStored_ite {condition : Prop} [Decidable condition] {first second : Globals × List SerialFrame}
    (holds : AddsUnderStored first) (fails : AddsUnderStored second) :
    AddsUnderStored (if condition then first else second) := by
  split
  · exact holds
  · exact fails

theorem bleProcessDataCmdRsp_subnet : AddsUnderStored (bleProcessDataCmdRsp cmd g) := by
  unfold bleProcessDataCmdRsp
  split
  next => exact addsUnderStored_ite (addsUnderStored_ite addsUnderStored_nil addsUnderStored_nil) addsUnderStored_nil
  next => exact addsUnderStored_ite addsUnderStored_appkeys addsUnderStored_nil
  next => exact addsUnderStored_ite (addsUnderStored_ite addsUnderStored_nil addsUnderStored_nil) addsUnderStored_nil
  next => exact addsUnderStored_ite (addsUnderStored_other (by simp)) addsUnderStored_nil
  all_goals exact addsUnderStored_nil

theorem addsUnderStored_complete (provComplete : BleProvComplete) :
    AddsUnderStored (globals, [bleScanStop, bleDevkeyAdd provComplete globals.unprovisioner globals.devAddr,
      bleAddrPublicationAdd globals.devAddr]) := by
  intro frame member opcode
  simp only [List.mem_cons, List.not_mem_nil, or_false] at member
  rcases member with rfl | rfl | rfl
  · simp at opcode
  · exact bleDevkeyAdd_subnetHandle _ _ _
  · simp at opcode

/-- A message handler adds no keys. -/
theorem bleProcessDataMessageUnicast_subnet {opcode : UInt16} {pData : Nat} :
    AddsUnderStored (bleProcessDataMessageUnicast opcode pData cmd g) := by
  unfold bleProcessDataMessageUnicast
  split
  next => exact addsUnderStored_ite (addsUnderStored_other (by simp)) addsUnderStored_nil
  next => exact addsUnderStored_ite (addsUnderStored_other (by simp)) addsUnderStored_nil
  next => exact addsUnderStored_ite (addsUnderStored_other (by simp)) addsUnderStored_nil
  next => exact addsUnderStored_ite addsUnderStored_nil addsUnderStored_nil
  all_goals exact addsUnderStored_nil

theorem bleProcessCommand_subnet (uECC_shared_secret : UECCSharedSecret) (cmd : BleCmd) (g : Globals) :
    AddsUnderStored (bleProcessCommand uECC_shared_secret cmd g) := by
  unfold bleProcessCommand
  split
  next => exact bleProcessDataCmdRsp_subnet
  next => exact addsUnderStored_ite (addsUnderStored_other (by simp)) addsUnderStored_nil
  next => exact addsUnderStored_nil
  next => exact addsUnderStored_ite (addsUnderStored_other (by simp)) addsUnderStored_nil
  next => exact addsUnderStored_ite (addsUnderStored_complete _) (addsUnderStored_other (by simp))
  next => exact addsUnderStored_ite (addsUnderStored_other (by simp)) addsUnderStored_nil
  next => exact addsUnderStored_ite (addsUnderStored_other (by simp)) addsUnderStored_nil
  next => exact addsUnderStored_ite (addsUnderStored_other (by simp)) addsUnderStored_nil
  next => exact bleProcessDataMessageUnicast_subnet
  next => exact addsUnderStored_other (by simp)
  next => exact addsUnderStored_nil
  next => exact addsUnderStored_nil
  next => exact addsUnderStored_ite (addsUnderStored_other (by simp)) addsUnderStored_nil
  all_goals exact addsUnderStored_nil

theorem step_subnetHandle (uECC_shared_secret : UECCSharedSecret) (g : Gateway) (input : Input) :
    ((gatewayMachine uECC_shared_secret).step g input).1.globals.unprovisioner.subnetHandle =
      match response g input with
      | some r => if r.StoresSubnet then r.handle else g.globals.unprovisioner.subnetHandle
      | none => g.globals.unprovisioner.subnetHandle := by
  cases input with
  | key c =>
    have step := mainKey_step c g.globals
    simp only [gatewayMachine, response]
    generalize (mainKey c g.globals).1 = globals at step ⊢
    generalize (mainKey c g.globals).2 = frames at step
    cases step <;> rfl
  | frame f =>
    have step := bleProcessCommand_step uECC_shared_secret (g.localParser.cmd.receive f) g.globals
    have processed : ((gatewayMachine uECC_shared_secret).step g (.frame f)).1.globals =
        (bleProcessCommand uECC_shared_secret (g.localParser.cmd.receive f) g.globals).1 := rfl
    rw [processed]
    simp only [response]
    by_cases event : (g.localParser.cmd.receive f).opcode = serialOpcodeEvtCmdRsp
    · simp only [if_pos event]
      split
      next stores =>
        obtain ⟨⟨opcode, success⟩, state⟩ := stores
        rw [bleProcessCommand_cmdRsp _ _ event, bleProcessDataCmdRsp_subnetAdd opcode, if_pos success]
        simp only [if_pos (show g.globals.state = .new from state)]
      next other =>
        exact step.of_subnetHandle fun stores => other ⟨⟨stores.2.1, stores.2.2.1⟩, stores.2.2.2⟩
    · rw [if_neg event]
      exact step.of_subnetHandle fun stores => event stores.1

/-- The handle the program keeps is the one the responses so far say. -/
def SubnetStored (o : Mealy.Observed Gateway (List Response)) : Prop :=
  o.state.globals.unprovisioner.subnetHandle = storedSubnet o.note

theorem SubnetStored.step {o : Mealy.Observed Gateway (List Response)} (stored : SubnetStored o) (input : Input) :
    SubnetStored ((respondedMachine uECC_shared_secret).step o input).1 := by
  have next := step_subnetHandle uECC_shared_secret o.state input
  simp only [SubnetStored, respondedMachine, Mealy.Machine.observe, storedSubnet_append] at stored ⊢
  rw [next, stored]

theorem subnetStored_init : SubnetStored respondedInit := rfl

end BleGateway
