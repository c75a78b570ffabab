import BleGateway.Responses

namespace BleGateway
open History

/-- The app keys and device keys a step adds are bound to the subnetwork that the last successful
SUBNET_ADD response returned. -/
def BindsCurrentSubnet (uECC_shared_secret : UECCSharedSecret) (o : Mealy.Observed Gateway (List Response))
    (input : Input) : Prop :=
  let next := (respondedMachine uECC_shared_secret).step o input
  ∀ frame ∈ writtenFrames next.2, frame.opcode = 0x97 ∨ frame.opcode = 0x9c →
    ∀ r, last (Response.Succeeds serialOpcodeCmdMeshSubnetAdd) next.1.note = some r → frame.word 2 = r.handle

/-- A successful SUBNET_ADD response that arrives during a session returns the handle stored already. -/
def ReturnsStored (o : Mealy.Observed Gateway (List Response)) (input : Input) : Prop :=
  ∀ r, response o.state input = some r → r.Succeeds serialOpcodeCmdMeshSubnetAdd → r.state ≠ .new →
    r.handle = storedSubnet o.note

/-- The stored handle is the one of the last successful SUBNET_ADD response. -/
structure SubnetCurrent (o : Mealy.Observed Gateway (List Response)) : Prop where
  stored : SubnetStored o
  current : ∀ r, last (Response.Succeeds serialOpcodeCmdMeshSubnetAdd) o.note = some r →
    r.handle = storedSubnet o.note

theorem subnetCurrent_init : SubnetCurrent respondedInit where
  stored := subnetStored_init
  current := fun _ found => by cases found

variable {uECC_shared_secret : UECCSharedSecret}

theorem SubnetCurrent.step {o : Mealy.Observed Gateway (List Response)} {input : Input} (current : SubnetCurrent o)
    (returns : ReturnsStored o input) : SubnetCurrent ((respondedMachine uECC_shared_secret).step o input).1 where
  stored := current.stored.step input
  current := by
    intro r isLast
    change last _ (o.note ++ (response o.state input).toList) = some r at isLast
    change r.handle = storedSubnet (o.note ++ (response o.state input).toList)
    rw [storedSubnet_append]
    cases received : response o.state input with
    | none =>
      rw [received, Option.toList_none, List.append_nil] at isLast
      exact current.current r isLast
    | some s =>
      rw [received, Option.toList_some] at isLast
      by_cases succeeds : s.Succeeds serialOpcodeCmdMeshSubnetAdd
      · rw [last_append_stop succeeds, Option.some_inj] at isLast
        subst isLast
        simp only
        split
        next => rfl
        next other => exact returns s received succeeds fun new => other ⟨succeeds, new⟩
      · have goesOn : ∀ entry ∈ [s], ¬entry.Succeeds serialOpcodeCmdMeshSubnetAdd := by simpa using succeeds
        rw [last_append_of_not goesOn] at isLast
        simp only [if_neg fun stores : s.StoresSubnet => succeeds stores.1]
        exact current.current r isLast

theorem step_subnet (uECC_shared_secret : UECCSharedSecret) (g : Gateway) (input : Input) {frame : SerialFrame}
    (member : frame ∈ writtenFrames ((gatewayMachine uECC_shared_secret).step g input).2)
    (opcode : frame.opcode = 0x97 ∨ frame.opcode = 0x9c) :
    frame.word 2 = ((gatewayMachine uECC_shared_secret).step g input).1.globals.unprovisioner.subnetHandle := by
  cases input with
  | frame f =>
    rw [gatewayMachine_writtenFrames] at member
    exact bleProcessCommand_subnet _ _ _ frame member opcode
  | key c =>
    rw [gatewayMachine_writtenFrames_key] at member
    have step := mainKey_step c g.globals
    generalize (mainKey c g.globals).1 = globals at step
    generalize (mainKey c g.globals).2 = frames at step member
    cases step with
    | scanStart =>
      rw [List.mem_singleton.mp member] at opcode
      exact absurd opcode (by simp [serialOpcodeCmdDfuJumpToBootloader])
    | send opcodes => rcases opcodes frame member with stop | packet <;> simp [*] at opcode

/-- With the last successful response stored, every key is bound to it. -/
theorem SubnetCurrent.binds {o : Mealy.Observed Gateway (List Response)} {input : Input} (current : SubnetCurrent o)
    (returns : ReturnsStored o input) : BindsCurrentSubnet uECC_shared_secret o input := by
  intro frame member opcode r isLast
  have current' : SubnetCurrent ((respondedMachine uECC_shared_secret).step o input).1 := current.step returns
  rw [step_subnet uECC_shared_secret o.state input member opcode]
  exact current'.stored.trans (current'.current r isLast).symm

/-- A SUBNET_ADD response is answered with two app keys, bound to the handle that is stored. -/
theorem BindsCurrentSubnet.returns {o : Mealy.Observed Gateway (List Response)} {input : Input}
    (stored : SubnetStored o) (binds : BindsCurrentSubnet uECC_shared_secret o input) : ReturnsStored o input := by
  intro r received succeeds running
  cases input with
  | key c => cases received
  | frame f =>
    have event : (o.state.localParser.cmd.receive f).opcode = serialOpcodeEvtCmdRsp := by
      by_contra other
      simp only [response, if_neg other] at received
      cases received
    have isLast : last (Response.Succeeds serialOpcodeCmdMeshSubnetAdd)
        ((respondedMachine uECC_shared_secret).step o (.frame f)).1.note = some r := by
      change last _ (o.note ++ (response o.state (.frame f)).toList) = some r
      rw [received, Option.toList_some, last_append_stop succeeds]
    simp only [response, if_pos event, Option.some_inj] at received
    subst received
    have processed := (bleProcessCommand_cmdRsp uECC_shared_secret _ event).trans
      (bleProcessDataCmdRsp_subnetAdd (g := o.state.globals) succeeds.1)
    rw [if_pos succeeds.2, if_neg (show o.state.globals.state ≠ .new from running)] at processed
    have member : bleAppKeyAdd o.state.globals.unprovisioner ∈
        writtenFrames ((gatewayMachine uECC_shared_secret).step o.state (.frame f)).2 := by
      rw [gatewayMachine_writtenFrames, processed]
      exact List.mem_cons_self ..
    rw [← binds _ member (Or.inl rfl) _ isLast, ← stored]
    exact appkeyAddFrame_subnetHandle _ _ _ _

/-- Over a run, keys are always bound to the subnetwork returned last exactly if every response that
arrives during a session returns the handle stored already. -/
theorem bindsCurrentSubnet_along_iff (uECC_shared_secret : UECCSharedSecret) (word : List Input) :
    (respondedMachine uECC_shared_secret).Along (BindsCurrentSubnet uECC_shared_secret) respondedInit word ↔
      (respondedMachine uECC_shared_secret).Along ReturnsStored respondedInit word := by
  constructor
  · exact Mealy.Machine.along_of_invariant (fun _ input stored _ => stored.step input)
      (fun _ _ stored binds => binds.returns stored) subnetStored_init
  · exact Mealy.Machine.along_of_invariant (fun _ _ current returns => current.step returns)
      (fun _ _ current returns => current.binds returns) subnetCurrent_init

def cmdRspHandleFrame (opcode : UInt8) (handle : UInt16) : SerialFrame where
  opcode := serialOpcodeEvtCmdRsp
  payload := [opcode, serialStatusSuccess] ++ LittleEndian.bytes16 handle
  bound := by simp [nrfMeshSerialPayloadMaxlen]

/-- The module restarts while a device is provisioned, and returns another handle. -/
def restartedModule : List Input :=
  [.frame (cmdRspHandleFrame 0x92 0x0000), .frame beaconFrame, .frame (cmdRspHandleFrame 0x92 0x0001)]

theorem restartedModule_not_bindsCurrentSubnet :
    ¬(respondedMachine echoPrivate).Along (BindsCurrentSubnet echoPrivate) respondedInit restartedModule := by
  intro binds
  have second := binds.2.2.1
  have same := second _ (List.mem_cons_self ..) (Or.inl rfl) _ rfl
  exact absurd same (by decide)

end BleGateway
