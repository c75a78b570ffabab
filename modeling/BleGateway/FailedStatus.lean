import BleGateway.ConfigurationStep

namespace BleGateway

/-- An AppKey, Model App or Publication Status message with a status other than success. -/
def IsFailedStatus (cmd : BleCmd) : Prop :=
  cmd.opcode = serialOpcodeEvtMeshMessageReceivedUnicast ∧
    (meshMessageOpcode cmd).1 ∈
      [configOpcodeAppkeyStatus, configOpcodeModelAppStatus, configOpcodeModelPublicationStatus] ∧
    cmd.data.read (meshMessageOpcode cmd).2 ≠ 0

variable (uECC_shared_secret : UECCSharedSecret)

/-- A failed status message is followed by no bind and no publication set, its element address is
not recorded, and the configuration does not move on. -/
def StopsAtFailure (g : Gateway) : Input → Prop
  | .frame f => IsFailedStatus (g.localParser.cmd.receive f) →
      let next := (gatewayMachine uECC_shared_secret).step g (.frame f)
      (∀ write ∈ next.2, ¬ConfigMessage.modelAppBind.SentBy write.frame ∧
        ¬ConfigMessage.modelPublicationSet.SentBy write.frame) ∧
        next.1.globals.unprovisioner.elementAddress = g.globals.unprovisioner.elementAddress ∧
        g.globals.state.nextStep ≠ some next.1.globals.state
  | .key _ => True

/-- A failed status message does not arrive in the state that awaits its opcode. -/
def FailsUnawaited (g : Gateway) : Input → Prop
  | .frame f => IsFailedStatus (g.localParser.cmd.receive f) →
      awaited g.globals.state ≠ some (meshMessageOpcode (g.localParser.cmd.receive f)).1
  | .key _ => True

variable {uECC_shared_secret}

theorem nextStep_ne_self (state : BleUnprovisionerState) : state.nextStep ≠ some state := by
  cases state <;> exact fun same => by cases same

theorem stopsAtFailure_iff (g : Gateway) (input : Input) :
    StopsAtFailure uECC_shared_secret g input ↔ FailsUnawaited g input := by
  cases input with
  | key => exact Iff.rfl
  | frame f =>
    have processed := bleProcessCommand_unicast (g := g.globals) uECC_shared_secret (g.localParser.cmd.receive f)
    constructor
    · -- the status byte is only printed, so the step is completed
      intro stops failed now
      have moved := (stops failed).2.2
      rw [gatewayMachine_frame (processed failed.1)] at moved
      exact moved (bleProcessDataMessageUnicast_nextStep _ _ now)
    · intro unawaited failed
      have ignored := (processed failed.1).trans
        (bleProcessDataMessageUnicast_of_not_awaited (unawaited failed))
      rw [gatewayMachine_frame ignored]
      exact ⟨fun _ member => absurd member List.not_mem_nil, rfl, nextStep_ne_self _⟩

/-- Over a run, failed configuration steps stop the configuration exactly if no failed status
message arrives in the state that awaits it. -/
theorem stopsAtFailure_along_iff (uECC_shared_secret : UECCSharedSecret) (word : List Input) :
    (gatewayMachine uECC_shared_secret).Along (StopsAtFailure uECC_shared_secret) .init word ↔
      (gatewayMachine uECC_shared_secret).Along FailsUnawaited .init word :=
  Mealy.Machine.along_iff stopsAtFailure_iff

/-- The node answers the app key with status 0x03, and the app key is bound all the same. -/
theorem failedAppkey_not_stopsAtFailure :
    ¬(gatewayMachine echoPrivate).Along (StopsAtFailure echoPrivate) .init
      (provisioned ++ [.frame (txCompleteFrame [0, 0, 0, 0] rfl),
        .frame (unicastFrame 0x001b [0x80, 0x03, 0x03, 0x00, 0x00, 0x00] (by decide))]) := by
  intro stops
  obtain ⟨_, status, _⟩ := (Mealy.Machine.along_append.mp stops).2
  have moved := (status ⟨rfl, by decide, by decide⟩).2.2
  exact moved rfl

end BleGateway
