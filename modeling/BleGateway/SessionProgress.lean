import BleGateway.SessionOrder

namespace BleGateway

/-- The pieces a session writes at its ten steps, over and over: the last step only takes the session back to NEW. -/
def sessionPiece (n : Nat) : List SessionFrame := sessionSteps[n % 10]?.getD []

/-- The event that takes a session on from a state. -/
def BleUnprovisionerState.event : BleUnprovisionerState → UInt8
  | .new => serialOpcodeEvtProvUnprovisionedReceived
  | .provision => serialOpcodeEvtProvCapsReceived
  | .oobuse => serialOpcodeEvtProvEcdhRequest
  | .ecdh => serialOpcodeEvtProvAuthRequest
  | .auth => serialOpcodeEvtProvComplete
  | .devkeyAddrpubadd => serialOpcodeEvtProvLinkClosed
  | .psComposdata | .psAppkeyAdd | .psModelAppBind | .psModelPublicationSet =>
    serialOpcodeEvtMeshMessageReceivedUnicast

/-- The command that takes a session on: the event of its state, for a mesh message with the status awaited, and the
end of a transmission in the first state of the configuration. -/
def BleCmd.Continues (cmd : BleCmd) (state : BleUnprovisionerState) : Prop :=
  cmd.opcode = state.event ∧
      (state.event = serialOpcodeEvtMeshMessageReceivedUnicast → awaited state = some (meshMessageOpcode cmd).1) ∨
    state = .psComposdata ∧ cmd.opcode = serialOpcodeEvtMeshTxComplete

instance (cmd : BleCmd) (state : BleUnprovisionerState) : Decidable (cmd.Continues state) :=
  inferInstanceAs (Decidable (_ ∧ _ ∨ _))

def Continues (g : Gateway) : Input → Prop
  | .frame f => (g.localParser.cmd.receive f).Continues g.globals.state
  | .key _ => False

instance (g : Gateway) (input : Input) : Decidable (Continues g input) :=
  match input with
  | .frame f => inferInstanceAs (Decidable ((g.localParser.cmd.receive f).Continues g.globals.state))
  | .key _ => inferInstanceAs (Decidable False)

/-- The inputs that give up a session that has begun: LINK_CLOSED outside DEVKEY_ADDRPUBADD, and the scan key. -/
def Aborts (g : Gateway) : Input → Prop
  | .frame f => f.opcode = serialOpcodeEvtProvLinkClosed ∧ g.globals.state ≠ .devkeyAddrpubadd ∧ g.globals.state ≠ .new
  | .key c => c = '1' ∧ g.globals.state ≠ .new

variable {uECC_shared_secret : UECCSharedSecret} {cmd : BleCmd} {g globals : Globals} {frames : List SerialFrame}

/-- A session never misses the command it waits for. -/
theorem bleProcessCommand_continues (continues : cmd.Continues g.state) :
    sessionWrites ((bleProcessCommand uECC_shared_secret cmd g).2.map Write.handled) = sessionPiece g.state.stepsDone ∧
      (bleProcessCommand uECC_shared_secret cmd g).1.state.stepsDone = (g.state.stepsDone + 1) % 10 := by
  rcases continues with ⟨event, message⟩ | ⟨state, event⟩
  · cases state : g.state <;> rw [state] at event message
    case new =>
      rw [bleProcessCommand_beacon _ _ event state]
      exact ⟨rfl, rfl⟩
    case provision =>
      rw [bleProcessCommand_caps _ _ event state]
      exact ⟨rfl, rfl⟩
    case oobuse =>
      rw [bleProcessCommand_ecdh _ _ event state]
      exact ⟨rfl, rfl⟩
    case ecdh =>
      rw [bleProcessCommand_auth _ _ event state]
      exact ⟨rfl, rfl⟩
    case auth =>
      rw [bleProcessCommand_complete _ _ event state]
      exact ⟨rfl, rfl⟩
    case devkeyAddrpubadd =>
      rw [bleProcessCommand_linkClosed _ _ event state]
      exact ⟨sessionWrites_packet _ _ _ _, rfl⟩
    all_goals
      have opcode := Option.some.inj (message rfl)
      rw [bleProcessCommand_unicast _ _ event, ← opcode]
      simp only [bleProcessDataMessageUnicast, if_pos state]
    case psModelPublicationSet => exact ⟨rfl, rfl⟩
    all_goals exact ⟨sessionWrites_packet _ _ _ _, rfl⟩
  · rw [bleProcessCommand_txComplete _ _ event state, state]
    exact ⟨sessionWrites_packet _ _ _ _, rfl⟩

theorem BleCmd.continues_event {state : BleUnprovisionerState} (event : cmd.opcode = state.event)
    (other : state.event ≠ serialOpcodeEvtMeshMessageReceivedUnicast) : cmd.Continues state :=
  Or.inl ⟨event, fun message => absurd message other⟩

theorem BleCmd.continues_message {state : BleUnprovisionerState} (event : cmd.opcode = state.event)
    (opcode : awaited state = some (meshMessageOpcode cmd).1) : cmd.Continues state :=
  Or.inl ⟨event, fun _ => opcode⟩

/-- A command that does not take the session on leaves it where it is, or gives it up. -/
theorem CommandStep.stays (step : CommandStep uECC_shared_secret cmd g globals frames) (other : ¬cmd.Continues g.state)
    (goesOn : ¬(cmd.opcode = serialOpcodeEvtProvLinkClosed ∧ g.state ≠ .devkeyAddrpubadd ∧ g.state ≠ .new)) :
    sessionWrites (frames.map Write.handled) = [] ∧ globals.state = g.state := by
  cases step with
  | quiet setup => exact ⟨sessionWrites_setup setup, rfl⟩
  | subnetHandle => exact ⟨sessionWrites_setup (by simp [moduleSetup]), rfl⟩
  | devkeyHandle | dstAddrHandle => exact ⟨rfl, rfl⟩
  | abort event state =>
    by_cases idle : g.state = .new
    · exact ⟨rfl, idle.symm⟩
    · exact absurd ⟨event, state, idle⟩ goesOn
  | provision event state | oobUse event state | ecdhSecret event state | authData event state | complete event state
  | compositionData event state =>
    rw [state] at other
    exact (other (BleCmd.continues_event event (by decide))).elim
  | appkeyAdd event state =>
    rw [state] at other
    rcases event with ⟨event, opcode⟩ | event
    · exact (other (BleCmd.continues_message event (congrArg some opcode.symm))).elim
    · exact (other (Or.inr ⟨rfl, event⟩)).elim
  | modelAppBind event opcode state | publicationSet event opcode state | finish event opcode state =>
    rw [state] at other
    exact (other (BleCmd.continues_message event (congrArg some opcode.symm))).elim

theorem gatewayMachine_continues {g : Gateway} {input : Input} (continues : Continues g input) :
    sessionWrites ((gatewayMachine uECC_shared_secret).step g input).2 = sessionPiece g.globals.state.stepsDone ∧
      ((gatewayMachine uECC_shared_secret).step g input).1.globals.state.stepsDone =
        (g.globals.state.stepsDone + 1) % 10 := by
  cases input with
  | frame f => exact bleProcessCommand_continues continues
  | key => cases continues

theorem gatewayMachine_stays {g : Gateway} {input : Input} (other : ¬Continues g input) (goesOn : ¬Aborts g input) :
    sessionWrites ((gatewayMachine uECC_shared_secret).step g input).2 = [] ∧
      ((gatewayMachine uECC_shared_secret).step g input).1.globals.state = g.globals.state := by
  have step := gatewayMachine_step uECC_shared_secret g input
  generalize ((gatewayMachine uECC_shared_secret).step g input).1.globals = globals at step ⊢
  generalize ((gatewayMachine uECC_shared_secret).step g input).2 = writes at step ⊢
  cases step with
  | command command => exact command.stays other goesOn
  | key key =>
    refine ⟨sessionWrites_operated _, ?_⟩
    cases key with
    | scanStart pressed =>
      by_cases idle : g.globals.state = .new
      · exact idle.symm
      · exact absurd ⟨pressed, idle⟩ goesOn
    | send => rfl

theorem stepsDone_lt (state : BleUnprovisionerState) : state.stepsDone < 10 := by
  cases state <;> decide

/-- While no session is given up, the sessions make exactly the steps that are asked of them: each input that takes one
on is answered with the next piece, whatever comes in between, and nothing else of a session is written. -/
theorem sessionWrites_progress {g : Gateway} {word : List Input}
    (goesOn : (gatewayMachine uECC_shared_secret).Along (fun g input => ¬Aborts g input) g word) :
    let steps := (gatewayMachine uECC_shared_secret).count Continues g word
    sessionWrites ((gatewayMachine uECC_shared_secret).outputs g word) =
        (List.range steps).flatMap (fun n => sessionPiece (g.globals.state.stepsDone + n)) ∧
      ((gatewayMachine uECC_shared_secret).final g word).globals.state.stepsDone =
        (g.globals.state.stepsDone + steps) % 10 := by
  have periodic (n : Nat) : sessionPiece (n % 10) = sessionPiece n := by rw [sessionPiece, Nat.mod_mod, sessionPiece]
  obtain ⟨written, final⟩ := Mealy.Machine.outputs_cycle sessionWrites rfl sessionWrites_append sessionPiece 10 periodic
    (fun g => g.globals.state.stepsDone) (fun _ _ => gatewayMachine_continues)
    (fun _ _ other goesOn => (gatewayMachine_stays other goesOn).imp_right (congrArg BleUnprovisionerState.stepsDone))
    goesOn
  exact ⟨written, (Nat.mod_eq_of_lt (stepsDone_lt _)).symm.trans final⟩

theorem sessionWrites_progress_provisioned :
    let steps := (gatewayMachine echoPrivate).count Continues .init provisioned
    sessionWrites ((gatewayMachine echoPrivate).outputs .init provisioned) =
        (List.range steps).flatMap (fun n => sessionPiece (0 + n)) ∧
      ((gatewayMachine echoPrivate).final .init provisioned).globals.state.stepsDone = (0 + steps) % 10 := by
  have other (g : Gateway) (f : SerialFrame) (event : f.opcode ≠ serialOpcodeEvtProvLinkClosed) :
      ¬Aborts g (.frame f) := fun aborts => event aborts.1
  exact sessionWrites_progress ⟨other _ _ (by decide), other _ _ (by decide), other _ _ (by decide),
    other _ _ (by decide), other _ _ (by decide), fun aborts => aborts.2.1 rfl, trivial⟩

end BleGateway
