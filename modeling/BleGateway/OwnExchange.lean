import BleGateway.ConfigurationStep
import BleGateway.HandlePeer
import BleGateway.Lib.History
import BleGateway.SessionOrder

namespace BleGateway
open History

/-- A handler sends the next configuration message, or a Publication Status ends the session. -/
def Advances (uECC_shared_secret : UECCSharedSecret) (g : Gateway) (input : Input) : Prop :=
  let next := (gatewayMachine uECC_shared_secret).step g input
  (∃ frame ∈ handlerFrames next.2, ∃ message : ConfigMessage, message.SentBy frame) ∨
    ∃ f, input = .frame f ∧ f.opcode = serialOpcodeEvtMeshMessageReceivedUnicast ∧
      (meshMessageOpcode (g.localParser.cmd.receive f)).1 = configOpcodeModelPublicationStatus ∧
      g.globals.state ≠ .new ∧ next.1.globals.state = .new

/-- What has gone over the line: everything written, and for each packet that was accepted its index
and its token, the first four bytes of the answer. -/
structure Exchange where
  writes : List Write
  tokens : List (Nat × List UInt8)

/-- The gateway beside its module, with what went over the line. -/
def exchangeMachine (uECC_shared_secret : UECCSharedSecret) :
    Mealy.Machine (Mealy.Observed Peer Exchange) PeerInput Write :=
  (peerMachine uECC_shared_secret).observe fun exchange _ input writes =>
    { writes := exchange.writes ++ writes
      tokens := match input with
        | .answer i status data _ =>
          if status = serialStatusSuccess then exchange.tokens ++ [(i, data.take 4)] else exchange.tokens
        | _ => exchange.tokens }

def exchangeInit : Mealy.Observed Peer Exchange where
  state := .init
  note := { writes := [], tokens := [] }

/-- The index of the composition data get a handler has written since the last provision frame. -/
def compositionRequest (writes : List Write) : Option Nat :=
  writes.zipIdx.foldl (fun found (write, i) =>
    if IsProvision write.frame then none
    else if write.origin = .handler ∧ SessionFrame.ofFrame write.frame = .packet [0x80, 0x08, 0x00] then some i
    else found) none

/-- A mesh message from the address in the last provision frame, or the completion of the composition
data get of this session. -/
def OwnEvent (exchange : Exchange) (f : SerialFrame) : Prop :=
  f.opcode = serialOpcodeEvtMeshMessageReceivedUnicast ∧
      (∃ provision, last IsProvision (writtenFrames exchange.writes) = some provision ∧
        f.word 0 = provision.word 39) ∨
    f.opcode = serialOpcodeEvtMeshTxComplete ∧
      ∃ request, compositionRequest exchange.writes = some request ∧ (request, f.payload.take 4) ∈ exchange.tokens

/-- The configuration advances on events of its own exchange alone. -/
def AdvancesOnOwn (uECC_shared_secret : UECCSharedSecret) (o : Mealy.Observed Peer Exchange) : PeerInput → Prop
  | .event f => Advances uECC_shared_secret o.state.gateway (.frame f) → OwnEvent o.note f
  | .key c => ¬Advances uECC_shared_secret o.state.gateway (.key c)
  | .answer i status data fits => ∀ command, o.state.sent[i]? = some command →
      ¬Advances uECC_shared_secret o.state.gateway (.frame (cmdRspFrame command status data fits))

/-- The status message the state awaits, from whichever node, or in PS_COMPOSDATA the completion of
whichever packet. -/
def AnswersState (g : Gateway) : Input → Prop
  | .frame f =>
    f.opcode = serialOpcodeEvtMeshMessageReceivedUnicast ∧
        awaited g.globals.state = some (meshMessageOpcode (g.localParser.cmd.receive f)).1 ∨
      f.opcode = serialOpcodeEvtMeshTxComplete ∧ g.globals.state = .psComposdata
  | .key _ => False

/-- The access message that the status awaited in a state answers. -/
def BleUnprovisionerState.request : BleUnprovisionerState → Option (List UInt8)
  | .psComposdata => some [0x80, 0x08, 0x00]
  | .psAppkeyAdd => some ([0x00, 0x00, 0x00, 0x00] ++ appKey)
  | .psModelAppBind => some [0x80, 0x3d, 0x1a, 0x00, 0x00, 0x00, 0x00, 0x10]
  | .psModelPublicationSet => some [0x03, 0x1a, 0x00, 0x01, 0x00, 0x00, 0x00, 0x01, 0x00, 0x00, 0x00, 0x10]
  | _ => none

variable {uECC_shared_secret : UECCSharedSecret}

/-- The observer holds exactly what the program writes beside its module. -/
theorem exchangeMachine_final (uECC_shared_secret : UECCSharedSecret) (word : List PeerInput) :
    ((exchangeMachine uECC_shared_secret).final exchangeInit word).state =
        (peerMachine uECC_shared_secret).final .init word ∧
      ((exchangeMachine uECC_shared_secret).final exchangeInit word).note.writes =
        (peerMachine uECC_shared_secret).outputs .init word := by
  constructor
  · exact (Mealy.Machine.observe_run exchangeInit word).1
  · exact Mealy.Machine.observe_history Exchange.writes id rfl (fun _ _ => rfl) (fun _ _ _ _ => rfl)
      exchangeInit word

theorem AnswersState.of_advances {g : Gateway} {input : Input} (advances : Advances uECC_shared_secret g input) :
    AnswersState g input := by
  cases input with
  | key c =>
    rcases advances with ⟨frame, member, _⟩ | ⟨f, other, _⟩
    · rw [gatewayMachine_handlerFrames_key] at member
      exact absurd member List.not_mem_nil
    · cases other
  | frame f =>
    rcases advances with ⟨frame, member, message, sent⟩ | ⟨_, same, event, opcode, running, ended⟩
    · rw [gatewayMachine_handlerFrames] at member
      obtain ⟨state, _, event⟩ := (bleProcessCommand_step uECC_shared_secret _ _).of_config_frame member sent
      rcases event with unicast | ⟨rfl, event⟩
      · exact Or.inl unicast
      · exact Or.inr ⟨event, state⟩
    · cases same
      refine Or.inl ⟨event, ?_⟩
      by_contra other
      have ignored := (bleProcessCommand_unicast uECC_shared_secret (g.localParser.cmd.receive f) event).trans
        (bleProcessDataMessageUnicast_of_not_awaited other)
      rw [gatewayMachine_frame ignored] at ended
      exact running ended

theorem advances_of_packet {g : Gateway} {f : SerialFrame} (message : ConfigMessage)
    (sent : (bleProcessCommand uECC_shared_secret (g.localParser.cmd.receive f) g.globals).2 =
      [message.packet g.globals.unprovisioner]) : Advances uECC_shared_secret g (.frame f) := by
  refine Or.inl ⟨message.packet g.globals.unprovisioner, ?_, message,
    message.packet_sentBy g.globals.unprovisioner⟩
  rw [gatewayMachine_handlerFrames, sent]
  exact List.mem_singleton_self _

theorem AnswersState.advances {g : Gateway} {input : Input} (answers : AnswersState g input) :
    Advances uECC_shared_secret g input := by
  cases input with
  | key => exact answers.elim
  | frame f =>
    rcases answers with ⟨event, now⟩ | ⟨event, state⟩
    · have processed := bleProcessCommand_unicast (g := g.globals) uECC_shared_secret
        (g.localParser.cmd.receive f) event
      have sends (message : ConfigMessage) (state : g.globals.state = message.state) :
          Advances uECC_shared_secret g (.frame f) :=
        advances_of_packet message (by rw [processed, bleProcessDataMessageUnicast_packet state now])
      cases state : g.globals.state with
      | psComposdata => exact sends .appkeyAdd state
      | psAppkeyAdd => exact sends .modelAppBind state
      | psModelAppBind => exact sends .modelPublicationSet state
      | psModelPublicationSet =>
        have opcode : (meshMessageOpcode (g.localParser.cmd.receive f)).1 = configOpcodeModelPublicationStatus := by
          rw [state] at now
          exact (Option.some_inj.mp now).symm
        refine Or.inr ⟨f, rfl, event, opcode, by simp [state], ?_⟩
        rw [gatewayMachine_frame processed]
        have ended := bleProcessDataMessageUnicast_nextStep (meshMessageOpcode (g.localParser.cmd.receive f)).2
          (g.localParser.cmd.receive f) now
        rw [state] at ended
        exact (Option.some_inj.mp ended).symm
      | new | provision | oobuse | ecdh | auth | devkeyAddrpubadd =>
        rw [state] at now
        cases now
    · have processed := bleProcessCommand_txComplete (g := g.globals) uECC_shared_secret
        (g.localParser.cmd.receive f) event state
      exact advances_of_packet .appkeyAdd (congrArg Prod.snd processed)

/-- In the state that awaits the answer to a request, the request is the last thing the handlers
have written for a session. -/
theorem request_last {before : List Input} {request : List UInt8}
    (awaits : ((gatewayMachine uECC_shared_secret).final .init before).globals.state.request = some request) :
    (sessionWrites ((gatewayMachine uECC_shared_secret).outputs .init before)).getLast? =
      some (.packet request) := by
  have session := sessionOpen_run uECC_shared_secret before
  cases state : ((gatewayMachine uECC_shared_secret).final .init before).globals.state with
  | psComposdata | psAppkeyAdd | psModelAppBind | psModelPublicationSet =>
    rw [state] at session awaits
    cases awaits
    exact session.getLast rfl
  | new | provision | oobuse | ecdh | auth | devkeyAddrpubadd =>
    rw [state] at awaits
    cases awaits

theorem AnswersState.awaits {g : Gateway} {input : Input} (answers : AnswersState g input) :
    ∃ request, g.globals.state.request = some request := by
  cases input with
  | key => exact answers.elim
  | frame f =>
    rcases answers with ⟨_, now⟩ | ⟨_, state⟩
    · cases state : g.globals.state with
      | psComposdata | psAppkeyAdd | psModelAppBind | psModelPublicationSet => exact ⟨_, rfl⟩
      | new | provision | oobuse | ecdh | auth | devkeyAddrpubadd =>
        rw [state] at now
        cases now
    · rw [state]
      exact ⟨_, rfl⟩

/-- After every run, a configuration advances exactly on the status message its state awaits or, in
PS_COMPOSDATA, on a TX_COMPLETE event, and what the session has written last is the request that
such an event answers. -/
theorem advances_iff_answersState (uECC_shared_secret : UECCSharedSecret) (before : List Input) (input : Input) :
    let g := (gatewayMachine uECC_shared_secret).final .init before
    (Advances uECC_shared_secret g input ↔ AnswersState g input) ∧
      (Advances uECC_shared_secret g input → ∃ request, g.globals.state.request = some request ∧
        (sessionWrites ((gatewayMachine uECC_shared_secret).outputs .init before)).getLast? =
          some (.packet request)) := by
  refine ⟨⟨AnswersState.of_advances, AnswersState.advances⟩, ?_⟩
  intro advances
  obtain ⟨request, awaits⟩ := (AnswersState.of_advances advances).awaits
  exact ⟨request, awaits, request_last awaits⟩

/-- A session up to its composition data get, which is frame 7. -/
def requested : List PeerInput :=
  [.event beaconFrame, .event (capsFrame 1), .event ecdhRequestFrame, .event authRequestFrame,
    .event (completeFrame 0x001b), .event linkClosedFrame]

/-- The Composition Data Status comes from another node. -/
def foreignStatus : List PeerInput :=
  requested ++ [.event (unicastFrame 0x0005 [0x02] (by decide))]

/-- An on/off packet is sent as frame 8, and its completion comes in before that of frame 7. -/
def foreignCompletion : List PeerInput :=
  requested ++ [.key '3', .answer 7 serialStatusSuccess [0x01, 0x00, 0x00, 0x00] (by decide),
    .answer 8 serialStatusSuccess [0x02, 0x00, 0x00, 0x00] (by decide),
    .event (txCompleteFrame [0x02, 0x00, 0x00, 0x00] rfl)]

theorem requested_answersOnce : (peerMachine echoPrivate).Along AnswersOnce .init requested := by
  have event {f : SerialFrame} (other : f.opcode ≠ serialOpcodeEvtCmdRsp) {p : Peer} :
      AnswersOnce p (.event f) := other
  exact ⟨event (by decide), event (by decide), event (by decide), event (by decide), event (by decide),
    event (by decide), trivial⟩

theorem foreignStatus_answersOnce : (peerMachine echoPrivate).Along AnswersOnce .init foreignStatus := by
  refine Mealy.Machine.along_append.mpr ⟨requested_answersOnce, ?_, trivial⟩
  exact show serialOpcodeEvtMeshMessageReceivedUnicast ≠ serialOpcodeEvtCmdRsp by decide

theorem foreignCompletion_answersOnce : (peerMachine echoPrivate).Along AnswersOnce .init foreignCompletion := by
  refine Mealy.Machine.along_append.mpr ⟨requested_answersOnce, trivial, ?_, ?_, ?_, trivial⟩
  · exact ⟨_, rfl, List.not_mem_nil, fun _ handle => absurd handle (by decide)⟩
  · exact ⟨_, rfl, by decide, fun _ handle => absurd handle (by decide)⟩
  · exact show serialOpcodeEvtMeshTxComplete ≠ serialOpcodeEvtCmdRsp by decide

/-- Neither the sender of a status message nor the token of a completion matters. -/
theorem foreign_not_advancesOnOwn :
    ((peerMachine echoPrivate).Along AnswersOnce .init foreignStatus ∧
      ¬(exchangeMachine echoPrivate).Along (AdvancesOnOwn echoPrivate) exchangeInit foreignStatus) ∧
    (peerMachine echoPrivate).Along AnswersOnce .init foreignCompletion ∧
      ¬(exchangeMachine echoPrivate).Along (AdvancesOnOwn echoPrivate) exchangeInit foreignCompletion := by
  refine ⟨⟨foreignStatus_answersOnce, ?_⟩, foreignCompletion_answersOnce, ?_⟩
  · intro own
    obtain ⟨status, _⟩ := (Mealy.Machine.along_append.mp own).2
    rcases status (AnswersState.advances (Or.inl ⟨rfl, rfl⟩)) with ⟨_, provision, assigned, src⟩ | ⟨event, _⟩
    · cases assigned
      exact absurd src (by decide)
    · exact absurd event (by decide)
  · intro own
    obtain ⟨_, _, _, completion, _⟩ := (Mealy.Machine.along_append.mp own).2
    -- the session's own request is frame 7, and the token 2 belongs to frame 8
    rcases completion (AnswersState.advances (Or.inr ⟨rfl, rfl⟩)) with ⟨event, _⟩ | ⟨_, request, mine, token⟩
    · exact absurd event (by decide)
    · cases mine
      exact absurd token (by decide)

end BleGateway
