import BleGateway.GatewayRun

namespace BleGateway

/-- The two commands whose handles the configuration packets carry. -/
inductive HandleCommand
  | devkeyAdd
  | addrPublicationAdd

def HandleCommand.opcode : HandleCommand → UInt8
  | .devkeyAdd => serialOpcodeCmdMeshDevkeyAdd
  | .addrPublicationAdd => serialOpcodeCmdMeshAddrPublicationAdd

def HandleCommand.stored (h : HandleCommand) (unprovisioner : BleUnprovisioner) : UInt16 :=
  match h with
  | .devkeyAdd => unprovisioner.devkeyHandle
  | .addrPublicationAdd => unprovisioner.dstAddrHandle

def HandleCommand.carried (h : HandleCommand) (packet : SerialFrame) : UInt16 :=
  match h with
  | .devkeyAdd => packet.word 0
  | .addrPublicationAdd => packet.word 4

/-- A command answered with success: its index among the command frames, its opcode and the handle. -/
structure Answer where
  command : Nat
  opcode : UInt8
  handle : UInt16

/-- The gateway and its radio module: the command frames written, the indices of the answered ones,
and the successful answers in the order they arrived. -/
structure Peer where
  gateway : Gateway
  sent : List SerialFrame
  closed : List Nat
  answers : List Answer

def Peer.init : Peer where
  gateway := .init
  sent := []
  closed := []
  answers := []

/-- An event of the module, a key of the operator, or the module's answer to a command. -/
inductive PeerInput
  | event (f : SerialFrame)
  | key (c : Char)
  | answer (command : Nat) (status : UInt8) (data : List UInt8) (fits : data.length ≤ 252)

def cmdRspFrame (command : SerialFrame) (status : UInt8) (data : List UInt8) (fits : data.length ≤ 252) :
    SerialFrame where
  opcode := serialOpcodeEvtCmdRsp
  payload := command.opcode :: status :: data
  bound := by
    simp only [List.length_cons, nrfMeshSerialPayloadMaxlen]
    omega

variable (uECC_shared_secret : UECCSharedSecret)

def Peer.deliver (p : Peer) (input : Input) : Peer × List Write :=
  let (gateway, writes) := (gatewayMachine uECC_shared_secret).step p.gateway input
  ({ p with gateway, sent := p.sent ++ writtenFrames writes }, writes)

/-- The gateway beside a module that answers its commands in any order. -/
def peerMachine : Mealy.Machine Peer PeerInput Write where
  step p input :=
    match input with
    | .event f => p.deliver uECC_shared_secret (.frame f)
    | .key c => p.deliver uECC_shared_secret (.key c)
    | .answer i status data fits =>
      match p.sent[i]? with
      | none => (p, [])
      | some command =>
        let rsp := cmdRspFrame command status data fits
        let (next, writes) := p.deliver uECC_shared_secret (.frame rsp)
        ({ next with
            closed := p.closed ++ [i]
            answers :=
              if status = serialStatusSuccess then
                p.answers ++ [{ command := i, opcode := command.opcode, handle := rsp.word 2 }]
              else p.answers }, writes)

/-- Commands whose successful answer returns a handle. -/
def handleOpcodes : List UInt8 :=
  [serialOpcodeCmdMeshSubnetAdd, serialOpcodeCmdMeshAppkeyAdd, serialOpcodeCmdMeshDevkeyAdd,
    serialOpcodeCmdMeshAddrPublicationAdd]

/-- The module answers each command at most once, and a success that returns a handle returns a
fresh one. -/
def AnswersOnce (p : Peer) : PeerInput → Prop
  | .event f => f.opcode ≠ serialOpcodeEvtCmdRsp
  | .key _ => True
  | .answer i status data fits => ∃ command, p.sent[i]? = some command ∧ i ∉ p.closed ∧
      (status = serialStatusSuccess → command.opcode ∈ handleOpcodes → 2 ≤ data.length ∧
        ∀ a ∈ p.answers, a.opcode = command.opcode → a.handle ≠ (cmdRspFrame command status data fits).word 2)

/-- The index of the last command with an opcode since the last provision frame. -/
def sessionCommand (opcode : UInt8) (sent : List SerialFrame) : Option Nat :=
  sent.zipIdx.foldl (fun found (frame, i) =>
    if IsProvision frame then none else if frame.opcode = opcode then some i else found) none

def lastAnswer (opcode : UInt8) (answers : List Answer) : Option Answer :=
  (answers.filter (·.opcode = opcode)).getLast?

/-- The value is the handle returned for the command of this session, and for no other. -/
def ReturnedHere (h : HandleCommand) (p : Peer) (value : UInt16) : Prop :=
  (∃ a ∈ p.answers, a.opcode = h.opcode ∧ sessionCommand h.opcode p.sent = some a.command ∧ a.handle = value) ∧
    ∀ a ∈ p.answers, a.opcode = h.opcode → a.handle = value → sessionCommand h.opcode p.sent = some a.command

/-- The packets a handler writes carry the handles returned for the commands of this session. -/
def CarriesHandles (p : Peer) (input : PeerInput) : Prop :=
  ∀ packet ∈ handlerFrames ((peerMachine uECC_shared_secret).step p input).2,
    packet.opcode = serialOpcodeCmdMeshPacketSend → ∀ h : HandleCommand, ReturnedHere h p (h.carried packet)

/-- When the link of a registered device closes, the last successful answers to both commands are
those to the commands of this session. -/
def BothAnswered (p : Peer) : PeerInput → Prop
  | .event f => f.opcode = serialOpcodeEvtProvLinkClosed → p.gateway.globals.state = .devkeyAddrpubadd →
      ∀ h : HandleCommand, ∃ a, lastAnswer h.opcode p.answers = some a ∧
        sessionCommand h.opcode p.sent = some a.command
  | _ => True

theorem sessionCommand_append_of_not {opcode : UInt8} {sent frames : List SerialFrame}
    (other : ∀ frame ∈ frames, ¬IsProvision frame ∧ frame.opcode ≠ opcode) :
    sessionCommand opcode (sent ++ frames) = sessionCommand opcode sent := by
  induction frames generalizing sent with
  | nil => rw [List.append_nil]
  | cons frame rest ih =>
    obtain ⟨goesOn, differs⟩ := other frame (List.mem_cons_self ..)
    rw [List.append_cons, ih fun next member => other next (List.mem_cons_of_mem _ member)]
    simp [sessionCommand, List.zipIdx_append, goesOn, differs]

theorem sessionCommand_concat {opcode : UInt8} {sent : List SerialFrame} {frame : SerialFrame}
    (goesOn : ¬IsProvision frame) (same : frame.opcode = opcode) :
    sessionCommand opcode (sent ++ [frame]) = some sent.length := by
  simp [sessionCommand, List.zipIdx_append, goesOn, same]

theorem lastAnswer_append_of_not {opcode : UInt8} {answers : List Answer} {a : Answer}
    (other : a.opcode ≠ opcode) : lastAnswer opcode (answers ++ [a]) = lastAnswer opcode answers := by
  simp [lastAnswer, other]

theorem lastAnswer_append_same {opcode : UInt8} {answers : List Answer} {a : Answer} (same : a.opcode = opcode) :
    lastAnswer opcode (answers ++ [a]) = some a := by
  simp [lastAnswer, same]

variable {uECC_shared_secret} {cmd : BleCmd} {g globals : Globals} {frames : List SerialFrame}

/-- A command response leaves the state as it is and writes frames of the module setup at most; a
handle changes only by a success in state DEVKEY_ADDRPUBADD. -/
theorem CommandStep.of_cmdRsp (step : CommandStep uECC_shared_secret cmd g globals frames)
    (event : cmd.opcode = serialOpcodeEvtCmdRsp) :
    globals.state = g.state ∧ (∀ frame ∈ frames, frame.opcode ∈ moduleSetup) ∧
      ∀ h : HandleCommand, h.stored globals.unprovisioner ≠ h.stored g.unprovisioner →
        cmd.cmdRsp.opcode = h.opcode ∧ cmd.cmdRsp.status = serialStatusSuccess ∧ g.state = .devkeyAddrpubadd := by
  cases step with
  | quiet setup => exact ⟨rfl, setup, fun _ changed => absurd rfl changed⟩
  | subnetHandle =>
    refine ⟨rfl, by simp [moduleSetup], ?_⟩
    intro h changed
    cases h <;> exact absurd rfl changed
  | devkeyHandle _ opcode success state =>
    refine ⟨rfl, fun _ member => absurd member List.not_mem_nil, ?_⟩
    intro h changed
    cases h with
    | devkeyAdd => exact ⟨opcode, success, state⟩
    | addrPublicationAdd => exact absurd rfl changed
  | dstAddrHandle _ opcode success state =>
    refine ⟨rfl, fun _ member => absurd member List.not_mem_nil, ?_⟩
    intro h changed
    cases h with
    | devkeyAdd => exact absurd rfl changed
    | addrPublicationAdd => exact ⟨opcode, success, state⟩
  | provision other | oobUse other | ecdhSecret other | authData other | complete other
  | compositionData other | abort other | modelAppBind other | publicationSet other | finish other =>
    exact absurd (event.symm.trans other) (by decide)
  | appkeyAdd other =>
    rcases other with ⟨other, _⟩ | other <;> exact absurd (event.symm.trans other) (by decide)

theorem bleProcessDataCmdRsp_stores {h : HandleCommand} (opcode : cmd.cmdRsp.opcode = h.opcode)
    (success : cmd.cmdRsp.status = serialStatusSuccess) (state : g.state = .devkeyAddrpubadd) :
    h.stored (bleProcessDataCmdRsp cmd g).1.unprovisioner = cmd.cmdRsp.handle := by
  cases h with
  | devkeyAdd =>
    rw [bleProcessDataCmdRsp_devkeyAdd opcode success state]
    rfl
  | addrPublicationAdd =>
    rw [bleProcessDataCmdRsp_addrPublicationAdd opcode success state]
    rfl

/-- Other events enter DEVKEY_ADDRPUBADD from AUTH, with the frames of a registration. -/
theorem CommandStep.of_registering (step : CommandStep uECC_shared_secret cmd g globals frames)
    (event : cmd.opcode ≠ serialOpcodeEvtCmdRsp) (state : globals.state = .devkeyAddrpubadd) :
    globals = g ∧ g.state = .devkeyAddrpubadd ∧ (∀ frame ∈ frames, frame.opcode ∈ moduleSetup) ∨
      ∃ devkeyAdd addrPublicationAdd : SerialFrame, devkeyAdd.opcode = 0x9c ∧ addrPublicationAdd.opcode = 0xa4 ∧
        frames = [bleScanStop, devkeyAdd, addrPublicationAdd] := by
  cases step with
  | quiet setup => exact Or.inl ⟨rfl, state, setup⟩
  | complete => exact Or.inr ⟨_, _, rfl, rfl, rfl⟩
  | subnetHandle other | devkeyHandle other | dstAddrHandle other => exact absurd other event
  | provision | oobUse | ecdhSecret | authData | compositionData | abort | appkeyAdd | modelAppBind
  | publicationSet | finish => cases state

/-- The states of configuration are entered by closing the link of a registered device, and the
handles stay as they were. -/
theorem CommandStep.of_configuring (step : CommandStep uECC_shared_secret cmd g globals frames)
    (event : cmd.opcode ≠ serialOpcodeEvtCmdRsp) (state : globals.state.Configuring) :
    (g.state.Configuring ∨ cmd.opcode = serialOpcodeEvtProvLinkClosed ∧ g.state = .devkeyAddrpubadd) ∧
      ∀ h : HandleCommand, h.stored globals.unprovisioner = h.stored g.unprovisioner := by
  have same : globals.unprovisioner.devkeyHandle = g.unprovisioner.devkeyHandle →
      globals.unprovisioner.dstAddrHandle = g.unprovisioner.dstAddrHandle →
      ∀ h : HandleCommand, h.stored globals.unprovisioner = h.stored g.unprovisioner := by
    intro devkey dstAddr h
    cases h with
    | devkeyAdd => exact devkey
    | addrPublicationAdd => exact dstAddr
  cases step with
  | quiet => exact ⟨Or.inl state, fun _ => rfl⟩
  | compositionData closed registered => exact ⟨Or.inr ⟨closed, registered⟩, same rfl rfl⟩
  | appkeyAdd _ before | modelAppBind _ _ before | publicationSet _ _ before =>
    refine ⟨Or.inl ?_, same rfl rfl⟩
    rw [before]
    simp [BleUnprovisionerState.Configuring]
  | subnetHandle other | devkeyHandle other | dstAddrHandle other => exact absurd other event
  | provision | oobUse | ecdhSecret | authData | complete | abort | finish =>
    simp [BleUnprovisionerState.Configuring] at state

/-- Frames that leave the commands of a session as they are. -/
def Neutral (frames : List SerialFrame) : Prop :=
  ∀ (h : HandleCommand), ∀ frame ∈ frames, ¬IsProvision frame ∧ frame.opcode ≠ h.opcode

theorem Neutral.sessionCommand (neutral : Neutral frames) (h : HandleCommand) (sent : List SerialFrame) :
    sessionCommand h.opcode (sent ++ frames) = sessionCommand h.opcode sent :=
  sessionCommand_append_of_not (neutral h)

theorem neutral_of_setup (setup : ∀ frame ∈ frames, frame.opcode ∈ moduleSetup) : Neutral frames := by
  intro h frame member
  obtain ⟨notProvision, notDevkey, notPublication, _⟩ := setup_opcode_ne (setup frame member)
  refine ⟨notProvision, ?_⟩
  cases h with
  | devkeyAdd => exact notDevkey
  | addrPublicationAdd => exact notPublication

theorem CommandStep.neutral (step : CommandStep uECC_shared_secret cmd g globals frames)
    (new : g.state ≠ .new) (auth : g.state ≠ .auth) : Neutral frames := by
  intro h frame member
  constructor
  · intro provision
    exact new (step.of_provision_frame member provision).2.1
  · intro same
    refine auth (step.of_device_frame member ?_).2.1
    cases h with
    | devkeyAdd => exact Or.inl same
    | addrPublicationAdd => exact Or.inr same

theorem KeyStep.neutral {c : Char} (step : KeyStep c g globals frames) : Neutral frames := by
  intro h frame member
  obtain ⟨notProvision, notDevkey, notPublication⟩ := step.opcode_ne member
  refine ⟨notProvision, ?_⟩
  cases h with
  | devkeyAdd => exact notDevkey
  | addrPublicationAdd => exact notPublication

theorem peerMachine_event (uECC_shared_secret : UECCSharedSecret) (p : Peer) (f : SerialFrame) :
    ∃ frames, CommandStep uECC_shared_secret (p.gateway.localParser.cmd.receive f) p.gateway.globals
        ((peerMachine uECC_shared_secret).step p (.event f)).1.gateway.globals frames ∧
      ((peerMachine uECC_shared_secret).step p (.event f)).1.sent = p.sent ++ frames ∧
      handlerFrames ((peerMachine uECC_shared_secret).step p (.event f)).2 = frames :=
  ⟨_, bleProcessCommand_step uECC_shared_secret _ _, congrArg (p.sent ++ ·) (writtenFrames_handled _),
    handlerFrames_handled _⟩

theorem peerMachine_key (uECC_shared_secret : UECCSharedSecret) (p : Peer) (c : Char) :
    ∃ frames, KeyStep c p.gateway.globals
        ((peerMachine uECC_shared_secret).step p (.key c)).1.gateway.globals frames ∧
      ((peerMachine uECC_shared_secret).step p (.key c)).1.sent = p.sent ++ frames ∧
      handlerFrames ((peerMachine uECC_shared_secret).step p (.key c)).2 = [] :=
  ⟨_, mainKey_step c _, congrArg (p.sent ++ ·) (writtenFrames_operated _), handlerFrames_operated _⟩

theorem peerMachine_answer (uECC_shared_secret : UECCSharedSecret) {p : Peer} {i : Nat} {command : SerialFrame}
    (status : UInt8) (data : List UInt8) (fits : data.length ≤ 252) (found : p.sent[i]? = some command) :
    ∃ frames, bleProcessDataCmdRsp (p.gateway.localParser.cmd.receive (cmdRspFrame command status data fits))
          p.gateway.globals =
        (((peerMachine uECC_shared_secret).step p (.answer i status data fits)).1.gateway.globals, frames) ∧
      ((peerMachine uECC_shared_secret).step p (.answer i status data fits)).1.sent = p.sent ++ frames ∧
      handlerFrames ((peerMachine uECC_shared_secret).step p (.answer i status data fits)).2 = frames ∧
      ((peerMachine uECC_shared_secret).step p (.answer i status data fits)).1.answers =
        if status = serialStatusSuccess then
          p.answers ++ [{ command := i, opcode := command.opcode,
                          handle := (cmdRspFrame command status data fits).word 2 }]
        else p.answers := by
  simp only [peerMachine, found]
  exact ⟨_, rfl, congrArg (p.sent ++ ·) (writtenFrames_handled _), handlerFrames_handled _, trivial⟩

theorem cmdRspFrame_opcode (cmd : BleCmd) (command : SerialFrame) (status : UInt8) (data : List UInt8)
    (fits : data.length ≤ 252) :
    (cmd.receive (cmdRspFrame command status data fits)).cmdRsp.opcode = command.opcode :=
  have inside : 0 < (cmdRspFrame command status data fits).payload.length := Nat.succ_pos _
  cmd.receive_read_of_lt inside

theorem cmdRspFrame_status (cmd : BleCmd) (command : SerialFrame) (status : UInt8) (data : List UInt8)
    (fits : data.length ≤ 252) :
    (cmd.receive (cmdRspFrame command status data fits)).cmdRsp.status = status :=
  have inside : 1 < (cmdRspFrame command status data fits).payload.length := Nat.succ_lt_succ (Nat.succ_pos _)
  cmd.receive_read_of_lt inside

theorem cmdRspFrame_handle (cmd : BleCmd) (command : SerialFrame) (status : UInt8) {data : List UInt8}
    (fits : data.length ≤ 252) (long : 2 ≤ data.length) :
    (cmd.receive (cmdRspFrame command status data fits)).cmdRsp.handle =
      (cmdRspFrame command status data fits).word 2 :=
  cmd.receive_word (Nat.add_le_add_right long 2)

theorem HandleCommand.opcode_mem (h : HandleCommand) : h.opcode ∈ handleOpcodes := by
  cases h <;> decide

/-- Answers belong to commands that were sent, and their handles are fresh. While a registered device
waits for its link to close, a command of its that was answered is stored as it was answered last. -/
structure Peered (p : Peer) : Prop where
  sound : ∀ a ∈ p.answers, a.command < p.sent.length
  fresh : p.answers.Pairwise fun a b => a.opcode = b.opcode → a.opcode ∈ handleOpcodes → a.handle ≠ b.handle
  awaiting : p.gateway.globals.state = .devkeyAddrpubadd → ∀ h : HandleCommand,
    ∃ i, sessionCommand h.opcode p.sent = some i ∧
      ((∃ a ∈ p.answers, a.opcode = h.opcode ∧ a.command = i) →
        ∃ a, lastAnswer h.opcode p.answers = some a ∧ a.handle = h.stored p.gateway.globals.unprovisioner)

theorem peered_init : Peered .init where
  sound := fun _ member => nomatch member
  fresh := .nil
  awaiting := fun state => nomatch state

theorem Peered.of_same_answers {p next : Peer} (peered : Peered p) (answers : next.answers = p.answers)
    (sent : next.sent = p.sent ++ frames)
    (awaiting : next.gateway.globals.state = .devkeyAddrpubadd →
      (p.gateway.globals.state = .devkeyAddrpubadd ∧ Neutral frames ∧ ∀ h : HandleCommand,
        h.stored next.gateway.globals.unprovisioner = h.stored p.gateway.globals.unprovisioner) ∨
        ∀ h : HandleCommand, ∃ i, sessionCommand h.opcode next.sent = some i ∧ p.sent.length ≤ i) :
    Peered next where
  sound := by
    rw [answers, sent, List.length_append]
    exact fun a member => (peered.sound a member).trans_le (Nat.le_add_right _ _)
  fresh := by
    rw [answers]
    exact peered.fresh
  awaiting := by
    intro state h
    rcases awaiting state with ⟨before, neutral, stored⟩ | registered
    · rw [answers, sent, neutral.sessionCommand h, stored h]
      exact peered.awaiting before h
    · obtain ⟨i, session, later⟩ := registered h
      refine ⟨i, session, ?_⟩
      rintro ⟨a, member, _, command⟩
      rw [answers] at member
      have before := peered.sound a member
      omega

theorem sessionCommand_registration {devkeyAdd addrPublicationAdd : SerialFrame} (sent : List SerialFrame)
    (devkey : devkeyAdd.opcode = 0x9c) (addrPublication : addrPublicationAdd.opcode = 0xa4) (h : HandleCommand) :
    ∃ i, sessionCommand h.opcode (sent ++ [bleScanStop, devkeyAdd, addrPublicationAdd]) = some i ∧
      sent.length ≤ i := by
  cases h with
  | devkeyAdd =>
    refine ⟨sent.length + 1, ?_, Nat.le_succ _⟩
    have last : ∀ frame ∈ [addrPublicationAdd],
        ¬IsProvision frame ∧ frame.opcode ≠ serialOpcodeCmdMeshDevkeyAdd := by
      simp [addrPublication, serialOpcodeCmdMeshDevkeyAdd]
    rw [List.append_cons, List.append_cons, HandleCommand.opcode, sessionCommand_append_of_not last,
      sessionCommand_concat (by simp [devkey]) devkey, List.length_append]
    rfl
  | addrPublicationAdd =>
    refine ⟨sent.length + 2, ?_, Nat.le_add_right _ _⟩
    rw [List.append_cons, List.append_cons, HandleCommand.opcode,
      sessionCommand_concat (by simp [addrPublication]) addrPublication, List.length_append, List.length_append]
    rfl

theorem Peered.event {p : Peer} {f : SerialFrame} (peered : Peered p)
    (event : f.opcode ≠ serialOpcodeEvtCmdRsp) : Peered ((peerMachine uECC_shared_secret).step p (.event f)).1 := by
  obtain ⟨frames, step, sent, _⟩ := peerMachine_event uECC_shared_secret p f
  refine peered.of_same_answers rfl sent ?_
  intro state
  rcases step.of_registering event state with ⟨same, before, setup⟩ | ⟨_, _, devkey, addrPublication, rfl⟩
  · exact Or.inl ⟨before, neutral_of_setup setup, fun _ => by rw [same]⟩
  · rw [sent]
    exact Or.inr (sessionCommand_registration p.sent devkey addrPublication)

theorem Peered.key {p : Peer} (peered : Peered p) (c : Char) :
    Peered ((peerMachine uECC_shared_secret).step p (.key c)).1 := by
  obtain ⟨frames, step, sent, _⟩ := peerMachine_key uECC_shared_secret p c
  refine peered.of_same_answers rfl sent ?_
  intro state
  have neutral := step.neutral
  generalize ((peerMachine uECC_shared_secret).step p (.key c)).1.gateway.globals = globals at step state ⊢
  cases step with
  | scanStart => cases state
  | send => exact Or.inl ⟨state, neutral, fun _ => rfl⟩

theorem cmdRsp_step {command : SerialFrame} {status : UInt8} {data : List UInt8} {fits : data.length ≤ 252}
    (processed : bleProcessDataCmdRsp (cmd.receive (cmdRspFrame command status data fits)) g = (globals, frames)) :
    globals.state = g.state ∧ (∀ frame ∈ frames, frame.opcode ∈ moduleSetup) ∧
      ∀ h : HandleCommand, h.stored globals.unprovisioner ≠ h.stored g.unprovisioner →
        command.opcode = h.opcode ∧ status = serialStatusSuccess ∧ g.state = .devkeyAddrpubadd := by
  have step : CommandStep echoPrivate (cmd.receive (cmdRspFrame command status data fits)) g _ _ :=
    bleProcessDataCmdRsp_step rfl
  rw [processed] at step
  have kept := step.of_cmdRsp rfl
  rwa [cmdRspFrame_opcode, cmdRspFrame_status] at kept

theorem Peered.answer {p : Peer} {i : Nat} {status : UInt8} {data : List UInt8} {fits : data.length ≤ 252}
    (peered : Peered p) (once : AnswersOnce p (.answer i status data fits)) :
    Peered ((peerMachine uECC_shared_secret).step p (.answer i status data fits)).1 := by
  obtain ⟨command, found, _, returns⟩ := once
  obtain ⟨frames, processed, sent, _, answers⟩ := peerMachine_answer uECC_shared_secret status data fits found
  obtain ⟨state, setup, stored⟩ := cmdRsp_step processed
  have neutral := neutral_of_setup setup
  have inside : i < p.sent.length := (List.getElem?_eq_some_iff.mp found).1
  generalize ((peerMachine uECC_shared_secret).step p (.answer i status data fits)).1 = next at *
  have kept (h : HandleCommand) (other : ¬(command.opcode = h.opcode ∧ status = serialStatusSuccess)) :
      h.stored next.gateway.globals.unprovisioner = h.stored p.gateway.globals.unprovisioner := by
    by_contra changed
    obtain ⟨opcode, success, _⟩ := stored h changed
    exact other ⟨opcode, success⟩
  by_cases success : status = serialStatusSuccess
  · rw [if_pos success] at answers
    constructor
    · intro a member
      rw [sent, List.length_append]
      rw [answers] at member
      rcases List.mem_append.mp member with old | new
      · exact (peered.sound a old).trans_le (Nat.le_add_right _ _)
      · rw [List.mem_singleton.mp new]
        exact inside.trans_le (Nat.le_add_right _ _)
    · rw [answers, List.pairwise_append]
      refine ⟨peered.fresh, List.pairwise_singleton _ _, ?_⟩
      intro a old b new opcode listed
      rw [List.mem_singleton.mp new] at opcode ⊢
      rw [show a.opcode = command.opcode from opcode] at listed
      exact (returns success listed).2 a old opcode
    · intro registering h
      obtain ⟨j, session, last⟩ := peered.awaiting (state ▸ registering) h
      refine ⟨j, by rw [sent, neutral.sessionCommand h, session], ?_⟩
      rw [answers]
      rintro ⟨a, member, opcode, same⟩
      by_cases mine : command.opcode = h.opcode
      · -- the answer just delivered is the last one, and it is stored
        refine ⟨_, lastAnswer_append_same mine, ?_⟩
        have long := (returns success (mine ▸ h.opcode_mem)).1
        have stores := bleProcessDataCmdRsp_stores (h := h) ((cmdRspFrame_opcode _ _ _ _ fits).trans mine)
          ((cmdRspFrame_status p.gateway.localParser.cmd command status data fits).trans success)
          (state ▸ registering)
        rw [processed, cmdRspFrame_handle _ _ _ _ long] at stores
        exact stores.symm
      · rw [kept h (fun both => mine both.1), lastAnswer_append_of_not mine]
        rcases List.mem_append.mp member with old | new
        · exact last ⟨a, old, opcode, same⟩
        · rw [List.mem_singleton.mp new] at opcode
          exact absurd opcode mine
  · rw [if_neg success] at answers
    refine peered.of_same_answers answers sent ?_
    intro registering
    exact Or.inl ⟨state ▸ registering, neutral, fun h => kept h fun both => success both.2⟩

theorem Peered.step (uECC_shared_secret : UECCSharedSecret) {p : Peer} {input : PeerInput} (peered : Peered p)
    (once : AnswersOnce p input) :
    Peered ((peerMachine uECC_shared_secret).step p input).1 := by
  cases input with
  | event f => exact peered.event once
  | key c => exact peered.key c
  | answer => exact peered.answer once

theorem lastAnswer_mem {opcode : UInt8} {answers : List Answer} {a : Answer}
    (last : lastAnswer opcode answers = some a) : a ∈ answers ∧ a.opcode = opcode := by
  have kept := List.mem_of_getLast? last
  rw [List.mem_filter, decide_eq_true_iff] at kept
  exact kept

theorem Peered.answer_unique {p : Peer} (peered : Peered p) {h : HandleCommand} {a b : Answer}
    (first : a ∈ p.answers) (second : b ∈ p.answers) (opcode : a.opcode = h.opcode) (same : b.opcode = h.opcode)
    (handle : a.handle = b.handle) : a = b := by
  by_contra different
  have listed := h.opcode_mem
  obtain ⟨i, inside, rfl⟩ := List.getElem_of_mem first
  obtain ⟨j, inside', rfl⟩ := List.getElem_of_mem second
  have fresh := List.pairwise_iff_getElem.mp peered.fresh
  rcases Nat.lt_trichotomy i j with before | equal | after
  · exact fresh i j inside inside' before (opcode.trans same.symm) (opcode ▸ listed) handle
  · exact different (by simp only [equal])
  · exact fresh j i inside' inside after (same.trans opcode.symm) (same ▸ listed) handle.symm

/-- Once a device is being configured, both stored handles are those of its session. -/
def Configured (p : Peer) : Prop :=
  p.gateway.globals.state.Configuring →
    ∀ h : HandleCommand, ReturnedHere h p (h.stored p.gateway.globals.unprovisioner)

theorem Peered.returnedHere {p : Peer} (peered : Peered p) {h : HandleCommand} {a : Answer} (member : a ∈ p.answers)
    (opcode : a.opcode = h.opcode) (session : sessionCommand h.opcode p.sent = some a.command) :
    ReturnedHere h p a.handle := by
  refine ⟨⟨a, member, opcode, session, rfl⟩, ?_⟩
  intro b other same handle
  rwa [← peered.answer_unique member other opcode same handle.symm]

theorem Peered.returnedHere_mono {p next : Peer} (peered : Peered next) {h : HandleCommand} {value : UInt16}
    (answers : ∀ a ∈ p.answers, a ∈ next.answers)
    (session : sessionCommand h.opcode next.sent = sessionCommand h.opcode p.sent)
    (returned : ReturnedHere h p value) : ReturnedHere h next value := by
  obtain ⟨a, member, opcode, mine, rfl⟩ := returned.1
  exact peered.returnedHere (answers a member) opcode (session.trans mine)

/-- When a handler writes packets, the stored handles are those of the session. -/
theorem Peered.ready {p : Peer} {f : SerialFrame} (peered : Peered p) (configured : Configured p)
    (both : BothAnswered p (.event f))
    (ready : p.gateway.globals.state.Configuring ∨
      f.opcode = serialOpcodeEvtProvLinkClosed ∧ p.gateway.globals.state = .devkeyAddrpubadd) (h : HandleCommand) :
    ReturnedHere h p (h.stored p.gateway.globals.unprovisioner) := by
  rcases ready with configuring | ⟨closed, registered⟩
  · exact configured configuring h
  · -- what was answered last is what is stored
    obtain ⟨a, last, session⟩ := both closed registered h
    obtain ⟨member, opcode⟩ := lastAnswer_mem last
    obtain ⟨i, mine, stored⟩ := peered.awaiting registered h
    rw [mine, Option.some_inj] at session
    obtain ⟨b, same, handle⟩ := stored ⟨a, member, opcode, session.symm⟩
    rw [last, Option.some_inj] at same
    rw [← handle, ← same]
    exact peered.returnedHere member opcode (by rw [mine, session])

theorem Configured.step {p : Peer} {input : PeerInput} (peered : Peered p) (configured : Configured p)
    (once : AnswersOnce p input) (both : BothAnswered p input) :
    Configured ((peerMachine uECC_shared_secret).step p input).1 := by
  intro configuring h
  have next := peered.step uECC_shared_secret once
  cases input with
  | event f =>
    obtain ⟨frames, step, sent, _⟩ := peerMachine_event uECC_shared_secret p f
    obtain ⟨ready, stored⟩ := step.of_configuring once configuring
    have neutral : Neutral frames := by
      apply step.neutral
      all_goals
        intro state
        rcases ready with before | ⟨_, before⟩
        · simp [state, BleUnprovisionerState.Configuring] at before
        · exact absurd (state.symm.trans before) (by decide)
    rw [stored h]
    refine next.returnedHere_mono (p := p) (fun _ member => member) ?_ (peered.ready configured both ready h)
    rw [sent, neutral.sessionCommand h]
  | key c =>
    obtain ⟨frames, step, sent, _⟩ := peerMachine_key uECC_shared_secret p c
    have neutral := step.neutral
    have kept : ((peerMachine uECC_shared_secret).step p (.key c)).1.gateway.globals = p.gateway.globals := by
      generalize ((peerMachine uECC_shared_secret).step p (.key c)).1.gateway.globals = globals at step configuring
      cases step with
      | scanStart => simp [BleUnprovisionerState.Configuring] at configuring
      | send => rfl
    rw [kept] at configuring ⊢
    refine next.returnedHere_mono (p := p) (fun _ member => member) ?_ (configured configuring h)
    rw [sent, neutral.sessionCommand h]
  | answer i status data fits =>
    obtain ⟨command, found, _⟩ := once
    obtain ⟨frames, processed, sent, _, answers⟩ := peerMachine_answer uECC_shared_secret status data fits found
    obtain ⟨state, setup, stored⟩ := cmdRsp_step processed
    rw [state] at configuring
    have kept : h.stored ((peerMachine uECC_shared_secret).step p
          (.answer i status data fits)).1.gateway.globals.unprovisioner =
        h.stored p.gateway.globals.unprovisioner := by
      by_contra changed
      have registered := (stored h changed).2.2
      simp [registered, BleUnprovisionerState.Configuring] at configuring
    rw [kept]
    refine next.returnedHere_mono (p := p) ?_ ?_ (configured configuring h)
    · intro a member
      rw [answers]
      split
      · exact List.mem_append_left _ member
      · exact member
    · rw [sent, (neutral_of_setup setup).sessionCommand h]

theorem peerMachine_carried {p : Peer} {input : PeerInput} (once : AnswersOnce p input) {packet : SerialFrame}
    (member : packet ∈ handlerFrames ((peerMachine uECC_shared_secret).step p input).2)
    (opcode : packet.opcode = serialOpcodeCmdMeshPacketSend) :
    (∃ f, input = .event f ∧ (p.gateway.globals.state.Configuring ∨
      f.opcode = serialOpcodeEvtProvLinkClosed ∧ p.gateway.globals.state = .devkeyAddrpubadd)) ∧
      ∀ h : HandleCommand, h.carried packet = h.stored p.gateway.globals.unprovisioner := by
  cases input with
  | event f =>
    obtain ⟨frames, step, _, written⟩ := peerMachine_event uECC_shared_secret p f
    rw [written] at member
    obtain ⟨ready, devkey, dstAddr⟩ := step.of_packet_frame member opcode
    refine ⟨⟨f, rfl, ready⟩, ?_⟩
    intro h
    cases h with
    | devkeyAdd => exact devkey
    | addrPublicationAdd => exact dstAddr
  | key c =>
    obtain ⟨_, _, _, written⟩ := peerMachine_key uECC_shared_secret p c
    rw [written] at member
    exact absurd member List.not_mem_nil
  | answer i status data fits =>
    obtain ⟨command, found, _⟩ := once
    obtain ⟨frames, processed, _, written, _⟩ := peerMachine_answer uECC_shared_secret status data fits found
    rw [written] at member
    have setup := (cmdRsp_step processed).2.1 packet member
    exact absurd opcode (setup_opcode_ne setup).2.2.2

theorem Peered.carriesHandles {p : Peer} {input : PeerInput} (peered : Peered p) (configured : Configured p)
    (once : AnswersOnce p input) (both : BothAnswered p input) : CarriesHandles uECC_shared_secret p input := by
  intro packet member opcode h
  obtain ⟨⟨f, rfl, ready⟩, carried⟩ := peerMachine_carried once member opcode
  rw [carried h]
  exact peered.ready configured both ready h

/-- The first packet of a configuration shows whether both commands were answered. -/
theorem Peered.bothAnswered {p : Peer} {input : PeerInput} (peered : Peered p) (once : AnswersOnce p input)
    (carries : CarriesHandles uECC_shared_secret p input) : BothAnswered p input := by
  cases input with
  | key | answer => trivial
  | event f =>
    intro closed registered h
    have written := bleProcessCommand_linkClosed uECC_shared_secret (p.gateway.localParser.receive f).cmd
      closed registered
    have member : blePackerSendCompositionData p.gateway.globals.unprovisioner ∈
        handlerFrames ((peerMachine uECC_shared_secret).step p (.event f)).2 := by
      simp only [peerMachine, Peer.deliver, gatewayMachine, written]
      exact List.mem_singleton_self _
    obtain ⟨⟨a, answered, opcode, session, handle⟩, only⟩ := carries _ member rfl h
    obtain ⟨i, mine, stored⟩ := peered.awaiting registered h
    rw [mine, Option.some_inj] at session
    obtain ⟨last, isLast, same⟩ := stored ⟨a, answered, opcode, session.symm⟩
    obtain ⟨lastMember, lastOpcode⟩ := lastAnswer_mem isLast
    refine ⟨last, isLast, only last lastMember lastOpcode ?_⟩
    rw [same, (peerMachine_carried once member rfl).2 h]

/-- The link of a device closes with its device key answered and its address not yet. -/
def closedEarly : List PeerInput :=
  [.event beaconFrame, .event (capsFrame 1), .event ecdhRequestFrame, .event authRequestFrame,
    .event (completeFrame 0x001b), .answer 5 serialStatusSuccess [0x01, 0x00] (by decide),
    .event linkClosedFrame]

theorem closedEarly_answersOnce : (peerMachine echoPrivate).Along AnswersOnce .init closedEarly := by
  have event {f : SerialFrame} (other : f.opcode ≠ serialOpcodeEvtCmdRsp) {p : Peer} :
      AnswersOnce p (.event f) := other
  refine ⟨event (by decide), event (by decide), event (by decide), event (by decide), event (by decide),
    ?_, event (by decide), trivial⟩
  exact ⟨_, rfl, List.not_mem_nil, fun _ _ => ⟨le_rfl, fun _ member => absurd member List.not_mem_nil⟩⟩

/-- Against a module that answers each command once, every packet of a configuration carries the two
handles of its session exactly if no link of a registered device closes before both are answered. -/
theorem carriesHandles_along_iff (uECC_shared_secret : UECCSharedSecret) (word : List PeerInput)
    (once : (peerMachine uECC_shared_secret).Along AnswersOnce .init word) :
    (peerMachine uECC_shared_secret).Along (CarriesHandles uECC_shared_secret) .init word ↔
      (peerMachine uECC_shared_secret).Along BothAnswered .init word := by
  constructor
  · intro carries
    exact Mealy.Machine.along_of_invariant (fun _ _ peered both => peered.step _ both.1)
      (fun _ _ peered both => peered.bothAnswered both.1 both.2) peered_init (once.and carries)
  · intro both
    refine Mealy.Machine.along_of_invariant (I := fun p => Peered p ∧ Configured p) ?_ ?_ ?_ (once.and both)
    · exact fun _ _ inv both => ⟨inv.1.step _ both.1, Configured.step inv.1 inv.2 both.1 both.2⟩
    · exact fun _ _ inv both => inv.1.carriesHandles inv.2 both.1 both.2
    · exact ⟨peered_init, fun configuring => by simp [Peer.init, Gateway.init, Globals.init, Globals.state,
        BleUnprovisionerState.Configuring] at configuring⟩

/-- The composition data request then goes to the raw address 0x001b. -/
theorem closedEarly_not_carriesHandles :
    (peerMachine echoPrivate).Along AnswersOnce .init closedEarly ∧
      ¬(peerMachine echoPrivate).Along (CarriesHandles echoPrivate) .init closedEarly := by
  refine ⟨closedEarly_answersOnce, ?_⟩
  intro carries
  have last := carries.2.2.2.2.2.2.1
  obtain ⟨⟨a, member, opcode, _⟩, _⟩ := last _ (List.mem_singleton_self _) rfl .addrPublicationAdd
  rw [List.mem_singleton.mp member] at opcode
  exact absurd opcode (by decide)

theorem carriesHandles_along_iff_closedEarly :
    (peerMachine echoPrivate).Along (CarriesHandles echoPrivate) .init closedEarly ↔
      (peerMachine echoPrivate).Along BothAnswered .init closedEarly :=
  carriesHandles_along_iff _ _ closedEarly_answersOnce

end BleGateway
