import BleGateway.Addresses
import BleGateway.ConfigurationStep
import BleGateway.SessionConsistency

namespace BleGateway
open History

/-- The program with the frames it has written. -/
def writingMachine (uECC_shared_secret : UECCSharedSecret) :
    Mealy.Machine (Mealy.Observed Gateway (List SerialFrame)) Input Write :=
  (gatewayMachine uECC_shared_secret).observe fun written _ _ writes => written ++ writtenFrames writes

def writingInit : Mealy.Observed Gateway (List SerialFrame) where
  state := .init
  note := []

/-- Offset of the element address in the payload of a packet: ten header bytes and the access opcode. -/
def ConfigMessage.addressOffset : ConfigMessage → Option Nat
  | .appkeyAdd => none
  | .modelAppBind => some 12
  | .modelPublicationSet => some 11

/-- Binds and publication sets of the handlers carry the address in the last provision frame. -/
def AddressesNode (uECC_shared_secret : UECCSharedSecret) (o : Mealy.Observed Gateway (List SerialFrame))
    (input : Input) : Prop :=
  ∀ frame ∈ handlerFrames ((writingMachine uECC_shared_secret).step o input).2,
    ∀ message : ConfigMessage, ∀ off, message.addressOffset = some off → message.SentBy frame →
      ∃ provision, last IsProvision o.note = some provision ∧ frame.word off = provision.word 39

/-- The inputs that make a handler send a bind or a publication set. -/
def BindsOrPublishes (g : Gateway) : Input → Prop
  | .frame f =>
    let cmd := g.localParser.cmd.receive f
    cmd.opcode = serialOpcodeEvtMeshMessageReceivedUnicast ∧
      (g.globals.state = .psAppkeyAdd ∨ g.globals.state = .psModelAppBind) ∧
      awaited g.globals.state = some (meshMessageOpcode cmd).1
  | .key _ => False

/-- The counter of addresses stands where it started when an element is configured. -/
def CounterAtStart (o : Mealy.Observed Gateway (List SerialFrame)) (input : Input) : Prop :=
  BindsOrPublishes o.state input → (o.note.filter (IsProvision ·)).length % 65536 = 0

/-- What a run has written shows in `dev_addr`. -/
structure Written (o : Mealy.Observed Gateway (List SerialFrame)) : Prop where
  history : AddressHistory o.state.globals o.note
  numbered : Numbered o.state.globals (o.note.filter (IsProvision ·))

variable {uECC_shared_secret : UECCSharedSecret}

/-- The observer holds exactly the frames the program writes in the run. -/
theorem writingMachine_final (uECC_shared_secret : UECCSharedSecret) (word : List Input) :
    ((writingMachine uECC_shared_secret).final writingInit word).state =
        (gatewayMachine uECC_shared_secret).final .init word ∧
      ((writingMachine uECC_shared_secret).final writingInit word).note =
        writtenFrames ((gatewayMachine uECC_shared_secret).outputs .init word) := by
  constructor
  · exact (Mealy.Machine.observe_run writingInit word).1
  · exact Mealy.Machine.observe_history id writtenFrames rfl writtenFrames_append (fun _ _ _ _ => rfl) writingInit word

theorem Written.step {o : Mealy.Observed Gateway (List SerialFrame)} (written : Written o) (input : Input) :
    Written ((writingMachine uECC_shared_secret).step o input).1 where
  history := by
    have step := gatewayMachine_step uECC_shared_secret o.state input
    have history := written.history
    simp only [writingMachine, Mealy.Machine.observe]
    generalize ((gatewayMachine uECC_shared_secret).step o.state input).1.globals = globals at step ⊢
    generalize ((gatewayMachine uECC_shared_secret).step o.state input).2 = writes at step ⊢
    cases step with
    | command command =>
      rw [writtenFrames_handled]
      exact history.command command
    | key key =>
      rw [writtenFrames_operated]
      exact history.key key
  numbered := by
    change Numbered _ ((o.note ++ writtenFrames _).filter _)
    rw [List.filter_append]
    exact written.numbered.step uECC_shared_secret input

theorem written_init : Written writingInit where
  history := ⟨causal_nil, fun running => absurd rfl running⟩
  numbered := numbered_init

/-- During a session the last provision frame carries the start value of the counter exactly if the
number of provision frames is a multiple of 2^16. -/
theorem Written.provision {o : Mealy.Observed Gateway (List SerialFrame)} (written : Written o)
    (running : o.state.globals.state ≠ .new) :
    ∃ provision, last IsProvision o.note = some provision ∧
      (devAddrInit = provision.word 39 ↔ (o.note.filter (IsProvision ·)).length % 65536 = 0) := by
  obtain ⟨provision, isLast, address⟩ := written.history.current running
  refine ⟨provision, isLast, ?_⟩
  rw [address, written.numbered.devAddr, ← UInt16.toNat_inj, UInt16.toNat_add, UInt16.toNat_ofNat',
    show devAddrInit.toNat = 26 from rfl]
  omega

/-- The element address in the packets is a constant: the start value of the counter. -/
theorem ConfigMessage.packet_address {message : ConfigMessage} {off : Nat}
    (addressed : message.addressOffset = some off) (unprovisioner : BleUnprovisioner) :
    (message.packet unprovisioner).word off = devAddrInit := by
  cases message with
  | appkeyAdd => cases addressed
  | modelAppBind =>
    cases addressed
    exact blePacketSend_meshPacket_word _ _ _ _ 2
  | modelPublicationSet =>
    cases addressed
    exact blePacketSend_meshPacket_word _ _ _ _ 1

theorem writingMachine_frame {o : Mealy.Observed Gateway (List SerialFrame)} {f : SerialFrame} :
    handlerFrames ((writingMachine uECC_shared_secret).step o (.frame f)).2 =
      (bleProcessCommand uECC_shared_secret (o.state.localParser.cmd.receive f) o.state.globals).2 :=
  gatewayMachine_handlerFrames uECC_shared_secret o.state f

theorem writingMachine_key {o : Mealy.Observed Gateway (List SerialFrame)} {c : Char} :
    handlerFrames ((writingMachine uECC_shared_secret).step o (.key c)).2 = [] :=
  gatewayMachine_handlerFrames_key uECC_shared_secret o.state c

theorem Written.addressesNode_iff {o : Mealy.Observed Gateway (List SerialFrame)} (written : Written o)
    (input : Input) : AddressesNode uECC_shared_secret o input ↔ CounterAtStart o input := by
  constructor
  · intro addresses binds
    cases input with
    | key => exact binds.elim
    | frame f =>
      obtain ⟨event, state, now⟩ := binds
      obtain ⟨message, off, addressed, sends⟩ : ∃ message : ConfigMessage, ∃ off,
          message.addressOffset = some off ∧ o.state.globals.state = message.state := by
        rcases state with state | state
        · exact ⟨.modelAppBind, 12, rfl, state⟩
        · exact ⟨.modelPublicationSet, 11, rfl, state⟩
      have member : message.packet o.state.globals.unprovisioner ∈
          handlerFrames ((writingMachine uECC_shared_secret).step o (.frame f)).2 := by
        rw [writingMachine_frame, bleProcessCommand_unicast _ _ event,
          bleProcessDataMessageUnicast_packet sends now]
        exact List.mem_singleton_self _
      obtain ⟨provision, isLast, same⟩ := addresses _ member message off addressed (message.packet_sentBy _)
      obtain ⟨own, isOwn, counted⟩ := written.provision (by rcases state with state | state <;> simp [state])
      rw [isLast, Option.some_inj] at isOwn
      rw [message.packet_address addressed, isOwn] at same
      exact counted.mp same
  · intro counter frame member message off addressed sent
    cases input with
    | key c =>
      rw [writingMachine_key] at member
      exact absurd member List.not_mem_nil
    | frame f =>
      rw [writingMachine_frame] at member
      obtain ⟨state, rfl, event⟩ := (bleProcessCommand_step uECC_shared_secret _ _).of_config_frame member sent
      have binds : BindsOrPublishes o.state (.frame f) := by
        rcases event with ⟨event, now⟩ | ⟨rfl, _⟩
        · refine ⟨event, ?_, now⟩
          cases message with
          | appkeyAdd => cases addressed
          | modelAppBind => exact Or.inl state
          | modelPublicationSet => exact Or.inr state
        · cases addressed
      obtain ⟨provision, isLast, counted⟩ :=
        written.provision (by rcases binds.2.1 with state | state <;> simp [state])
      refine ⟨provision, isLast, ?_⟩
      rw [message.packet_address addressed]
      exact counted.mpr (counter binds)

/-- Over a run, binds and publication sets address the node of their session exactly if the counter
of addresses stands where it started whenever one of them is sent. -/
theorem addressesNode_along_iff (uECC_shared_secret : UECCSharedSecret) (word : List Input) :
    (writingMachine uECC_shared_secret).Along (AddressesNode uECC_shared_secret) writingInit word ↔
      (writingMachine uECC_shared_secret).Along CounterAtStart writingInit word :=
  Mealy.Machine.along_iff_of_invariant (fun _ input written => written.step input)
    (fun _ input written => written.addressesNode_iff input) written_init

/-- The first node is given the address 0x001b, and its app key is bound to an element at 0x001a. -/
theorem firstNode_not_addressesNode :
    ¬(writingMachine echoPrivate).Along (AddressesNode echoPrivate) writingInit
      (provisioned ++ [.frame (txCompleteFrame [0, 0, 0, 0] rfl),
        .frame (unicastFrame 0x001b [0x80, 0x03, 0x00, 0x00, 0x00, 0x00] (by decide))]) := by
  intro addresses
  obtain ⟨_, status, _⟩ := (Mealy.Machine.along_append.mp addresses).2
  have written := Mealy.Machine.final_invariant (m := writingMachine echoPrivate) (I := Written)
    (fun _ input written => written.step input) written_init provisioned
  have counter := ((written.step _).addressesNode_iff _).mp status
  exact absurd (counter ⟨rfl, Or.inl rfl, rfl⟩) (by decide)

end BleGateway
