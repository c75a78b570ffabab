import BleGateway.SecretGuard
import BleGateway.Ecc.SharedSecret

namespace BleGateway
open CoZ

/-- The key agreement of the program, which never sets a generator. -/
def programSecret : UECCSharedSecret := fun public_key private_key =>
  (uECCSharedSecret (none : Option (UECCRNGFunction Unit)) public_key private_key (fun _ => 0) ()).1

theorem programSecret_sharedFrom (public_key : Buffer 64) (private_key : Buffer 32) :
    SharedFrom (programSecret public_key private_key) (sharedPoint public_key private_key) :=
  uECCSharedSecret_plain _ ()

theorem programSecret_ret (public_key : Buffer 64) (private_key : Buffer 32) :
    (programSecret public_key private_key).ret = 1 ↔ sharedPoint public_key private_key ≠ 0 :=
  (programSecret_sharedFrom public_key private_key).ret_eq_one

/-- The request of an input that is an ECDH request. -/
def Gateway.ecdhRequest (g : Gateway) (f : SerialFrame) : BleProvECDHReq := (g.localParser.cmd.receive f).provECDHReq

/-- What the keys of a request have to be for a secret: the peer's key a point of the curve, but neither the base point
nor one with `x = 0`, and the node's key none of the exceptional ones. -/
structure Agreeable (req : BleProvECDHReq) (P : curve.Point) : Prop where
  apart : P ≠ basePoint
  represents : RepresentsCurvePoint (nativePublic req.peerPublic) P
  xNonzero : (affineOf P).1 ≠ 0
  regular : ¬Exceptional (BigEndian.value req.nodePrivate)

theorem secretAgreed_program (req : BleProvECDHReq) :
    SecretAgreed uECCValidPublicKey programSecret req ↔ ∃ P, Agreeable req P := by
  rw [SecretAgreed, uECCValidPublicKey_eq_zero, programSecret_ret]
  constructor
  · rintro ⟨⟨P, apart, represents⟩, shared⟩
    rw [ne_eq, sharedPoint_eq_zero represents.encodes, not_or] at shared
    obtain ⟨regular, xNonzero⟩ := shared
    exact ⟨P, apart, represents, xNonzero, regular⟩
  · rintro ⟨P, apart, represents, xNonzero, regular⟩
    refine ⟨⟨P, apart, represents⟩, ?_⟩
    rw [ne_eq, sharedPoint_eq_zero represents.encodes, not_or]
    exact ⟨regular, xNonzero⟩

/-- An ECDH request received in state OOBUSE has agreeable keys. -/
def AgreeableInOobuse (g : Gateway) : Input → Prop
  | .frame f => f.opcode = serialOpcodeEvtProvEcdhRequest → g.globals.state = .oobuse →
      ∃ P, Agreeable (g.ecdhRequest f) P
  | .key _ => True

/-- With the program's own validation and key agreement, no secret is sent that is none exactly if every request
received in state OOBUSE has agreeable keys. -/
theorem guardsSecret_program (word : List Input) :
    (gatewayMachine programSecret).Along (GuardsSecret uECCValidPublicKey programSecret) .init word ↔
      (gatewayMachine programSecret).Along AgreeableInOobuse .init word := by
  apply Mealy.Machine.along_iff
  intro g input
  rw [guardsSecret_iff]
  cases input with
  | key => exact Iff.rfl
  | frame f => exact forall_congr' fun _ => forall_congr' fun _ => secretAgreed_program _

/-- An ECDH secret frame is the answer to an ECDH request in state OOBUSE. -/
theorem CommandStep.of_secret_frame {uECC_shared_secret : UECCSharedSecret} {cmd : BleCmd} {g globals : Globals}
    {frames : List SerialFrame} {frame : SerialFrame}
    (step : CommandStep uECC_shared_secret cmd g globals frames) (member : frame ∈ frames)
    (opcode : frame.opcode = 0x68) :
    cmd.opcode = serialOpcodeEvtProvEcdhRequest ∧ g.state = .oobuse ∧
      frame = bleECDHSecret uECC_shared_secret cmd.provECDHReq := by
  cases step with
  | ecdhSecret event state => exact ⟨event, state, List.mem_singleton.mp member⟩
  | quiet setup =>
    have quiet := setup frame member
    rw [opcode] at quiet
    simp [moduleSetup] at quiet
  | devkeyHandle | dstAddrHandle | abort | finish => exact absurd member List.not_mem_nil
  | subnetHandle | complete =>
    simp only [List.mem_cons, List.not_mem_nil, or_false] at member
    rcases member with rfl | rfl | rfl <;> simp at opcode
  | provision | oobUse | authData | compositionData | appkeyAdd | modelAppBind | publicationSet =>
    rw [List.mem_singleton.mp member] at opcode
    simp at opcode

theorem KeyStep.not_secret_frame {c : Char} {g globals : Globals} {frames : List SerialFrame} {frame : SerialFrame}
    (step : KeyStep c g globals frames) (member : frame ∈ frames) : frame.opcode ≠ 0x68 := by
  cases step with
  | scanStart =>
    rw [List.mem_singleton.mp member]
    simp [serialOpcodeCmdDfuJumpToBootloader]
  | send opcodes =>
    rcases opcodes frame member with stop | packet
    · simp [stop]
    · simp [packet]

/-- The secret of a frame is the first coordinate of the shared point of a request, most significant byte first. -/
def CarriesSharedPoint (frame : SerialFrame) (req : BleProvECDHReq) : Prop :=
  ∃ secret : Buffer 32, frame.payload = req.contextID :: secret.bytes ∧
    BigEndian.value secret = (sharedPoint req.peerPublic req.nodePrivate).1.val

/-- Every ECDH secret frame answers an ECDH request in state OOBUSE, with the shared point of its keys. -/
def SendsSharedPoint (g : Gateway) (input : Input) : Prop :=
  ∀ write ∈ ((gatewayMachine programSecret).step g input).2, write.frame.opcode = 0x68 →
    ∃ f, input = .frame f ∧ f.opcode = serialOpcodeEvtProvEcdhRequest ∧ g.globals.state = .oobuse ∧
      CarriesSharedPoint write.frame (g.ecdhRequest f)

theorem sendsSharedPoint (g : Gateway) (input : Input) : SendsSharedPoint g input := by
  have step := gatewayMachine_step programSecret g input
  intro write member secretFrame
  generalize ((gatewayMachine programSecret).step g input).1.globals = globals at step
  generalize ((gatewayMachine programSecret).step g input).2 = writes at step member
  cases step with
  | command command =>
    obtain ⟨frame, written, rfl⟩ := List.mem_map.mp member
    obtain ⟨event, state, answer⟩ := command.of_secret_frame written secretFrame
    refine ⟨_, rfl, event, state, _, congrArg SerialFrame.payload answer, ?_⟩
    exact (programSecret_sharedFrom _ _).secret
  | key key =>
    obtain ⟨frame, written, rfl⟩ := List.mem_map.mp member
    exact absurd secretFrame (key.not_secret_frame written)

/-- In every run the ECDH secret frames carry the shared point of the keys requested. -/
theorem sendsSharedPoint_along (word : List Input) :
    (gatewayMachine programSecret).Along SendsSharedPoint .init word :=
  Mealy.Machine.along_all sendsSharedPoint _ word

/-- The keys of a request are the node's private key and the public key that a peer computed from its own. -/
structure HonestRequest (req : BleProvECDHReq) (peerPrivate : Buffer 32) : Prop where
  peer : ∃ before, uECCComputePublicKey peerPrivate before = (1, req.peerPublic)
  node : ∃ before, (uECCComputePublicKey req.nodePrivate before).1 = 1

/-- An ECDH request in state OOBUSE with honest keys is answered with the secret that the peer finds, wherever both
find one. -/
def AnswersPeer (g : Gateway) : Input → Prop
  | .frame f => f.opcode = serialOpcodeEvtProvEcdhRequest → g.globals.state = .oobuse →
      ∀ peerPrivate, HonestRequest (g.ecdhRequest f) peerPrivate →
        (programSecret (g.ecdhRequest f).peerPublic (g.ecdhRequest f).nodePrivate).ret = 1 →
        ∀ (σ : Type) (rng : Option (UECCRNGFunction σ)) before secret s,
          (uECCSharedSecret rng (uECCComputePublicKey (g.ecdhRequest f).nodePrivate before).2 peerPrivate secret
            s).1.ret = 1 →
          (writtenFrames ((gatewayMachine programSecret).step g (.frame f)).2).map (·.payload) =
            [(g.ecdhRequest f).contextID :: (uECCSharedSecret rng
              (uECCComputePublicKey (g.ecdhRequest f).nodePrivate before).2 peerPrivate secret s).1.secret.bytes]
  | .key _ => True

theorem answersPeer (g : Gateway) (input : Input) : AnswersPeer g input := by
  cases input with
  | key => trivial
  | frame f =>
    intro event state peerPrivate honest found σ rng before secret s returned
    obtain ⟨⟨beforePeer, peer⟩, ⟨beforeNode, node⟩⟩ := honest
    obtain ⟨req, request⟩ : ∃ req, g.ecdhRequest f = req := ⟨_, rfl⟩
    rw [request] at peer node found returned ⊢
    have usablePeer : UsableKey (BigEndian.value peerPrivate) :=
      uECCComputePublicKey_usable (congrArg Prod.fst peer)
    have usableNode := uECCComputePublicKey_usable node
    have own := programSecret_sharedFrom req.peerPublic req.nodePrivate
    have ownPoint := (programSecret_ret _ _).mp found
    obtain ⟨peerValue, peerPoint⟩ := uECCSharedSecret_ret returned
    have peerPublic : req.peerPublic = (uECCComputePublicKey peerPrivate beforePeer).2 :=
      (congrArg Prod.snd peer).symm
    rw [sharedPoint_public usableNode peerPoint, Nat.mul_comm] at peerValue
    have ownValue := own.secret
    rw [peerPublic] at ownPoint
    rw [peerPublic, sharedPoint_public usablePeer ownPoint, ← peerPublic] at ownValue
    have same := BigEndian.value_inj.mp (ownValue.trans peerValue.symm)
    rw [gatewayMachine_writtenFrames, bleProcessCommand_ecdh _ _ event state, ← same, ← request]
    rfl

/-- In every run a peer with honest keys is sent its own secret. -/
theorem answersPeer_along (word : List Input) : (gatewayMachine programSecret).Along AnswersPeer .init word :=
  Mealy.Machine.along_all answersPeer _ word

end BleGateway
