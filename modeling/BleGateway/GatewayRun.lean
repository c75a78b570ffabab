import BleGateway.CommandStep
import BleGateway.Gateway

namespace BleGateway

/-- The frames written by the event handlers, in order. -/
def handlerFrames (writes : List Write) : List SerialFrame :=
  (writes.filter (·.origin = .handler)).map (·.frame)

def Write.handled (frame : SerialFrame) : Write where
  origin := .handler
  frame

def Write.operated (frame : SerialFrame) : Write where
  origin := .operator
  frame

@[simp] theorem handlerFrames_append (first second : List Write) :
    handlerFrames (first ++ second) = handlerFrames first ++ handlerFrames second := by
  simp [handlerFrames]

@[simp] theorem handlerFrames_handled (frames : List SerialFrame) :
    handlerFrames (frames.map Write.handled) = frames := by
  induction frames with
  | nil => rfl
  | cons frame rest ih => exact congrArg (frame :: ·) ih

@[simp] theorem handlerFrames_operated (frames : List SerialFrame) :
    handlerFrames (frames.map Write.operated) = [] := by
  induction frames with
  | nil => rfl
  | cons frame rest ih => exact ih

/-- Everything written, by handlers and keys alike. -/
def writtenFrames (writes : List Write) : List SerialFrame := writes.map (·.frame)

@[simp] theorem writtenFrames_append (first second : List Write) :
    writtenFrames (first ++ second) = writtenFrames first ++ writtenFrames second :=
  List.map_append

@[simp] theorem writtenFrames_handled (frames : List SerialFrame) :
    writtenFrames (frames.map Write.handled) = frames := by
  simp [writtenFrames, Function.comp_def, Write.handled]

@[simp] theorem writtenFrames_operated (frames : List SerialFrame) :
    writtenFrames (frames.map Write.operated) = frames := by
  simp [writtenFrames, Function.comp_def, Write.operated]

abbrev IsProvision (frame : SerialFrame) : Prop := frame.opcode = 0x63

/-- What a key of `main` can do: restart the scan in state NEW, or send a scan stop or a packet. -/
inductive KeyStep (c : Char) (g : Globals) : Globals → List SerialFrame → Prop
  | scanStart : c = '1' → KeyStep c g (g.setState .new) [bleScanStart]
  | send {frames} : (∀ frame ∈ frames, frame.opcode = 0x62 ∨ frame.opcode = 0xab) → KeyStep c g g frames

theorem KeyStep.opcode_ne {c : Char} {g globals : Globals} {frames : List SerialFrame} {frame : SerialFrame}
    (step : KeyStep c g globals frames) (member : frame ∈ frames) :
    ¬IsProvision frame ∧ frame.opcode ≠ 0x9c ∧ frame.opcode ≠ 0xa4 := by
  cases step with
  | scanStart =>
    rw [List.mem_singleton.mp member]
    simp [serialOpcodeCmdDfuJumpToBootloader]
  | send opcodes =>
    rcases opcodes frame member with stop | packet
    · simp [stop]
    · simp [packet]

theorem mainKey_step (c : Char) (g : Globals) : KeyStep c g (mainKey c g).1 (mainKey c g).2 := by
  unfold mainKey
  split
  · exact .scanStart rfl
  · exact .send (by simp)
  · exact .send (by simp)
  · exact .send (by simp)
  · exact .send (by simp)
  · exact .send (by simp)
  · exact .send (by simp)

inductive GatewayStep (uECC_shared_secret : UECCSharedSecret) (g : Gateway) :
    Input → Globals → List Write → Prop
  | command {f globals frames} :
      CommandStep uECC_shared_secret (g.localParser.cmd.receive f) g.globals globals frames →
      GatewayStep uECC_shared_secret g (.frame f) globals (frames.map .handled)
  | key {c globals frames} : KeyStep c g.globals globals frames →
      GatewayStep uECC_shared_secret g (.key c) globals (frames.map .operated)

/-- One frame in terms of what `ble_processCommand` makes of it. -/
theorem gatewayMachine_frame {uECC_shared_secret : UECCSharedSecret} {g : Gateway} {f : SerialFrame}
    {globals : Globals} {frames : List SerialFrame}
    (processed : bleProcessCommand uECC_shared_secret (g.localParser.cmd.receive f) g.globals =
      (globals, frames)) :
    (gatewayMachine uECC_shared_secret).step g (.frame f) =
      ({ localParser := g.localParser.receive f, globals }, frames.map Write.handled) := by
  simp only [gatewayMachine, BleParser.receive, processed]
  rfl

theorem gatewayMachine_handlerFrames (uECC_shared_secret : UECCSharedSecret) (g : Gateway) (f : SerialFrame) :
    handlerFrames ((gatewayMachine uECC_shared_secret).step g (.frame f)).2 =
      (bleProcessCommand uECC_shared_secret (g.localParser.cmd.receive f) g.globals).2 :=
  handlerFrames_handled _

theorem gatewayMachine_writtenFrames (uECC_shared_secret : UECCSharedSecret) (g : Gateway) (f : SerialFrame) :
    writtenFrames ((gatewayMachine uECC_shared_secret).step g (.frame f)).2 =
      (bleProcessCommand uECC_shared_secret (g.localParser.cmd.receive f) g.globals).2 :=
  writtenFrames_handled _

theorem gatewayMachine_handlerFrames_key (uECC_shared_secret : UECCSharedSecret) (g : Gateway) (c : Char) :
    handlerFrames ((gatewayMachine uECC_shared_secret).step g (.key c)).2 = [] :=
  handlerFrames_operated _

theorem gatewayMachine_writtenFrames_key (uECC_shared_secret : UECCSharedSecret) (g : Gateway) (c : Char) :
    writtenFrames ((gatewayMachine uECC_shared_secret).step g (.key c)).2 = (mainKey c g.globals).2 :=
  writtenFrames_operated _

theorem gatewayMachine_step (uECC_shared_secret : UECCSharedSecret) (g : Gateway) (input : Input) :
    GatewayStep uECC_shared_secret g input ((gatewayMachine uECC_shared_secret).step g input).1.globals
      ((gatewayMachine uECC_shared_secret).step g input).2 := by
  cases input with
  | frame f => exact .command (bleProcessCommand_step uECC_shared_secret _ _)
  | key c => exact .key (mainKey_step c g.globals)

/-- The run rule of the gateway: a property of the globals and everything written so far that
handlers and keys preserve holds after every run. -/
theorem gateway_run (uECC_shared_secret : UECCSharedSecret) (Inv : Globals → List Write → Prop)
    (onCommand : ∀ cmd g globals frames past, CommandStep uECC_shared_secret cmd g globals frames →
      Inv g past → Inv globals (past ++ frames.map Write.handled))
    (onKey : ∀ c g globals frames past, KeyStep c g globals frames →
      Inv g past → Inv globals (past ++ frames.map Write.operated))
    {g : Gateway} (start : Inv g.globals []) (word : List Input) :
    Inv ((gatewayMachine uECC_shared_secret).final g word).globals
      ((gatewayMachine uECC_shared_secret).outputs g word) := by
  have run := Mealy.Machine.history_invariant_all (m := gatewayMachine uECC_shared_secret)
    (I := fun g past => Inv g.globals past) (s := g) ?_ start word
  · exact run
  · intro g past input inv
    have step := gatewayMachine_step uECC_shared_secret g input
    generalize ((gatewayMachine uECC_shared_secret).step g input).1.globals = globals at step ⊢
    generalize ((gatewayMachine uECC_shared_secret).step g input).2 = writes at step ⊢
    cases step with
    | command command => exact onCommand _ _ _ _ past command inv
    | key key => exact onKey _ _ _ _ past key inv

/-! Events of the module, with the fields no handler uses left zero. -/

def beaconFrame : SerialFrame where
  opcode := serialOpcodeEvtProvUnprovisionedReceived
  payload := List.replicate 25 0
  bound := by decide

def capsFrame (elements : UInt8) : SerialFrame where
  opcode := serialOpcodeEvtProvCapsReceived
  payload := 0 :: elements :: List.replicate 8 0
  bound := by simp [nrfMeshSerialPayloadMaxlen]

def ecdhRequestFrame : SerialFrame where
  opcode := serialOpcodeEvtProvEcdhRequest
  payload := List.replicate 97 0
  bound := by decide

def authRequestFrame : SerialFrame where
  opcode := serialOpcodeEvtProvAuthRequest
  payload := List.replicate 4 0
  bound := by decide

def completeFrame (address : UInt16) : SerialFrame where
  opcode := serialOpcodeEvtProvComplete
  payload := List.replicate 7 0 ++ LittleEndian.bytes16 address ++ List.replicate 34 0
  bound := by simp [nrfMeshSerialPayloadMaxlen]

def linkClosedFrame : SerialFrame where
  opcode := serialOpcodeEvtProvLinkClosed
  payload := List.replicate 2 0
  bound := by decide

/-- A mesh message from `src`. -/
def unicastFrame (src : UInt16) (message : List UInt8) (fits : message.length ≤ 235) : SerialFrame where
  opcode := serialOpcodeEvtMeshMessageReceivedUnicast
  payload := LittleEndian.bytes16 src ++ List.replicate 17 0 ++ message
  bound := by
    simp only [List.length_append, LittleEndian.bytes16_length, List.length_replicate, nrfMeshSerialPayloadMaxlen]
    omega

def txCompleteFrame (token : List UInt8) (size : token.length = 4) : SerialFrame where
  opcode := serialOpcodeEvtMeshTxComplete
  payload := token
  bound := by simp [size, nrfMeshSerialPayloadMaxlen]

/-- A session up to the composition data request. -/
def provisioned : List Input :=
  [.frame beaconFrame, .frame (capsFrame 1), .frame ecdhRequestFrame, .frame authRequestFrame,
    .frame (completeFrame 0x001b), .frame linkClosedFrame]

/-- An ECDH whose secret is the private key. -/
def echoPrivate : UECCSharedSecret := fun _ nodePrivate => ⟨nodePrivate, 1⟩

end BleGateway
