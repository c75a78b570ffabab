import BleGateway.StaleBytes

namespace BleGateway

/-- No bytes left over from earlier frames are handled: the frame is as long as its handler needs. -/
def ReadsOwnBytes (g : Gateway) : Input → Prop
  | .frame f => bytesRead g.globals.state f ≤ f.payload.length
  | .key _ => True

/-- The inputs are the same but for the keys of an ECDH request. -/
inductive SameButKeys : Input → Input → Prop
  | same (input : Input) : SameButKeys input input
  | keys {f₁ f₂ : SerialFrame} : f₁.opcode = serialOpcodeEvtProvEcdhRequest →
      f₂.opcode = serialOpcodeEvtProvEcdhRequest → f₁.byte 0 = f₂.byte 0 → SameButKeys (.frame f₁) (.frame f₂)

/-- The writes are the same but for the secret of an ECDH secret frame. -/
inductive SameButSecret : Write → Write → Prop
  | same (write : Write) : SameButSecret write write
  | secret {f₁ f₂ : SerialFrame} {contextID : UInt8} {secret₁ secret₂ : Buffer 32} :
      f₁.opcode = 0x68 → f₂.opcode = 0x68 → f₁.payload = contextID :: secret₁.bytes →
      f₂.payload = contextID :: secret₂.bytes → SameButSecret (.handled f₁) (.handled f₂)

theorem sameButSecret_refl (writes : List Write) : List.Forall₂ SameButSecret writes writes :=
  List.forall₂_same.mpr fun write _ => .same write

theorem sameButSecret_ecdh (ecdh₁ ecdh₂ : UECCSharedSecret) {req₁ req₂ : BleProvECDHReq}
    (contextID : req₁.contextID = req₂.contextID) :
    List.Forall₂ SameButSecret ([bleECDHSecret ecdh₁ req₁].map Write.handled)
      ([bleECDHSecret ecdh₂ req₂].map Write.handled) :=
  .cons (.secret rfl rfl rfl (by rw [contextID]; rfl)) .nil

variable {ecdh₁ ecdh₂ : UECCSharedSecret} {cmd : BleCmd} {g : Globals}

/-- The key agreement is used on an ECDH request in state OOBUSE only. -/
theorem bleProcessCommand_secret (ecdh₁ ecdh₂ : UECCSharedSecret) (cmd : BleCmd) (g : Globals) :
    (bleProcessCommand ecdh₁ cmd g).1 = (bleProcessCommand ecdh₂ cmd g).1 ∧
      List.Forall₂ SameButSecret ((bleProcessCommand ecdh₁ cmd g).2.map .handled)
        ((bleProcessCommand ecdh₂ cmd g).2.map .handled) := by
  by_cases request : cmd.opcode = serialOpcodeEvtProvEcdhRequest ∧ g.state = .oobuse
  · rw [bleProcessCommand_ecdh _ _ request.1 request.2, bleProcessCommand_ecdh _ _ request.1 request.2]
    exact ⟨rfl, sameButSecret_ecdh ecdh₁ ecdh₂ rfl⟩
  · have same : bleProcessCommand ecdh₁ cmd g = bleProcessCommand ecdh₂ cmd g := by
      unfold bleProcessCommand
      split
      case h_6 event => rw [if_neg fun state => request ⟨event, state⟩, if_neg fun state => request ⟨event, state⟩]
      all_goals rfl
    rw [same]
    exact ⟨rfl, sameButSecret_refl _⟩

theorem bytesRead_ecdh {state : BleUnprovisionerState} {f : SerialFrame}
    (event : f.opcode = serialOpcodeEvtProvEcdhRequest) (oobuse : state = .oobuse) : bytesRead state f = 97 := by
  unfold bytesRead
  rw [event]
  exact if_pos oobuse

theorem gatewayMachine_keys {g₁ g₂ : Gateway} {input₁ input₂ : Input} (globals : g₁.globals = g₂.globals)
    (inputs : SameButKeys input₁ input₂) (own₁ : ReadsOwnBytes g₁ input₁) (own₂ : ReadsOwnBytes g₂ input₂) :
    ((gatewayMachine ecdh₁).step g₁ input₁).1.globals = ((gatewayMachine ecdh₂).step g₂ input₂).1.globals ∧
      List.Forall₂ SameButSecret ((gatewayMachine ecdh₁).step g₁ input₁).2
        ((gatewayMachine ecdh₂).step g₂ input₂).2 := by
  obtain ⟨p₁, g⟩ := g₁
  obtain ⟨p₂, _⟩ := g₂
  obtain rfl : g = _ := globals
  cases inputs with
  | same =>
    cases input₁ with
    | key c => exact ⟨rfl, sameButSecret_refl _⟩
    | frame f =>
      have secret := bleProcessCommand_secret ecdh₁ ecdh₂ (p₁.cmd.receive f) g
      have same : bleProcessCommand ecdh₂ (p₁.cmd.receive f) g = bleProcessCommand ecdh₂ (p₂.cmd.receive f) g :=
        bleProcessCommand_same ecdh₂ own₁
      rwa [same] at secret
  | @keys f₁ f₂ event₁ event₂ contextID =>
    by_cases state : g.state = .oobuse
    · rw [ReadsOwnBytes, bytesRead_ecdh event₁ state] at own₁
      rw [ReadsOwnBytes, bytesRead_ecdh event₂ state] at own₂
      have same : (p₁.cmd.receive f₁).provECDHReq.contextID = (p₂.cmd.receive f₂).provECDHReq.contextID := by
        rw [BleCmd.provECDHReq, BleCmd.provECDHReq, p₁.cmd.receive_read_of_lt (by omega),
          p₂.cmd.receive_read_of_lt (by omega), contextID]
      rw [gatewayMachine_frame (bleProcessCommand_ecdh ecdh₁ _ event₁ state),
        gatewayMachine_frame (bleProcessCommand_ecdh ecdh₂ _ event₂ state)]
      exact ⟨rfl, sameButSecret_ecdh ecdh₁ ecdh₂ same⟩
    · rw [gatewayMachine_frame (bleProcessCommand_ecdh_of_ne ecdh₁ _ event₁ state),
        gatewayMachine_frame (bleProcessCommand_ecdh_of_ne ecdh₂ _ event₂ state)]
      exact ⟨rfl, .nil⟩

/-- Of what the program keeps and writes to the module, only the secrets depend on the keys of ECDH requests: whatever
the keys, the function that agrees on a secret and the bytes left in the buffer, the same frames are written but for the
secrets, and the globals are the same. (What is printed is not part of this: `print_ProvECDHReq` shows the keys.) -/
theorem keys_confined {g₁ g₂ : Gateway} {word₁ word₂ : List Input} (globals : g₁.globals = g₂.globals)
    (inputs : List.Forall₂ SameButKeys word₁ word₂) (own₁ : (gatewayMachine ecdh₁).Along ReadsOwnBytes g₁ word₁)
    (own₂ : (gatewayMachine ecdh₂).Along ReadsOwnBytes g₂ word₂) :
    ((gatewayMachine ecdh₁).final g₁ word₁).globals = ((gatewayMachine ecdh₂).final g₂ word₂).globals ∧
      List.Forall₂ SameButSecret ((gatewayMachine ecdh₁).outputs g₁ word₁) ((gatewayMachine ecdh₂).outputs g₂ word₂) :=
  Mealy.Machine.lockstep (R := fun g₁ g₂ => g₁.globals = g₂.globals) (fun _ _ _ _ => gatewayMachine_keys) globals inputs
    own₁ own₂

/-- A request with another private key. -/
def otherRequestFrame : SerialFrame where
  opcode := serialOpcodeEvtProvEcdhRequest
  payload := List.replicate 65 0 ++ List.replicate 32 1
  bound := by decide

theorem keys_confined_request :
    ((gatewayMachine echoPrivate).final .init
          [.frame beaconFrame, .frame (capsFrame 1), .frame ecdhRequestFrame]).globals =
        ((gatewayMachine echoPrivate).final .init
          [.frame beaconFrame, .frame (capsFrame 1), .frame otherRequestFrame]).globals ∧
      List.Forall₂ SameButSecret
        ((gatewayMachine echoPrivate).outputs .init
          [.frame beaconFrame, .frame (capsFrame 1), .frame ecdhRequestFrame])
        ((gatewayMachine echoPrivate).outputs .init
          [.frame beaconFrame, .frame (capsFrame 1), .frame otherRequestFrame]) := by
  refine keys_confined rfl (.cons (.same _) (.cons (.same _) (.cons (.keys rfl rfl rfl) .nil)))
    ⟨?_, ?_, ?_, trivial⟩ ⟨?_, ?_, ?_, trivial⟩
  all_goals exact Nat.le_of_ble_eq_true rfl

end BleGateway
