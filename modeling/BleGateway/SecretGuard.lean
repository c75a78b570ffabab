import BleGateway.GatewayRun

namespace BleGateway

/-- `uECC_valid_public_key`: 0 for a point of the curve, otherwise a negative code. -/
abbrev UECCValidPublicKey : Type := Buffer 64 → Int

variable (uECC_valid_public_key : UECCValidPublicKey) (uECC_shared_secret : UECCSharedSecret)

/-- The peer's key is a valid public key and the key agreement with it returns 1. -/
def SecretAgreed (provECDHReq : BleProvECDHReq) : Prop :=
  uECC_valid_public_key provECDHReq.peerPublic = 0 ∧
    (uECC_shared_secret provECDHReq.peerPublic provECDHReq.nodePrivate).ret = 1

/-- An ECDH request for which there is no secret is answered with no ECDH secret frame, and leaves
`unprovisioner` as it is. -/
def GuardsSecret (g : Gateway) : Input → Prop
  | .frame f => f.opcode = serialOpcodeEvtProvEcdhRequest →
      ¬SecretAgreed uECC_valid_public_key uECC_shared_secret (g.localParser.cmd.receive f).provECDHReq →
      (∀ write ∈ ((gatewayMachine uECC_shared_secret).step g (.frame f)).2, write.frame.opcode ≠ 0x68) ∧
        ((gatewayMachine uECC_shared_secret).step g (.frame f)).1.globals.unprovisioner =
          g.globals.unprovisioner
  | .key _ => True

/-- A request received in state OOBUSE is one for which there is a secret. -/
def AgreesInOobuse (g : Gateway) : Input → Prop
  | .frame f => f.opcode = serialOpcodeEvtProvEcdhRequest → g.globals.state = .oobuse →
      SecretAgreed uECC_valid_public_key uECC_shared_secret (g.localParser.cmd.receive f).provECDHReq
  | .key _ => True

variable {uECC_valid_public_key uECC_shared_secret}

/-- In state OOBUSE the secret goes out whatever the key agreement returned. -/
theorem guardsSecret_iff (g : Gateway) (input : Input) :
    GuardsSecret uECC_valid_public_key uECC_shared_secret g input ↔
      AgreesInOobuse uECC_valid_public_key uECC_shared_secret g input := by
  cases input with
  | key => exact Iff.rfl
  | frame f =>
    constructor
    · intro guards event state
      by_contra refused
      have sent := gatewayMachine_frame (bleProcessCommand_ecdh uECC_shared_secret
        (g.localParser.cmd.receive f) event state)
      have silent := (guards event refused).1
      rw [sent] at silent
      exact silent _ (List.mem_singleton_self _) rfl
    · intro agrees event refused
      have elsewhere : g.globals.state ≠ .oobuse := fun state => refused (agrees event state)
      rw [gatewayMachine_frame (bleProcessCommand_ecdh_of_ne uECC_shared_secret
        (g.localParser.cmd.receive f) event elsewhere)]
      exact ⟨fun _ member => absurd member List.not_mem_nil, rfl⟩

/-- Over a run, no secret is sent that is none exactly if each request received in state OOBUSE
comes with a valid key and yields a secret. -/
theorem guardsSecret_along_iff (uECC_valid_public_key : UECCValidPublicKey)
    (uECC_shared_secret : UECCSharedSecret) (word : List Input) :
    (gatewayMachine uECC_shared_secret).Along (GuardsSecret uECC_valid_public_key uECC_shared_secret)
        .init word ↔
      (gatewayMachine uECC_shared_secret).Along (AgreesInOobuse uECC_valid_public_key uECC_shared_secret)
        .init word :=
  Mealy.Machine.along_iff guardsSecret_iff

/-- A key of zeros is no point of the curve: no agreement, and a secret of zeros. -/
def noSecret : UECCSharedSecret := fun _ _ => ⟨fun _ => 0, 0⟩

theorem zeroKey_not_guardsSecret :
    ¬(gatewayMachine noSecret).Along (GuardsSecret (fun _ => -1) noSecret) .init
      [.frame beaconFrame, .frame (capsFrame 1), .frame ecdhRequestFrame] := by
  intro guards
  have request := guards.2.2.1
  have silent := (request rfl (fun agreed => by cases agreed.1)).1
  exact silent _ (List.mem_singleton_self _) rfl

end BleGateway
