import BleGateway.Addresses

namespace BleGateway

/-- An input of the gateway, or the module deciding on the oldest provision frame it has not
decided on yet. -/
inductive LinkInput
  | program (input : Input)
  | decide (accept : Bool)

/-- The gateway and the module's provisioning side: the provision frames received, on how many the
module has decided, and the index of the last one it accepted. -/
structure Link where
  gateway : Gateway
  provisions : List SerialFrame
  decided : Nat
  accepted : Option Nat

def Link.init : Link where
  gateway := .init
  provisions := []
  decided := 0
  accepted := none

/-- The gateway beside a module that accepts or refuses provision frames in order. -/
def linkMachine (uECC_shared_secret : UECCSharedSecret) : Mealy.Machine Link LinkInput Write where
  step l input :=
    match input with
    | .program input =>
      let (gateway, writes) := (gatewayMachine uECC_shared_secret).step l.gateway input
      ({ l with gateway, provisions := l.provisions ++ provisionFrames writes }, writes)
    | .decide accept =>
      if l.decided < l.provisions.length then
        ({ l with decided := l.decided + 1, accepted := if accept then some l.decided else l.accepted }, [])
      else (l, [])

/-- A PROV_COMPLETE event reports the address in the last provision frame the module accepted. -/
def ReportsAccepted (l : Link) : LinkInput → Prop
  | .program (.frame f) => f.opcode = serialOpcodeEvtProvComplete →
      ∃ k own, l.accepted = some k ∧ l.provisions[k]? = some own ∧
        (l.gateway.localParser.cmd.receive f).provComplete.address = own.word 39
  | _ => True

/-- The device key and publication address frames written on a PROV_COMPLETE event carry the
event's address. -/
def RegistersOwner (uECC_shared_secret : UECCSharedSecret) (l : Link) : LinkInput → Prop
  | .program (.frame f) => f.opcode = serialOpcodeEvtProvComplete →
      ∀ write ∈ ((gatewayMachine uECC_shared_secret).step l.gateway (.frame f)).2,
        write.frame.opcode = 0x9c ∨ write.frame.opcode = 0xa4 →
        write.frame.word 0 = (l.gateway.localParser.cmd.receive f).provComplete.address
  | _ => True

/-- The last provision frame the module accepted is the last one written, up to a whole turn of
the 16-bit counter. -/
def AcceptedLast (l : Link) : LinkInput → Prop
  | .program (.frame f) => f.opcode = serialOpcodeEvtProvComplete → l.gateway.globals.state = .auth →
      ∀ k, l.accepted = some k → (l.provisions.length - (k + 1)) % 65536 = 0
  | _ => True

structure Linked (l : Link) : Prop where
  numbered : Numbered l.gateway.globals l.provisions
  decided : l.decided ≤ l.provisions.length
  accepted : ∀ k, l.accepted = some k → k < l.decided

theorem linked_init : Linked .init where
  numbered := numbered_init
  decided := le_rfl
  accepted := fun _ none => nomatch none

variable {uECC_shared_secret : UECCSharedSecret}

theorem Linked.step {l : Link} (linked : Linked l) (input : LinkInput) :
    Linked ((linkMachine uECC_shared_secret).step l input).1 := by
  cases input with
  | program input =>
    exact {
      numbered := linked.numbered.step uECC_shared_secret input
      decided := linked.decided.trans (by simp [linkMachine])
      accepted := linked.accepted }
  | decide accept =>
    simp only [linkMachine]
    split
    next pending =>
      refine ⟨linked.numbered, pending, ?_⟩
      intro k found
      cases accept with
      | true => exact (Option.some_inj.mp found) ▸ Nat.lt_succ_self _
      | false => exact (linked.accepted k found).trans (Nat.lt_succ_self _)
    next => exact linked

/-- The frames written at PROV_COMPLETE in state AUTH carry `dev_addr`. -/
theorem registersOwner_iff {l : Link} {f : SerialFrame} (event : f.opcode = serialOpcodeEvtProvComplete) :
    RegistersOwner uECC_shared_secret l (.program (.frame f)) ↔ (l.gateway.globals.state = .auth →
      l.gateway.globals.devAddr = (l.gateway.localParser.cmd.receive f).provComplete.address) := by
  constructor
  · intro registers state
    have written := bleProcessCommand_complete uECC_shared_secret (l.gateway.localParser.receive f).cmd event state
    have member : Write.handled (bleAddrPublicationAdd l.gateway.globals.devAddr) ∈
        ((gatewayMachine uECC_shared_secret).step l.gateway (.frame f)).2 := by
      simp only [gatewayMachine, written, Write.handled]
      simp
    rw [← registers event _ member (Or.inr rfl)]
    exact (bleAddrPublicationAdd_address _).symm
  · intro same _ write member opcode
    have step := gatewayMachine_step uECC_shared_secret l.gateway (.frame f)
    generalize ((gatewayMachine uECC_shared_secret).step l.gateway (.frame f)).1.globals = globals at step
    generalize ((gatewayMachine uECC_shared_secret).step l.gateway (.frame f)).2 = writes at step member
    cases step with
    | command command =>
      obtain ⟨frame, frameMember, rfl⟩ := List.mem_map.mp member
      obtain ⟨_, state, address⟩ := command.of_device_frame frameMember opcode
      exact address.trans (same state)

theorem assigned_eq_iff {k n : Nat} (order : k < n) :
    devAddrInit + UInt16.ofNat n = devAddrInit + UInt16.ofNat (k + 1) ↔ (n - (k + 1)) % 65536 = 0 := by
  obtain ⟨m, rfl⟩ : ∃ m, n = m + 1 := ⟨n - 1, by omega⟩
  rw [← UInt16.toNat_inj, assigned_toNat, assigned_toNat]
  omega

/-- The scan key gives up a session whose link stays open; the module refuses the next provision
frame, and the open link goes on to PROV_COMPLETE. -/
def refusedRestart : List LinkInput :=
  [.program (.frame beaconFrame), .decide true, .program (.key '1'),
    .program (.frame beaconFrame), .decide false,
    .program (.frame (capsFrame 1)), .program (.frame ecdhRequestFrame),
    .program (.frame authRequestFrame), .program (.frame (completeFrame 0x001b))]

theorem refusedRestart_reports :
    (linkMachine echoPrivate).Along ReportsAccepted .init refusedRestart := by
  have other (code : UInt8) (differs : code ≠ serialOpcodeEvtProvComplete) {P : Prop} :
      code = serialOpcodeEvtProvComplete → P := fun same => absurd same differs
  refine ⟨other _ (by decide), trivial, trivial, other _ (by decide), trivial, other _ (by decide),
    other _ (by decide), other _ (by decide), ?_, trivial⟩
  exact fun _ => ⟨0, _, rfl, rfl, rfl⟩

/-- Over a run in which PROV_COMPLETE reports what the module last accepted, every device key is
registered under its owner exactly if at each such event the frame accepted last is the last one. -/
theorem registersOwner_along_iff (uECC_shared_secret : UECCSharedSecret) (word : List LinkInput)
    (reports : (linkMachine uECC_shared_secret).Along ReportsAccepted .init word) :
    (linkMachine uECC_shared_secret).Along (RegistersOwner uECC_shared_secret) .init word ↔
      (linkMachine uECC_shared_secret).Along AcceptedLast .init word := by
  refine Mealy.Machine.along_congr (fun _ input linked _ => linked.step input) ?_ linked_init reports
  intro l input linked reports
  match input with
  | .decide _ | .program (.key _) => exact Iff.rfl
  | .program (.frame f) =>
    by_cases event : f.opcode = serialOpcodeEvtProvComplete
    · rw [registersOwner_iff event]
      obtain ⟨k, own, accepted, found, address⟩ := reports event
      have before := (linked.accepted k accepted).trans_le linked.decided
      rw [address, linked.numbered.devAddr, linked.numbered.address k own found, assigned_eq_iff before]
      constructor
      · intro same _ state other is
        rw [accepted, Option.some_inj] at is
        exact is ▸ same state
      · exact fun last state => last event state k accepted
    · exact ⟨fun _ is => absurd is event, fun _ is => absurd is event⟩

/-- The device is then registered under 0x001c, the address in the refused frame. -/
theorem refusedRestart_not_registersOwner :
    (linkMachine echoPrivate).Along ReportsAccepted .init refusedRestart ∧
      ¬(linkMachine echoPrivate).Along (RegistersOwner echoPrivate) .init refusedRestart := by
  refine ⟨refusedRestart_reports, ?_⟩
  intro registers
  have last := registers.2.2.2.2.2.2.2.2.1
  have address := (registersOwner_iff rfl).mp last rfl
  exact absurd address (by decide)

theorem registersOwner_along_iff_refusedRestart :
    (linkMachine echoPrivate).Along (RegistersOwner echoPrivate) .init refusedRestart ↔
      (linkMachine echoPrivate).Along AcceptedLast .init refusedRestart :=
  registersOwner_along_iff _ _ refusedRestart_reports

end BleGateway
