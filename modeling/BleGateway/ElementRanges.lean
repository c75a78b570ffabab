import BleGateway.Addresses

namespace BleGateway

/-- A device whose session reached PROV_COMPLETE: which provision frame was its own, counted from
one, the address in it and the element count it announced. -/
structure Device where
  ordinal : Nat
  address : UInt16
  elements : UInt8
deriving DecidableEq

def Device.Occupies (device : Device) (address : Nat) : Prop :=
  device.address.toNat ≤ address ∧ address < device.address.toNat + device.elements.toNat

def Device.Apart (first second : Device) : Prop :=
  ∀ address, ¬(first.Occupies address ∧ second.Occupies address)

/-- The gateway with a record of its sessions: the provision frames, the element count in the last
accepted capabilities, and the devices. -/
structure Survey where
  gateway : Gateway
  provisions : List SerialFrame
  elements : UInt8
  devices : List Device

def Survey.init : Survey where
  gateway := .init
  provisions := []
  elements := 0
  devices := []

def Survey.announced (s : Survey) : Input → UInt8
  | .frame f =>
    let cmd := s.gateway.localParser.cmd.receive f
    if cmd.opcode = serialOpcodeEvtProvCapsReceived ∧ s.gateway.globals.state = .provision then
      cmd.provCapsRecv.numElement
    else s.elements
  | .key _ => s.elements

/-- The input is a PROV_COMPLETE event that ends the provisioning of a session. -/
def Completes (g : Gateway) : Input → Prop
  | .frame f => f.opcode = serialOpcodeEvtProvComplete ∧ g.globals.state = .auth
  | .key _ => False

instance (g : Gateway) (input : Input) : Decidable (Completes g input) :=
  match input with
  | .frame _ => inferInstanceAs (Decidable (_ ∧ _))
  | .key _ => inferInstanceAs (Decidable False)

theorem Completes.not_beacon {g : Gateway} {input : Input} (completes : Completes g input) :
    ¬AcceptsBeacon g input := by
  cases input with
  | key => exact completes.elim
  | frame f =>
    rintro ⟨opcode, _⟩
    exact absurd (completes.1.symm.trans opcode) (by decide)

def Survey.completed (s : Survey) (input : Input) : List Device :=
  if Completes s.gateway input then
    s.provisions.getLast?.toList.map fun own =>
      { ordinal := s.provisions.length, address := own.word 39, elements := s.elements }
  else []

def surveyMachine (uECC_shared_secret : UECCSharedSecret) : Mealy.Machine Survey Input Write where
  step s input :=
    let (gateway, writes) := (gatewayMachine uECC_shared_secret).step s.gateway input
    ({ gateway, provisions := s.provisions ++ provisionFrames writes, elements := s.announced input,
       devices := s.devices ++ s.completed input }, writes)

/-- The states between the provision frame of a session and its PROV_COMPLETE. -/
def BleUnprovisionerState.Provisioning (state : BleUnprovisionerState) : Prop :=
  state = .provision ∨ state = .oobuse ∨ state = .ecdh ∨ state = .auth

/-- Devices are numbered in the order of their provision frames. -/
structure Surveyed (s : Survey) : Prop where
  numbered : Numbered s.gateway.globals s.provisions
  addresses : ∀ device ∈ s.devices, device.address = devAddrInit + UInt16.ofNat device.ordinal
  positive : ∀ device ∈ s.devices, 0 < device.ordinal
  within : ∀ device ∈ s.devices, device.ordinal ≤ s.provisions.length
  fresh : s.gateway.globals.state.Provisioning → ∀ device ∈ s.devices, device.ordinal < s.provisions.length
  ordered : s.devices.Pairwise (·.ordinal < ·.ordinal)

theorem surveyed_init : Surveyed .init where
  numbered := numbered_init
  addresses := by simp [Survey.init]
  positive := by simp [Survey.init]
  within := by simp [Survey.init]
  fresh := by simp [Survey.init]
  ordered := .nil

variable {uECC_shared_secret : UECCSharedSecret}

theorem Survey.completed_of_not {s : Survey} {input : Input} (other : ¬Completes s.gateway input) :
    s.completed input = [] :=
  if_neg other

theorem Surveyed.of_same_devices {s next : Survey} (surveyed : Surveyed s) (devices : next.devices = s.devices)
    (numbered : Numbered next.gateway.globals next.provisions)
    (more : s.provisions.length ≤ next.provisions.length)
    (fresh : next.gateway.globals.state.Provisioning →
      s.provisions.length < next.provisions.length ∨ s.gateway.globals.state.Provisioning) : Surveyed next where
  numbered := numbered
  addresses := by
    rw [devices]
    exact surveyed.addresses
  positive := by
    rw [devices]
    exact surveyed.positive
  within := by
    rw [devices]
    exact fun device member => (surveyed.within device member).trans more
  fresh := by
    rw [devices]
    intro provisioning device member
    rcases fresh provisioning with longer | before
    · exact (surveyed.within device member).trans_lt longer
    · exact (surveyed.fresh before device member).trans_le more
  ordered := by
    rw [devices]
    exact surveyed.ordered

theorem Surveyed.beacon {s : Survey} {input : Input} (surveyed : Surveyed s)
    (beacon : AcceptsBeacon s.gateway input) :
    Surveyed ((surveyMachine uECC_shared_secret).step s input).1 := by
  obtain ⟨⟨frame, frames, _⟩, _⟩ := step_beacon uECC_shared_secret beacon
  have unfinished : ¬Completes s.gateway input := fun completes => completes.not_beacon beacon
  have provisions : ((surveyMachine uECC_shared_secret).step s input).1.provisions = s.provisions ++ [frame] :=
    congrArg (s.provisions ++ ·) frames
  apply surveyed.of_same_devices
  · simp only [surveyMachine, Survey.completed_of_not unfinished, List.append_nil]
  · exact surveyed.numbered.step uECC_shared_secret input
  · simp [provisions]
  · simp [provisions]

theorem step_complete_state (uECC_shared_secret : UECCSharedSecret) {g : Gateway} {input : Input}
    (completes : Completes g input) :
    ((gatewayMachine uECC_shared_secret).step g input).1.globals.state = .devkeyAddrpubadd := by
  cases input with
  | key => exact completes.elim
  | frame f =>
    have written := bleProcessCommand_complete uECC_shared_secret (g.localParser.receive f).cmd
      completes.1 completes.2
    simp only [gatewayMachine, written, Globals.setState_state]

theorem Surveyed.complete {s : Survey} {input : Input} (surveyed : Surveyed s)
    (completes : Completes s.gateway input) :
    Surveyed ((surveyMachine uECC_shared_secret).step s input).1 := by
  obtain ⟨frames, _⟩ := step_not_beacon uECC_shared_secret completes.not_beacon
  have numbered := surveyed.numbered.step uECC_shared_secret input
  have auth : s.gateway.globals.state.Provisioning := by
    cases input with
    | key => exact completes.elim
    | frame => exact Or.inr (Or.inr (Or.inr completes.2))
  have state := step_complete_state uECC_shared_secret completes
  have provisions : ((surveyMachine uECC_shared_secret).step s input).1.provisions = s.provisions := by
    simp only [surveyMachine, frames, List.append_nil]
  have devices : ((surveyMachine uECC_shared_secret).step s input).1.devices =
      s.devices ++ s.provisions.getLast?.toList.map fun own =>
        { ordinal := s.provisions.length, address := own.word 39, elements := s.elements } :=
    congrArg (s.devices ++ ·) (if_pos completes)
  have recorded : ∀ device ∈ ((surveyMachine uECC_shared_secret).step s input).1.devices, device ∈ s.devices ∨
      ∃ own ∈ s.provisions.getLast?, device.ordinal = s.provisions.length ∧ device.address = own.word 39 := by
    rw [devices]
    intro device member
    rcases List.mem_append.mp member with old | new
    · exact Or.inl old
    · obtain ⟨own, last, rfl⟩ := List.mem_map.mp new
      exact Or.inr ⟨own, Option.mem_toList.mp last, rfl, rfl⟩
  constructor
  case numbered => exact numbered
  case addresses =>
    intro device member
    rcases recorded device member with old | ⟨own, last, ordinal, address⟩
    · exact surveyed.addresses device old
    · rw [address, ordinal, surveyed.numbered.last last]
  case positive =>
    intro device member
    rcases recorded device member with old | ⟨own, last, ordinal, _⟩
    · exact surveyed.positive device old
    · rw [ordinal]
      exact List.length_pos_of_mem (List.mem_of_getLast? last)
  case within =>
    rw [provisions]
    intro device member
    rcases recorded device member with old | ⟨_, _, ordinal, _⟩
    · exact surveyed.within device old
    · exact ordinal.le
  case fresh =>
    intro provisioning
    rw [show ((surveyMachine uECC_shared_secret).step s input).1.gateway.globals.state = _ from state] at provisioning
    simp [BleUnprovisionerState.Provisioning] at provisioning
  case ordered =>
    rw [devices, List.pairwise_append]
    refine ⟨surveyed.ordered, ?_, ?_⟩
    · cases s.provisions.getLast? <;> simp
    · intro old member new added
      obtain ⟨_, _, rfl⟩ := List.mem_map.mp added
      -- earlier devices were completed before the session that ends here began
      exact surveyed.fresh auth old member

/-- Only an accepted beacon enters the states of provisioning. -/
theorem step_provisioning {g : Gateway} {input : Input} (other : ¬AcceptsBeacon g input)
    (provisioning : ((gatewayMachine uECC_shared_secret).step g input).1.globals.state.Provisioning) :
    g.globals.state.Provisioning := by
  have step := gatewayMachine_step uECC_shared_secret g input
  generalize ((gatewayMachine uECC_shared_secret).step g input).1.globals = globals at step provisioning
  generalize ((gatewayMachine uECC_shared_secret).step g input).2 = writes at step
  cases step with
  | command command =>
    cases command with
    | provision event state => exact absurd ⟨event, state⟩ other
    | quiet | subnetHandle | devkeyHandle | dstAddrHandle => exact provisioning
    | oobUse _ state | ecdhSecret _ state | authData _ state =>
      rw [state]
      simp [BleUnprovisionerState.Provisioning]
    | complete | compositionData | abort | appkeyAdd | modelAppBind | publicationSet | finish =>
      simp [BleUnprovisionerState.Provisioning] at provisioning
  | key key =>
    cases key with
    | scanStart => simp [BleUnprovisionerState.Provisioning] at provisioning
    | send => exact provisioning

theorem Surveyed.step {s : Survey} {input : Input} (surveyed : Surveyed s) :
    Surveyed ((surveyMachine uECC_shared_secret).step s input).1 := by
  by_cases beacon : AcceptsBeacon s.gateway input
  · exact surveyed.beacon beacon
  by_cases completes : Completes s.gateway input
  · exact surveyed.complete completes
  obtain ⟨frames, _⟩ := step_not_beacon uECC_shared_secret beacon
  have provisions : ((surveyMachine uECC_shared_secret).step s input).1.provisions = s.provisions := by
    simp only [surveyMachine, frames, List.append_nil]
  apply surveyed.of_same_devices
  · simp only [surveyMachine, Survey.completed_of_not completes, List.append_nil]
  · exact surveyed.numbered.step uECC_shared_secret input
  · rw [provisions]
  · exact fun provisioning => Or.inr (step_provisioning beacon provisioning)

theorem Surveyed.address_toNat {s : Survey} (surveyed : Surveyed s) (few : s.provisions.length < 32000)
    {device : Device} (member : device ∈ s.devices) : device.address.toNat = 26 + device.ordinal := by
  have within := surveyed.within device member
  rw [surveyed.addresses device member, UInt16.toNat_add, UInt16.toNat_ofNat',
    show devAddrInit.toNat = 26 from rfl]
  omega

/-- Two ranges are apart exactly if the first ends before the second begins. -/
theorem Device.apart_iff {first second : Device} (order : first.address.toNat < second.address.toNat)
    (nonempty : 1 ≤ second.elements.toNat) :
    first.Apart second ↔ first.address.toNat + first.elements.toNat ≤ second.address.toNat := by
  constructor
  · intro apart
    by_contra overlap
    exact apart second.address.toNat ⟨⟨by omega, by omega⟩, ⟨le_rfl, by omega⟩⟩
  · rintro ended address ⟨⟨_, below⟩, ⟨above, _⟩⟩
    omega

def twoProvisionings : List Input :=
  [.frame beaconFrame, .frame (capsFrame 2), .frame ecdhRequestFrame, .frame authRequestFrame,
    .frame (completeFrame 0x001b), .key '1',
    .frame beaconFrame, .frame (capsFrame 1), .frame ecdhRequestFrame, .frame authRequestFrame,
    .frame (completeFrame 0x001c)]

def twoSurveyed : Survey :=
  (surveyMachine echoPrivate).final .init twoProvisionings

theorem twoSurveyed_devices : twoSurveyed.devices = [⟨1, 0x001b, 2⟩, ⟨2, 0x001c, 1⟩] := rfl

theorem twoSurveyed_few : twoSurveyed.provisions.length < 32000 := by
  have two : twoSurveyed.provisions.length = 2 := rfl
  omega

theorem twoSurveyed_nonempty : ∀ device ∈ twoSurveyed.devices, 1 ≤ device.elements.toNat := by
  rw [twoSurveyed_devices]
  decide

/-- No device occupies the provisioner's address, and two devices are apart exactly if at least as
many provision frames as the first announced elements lie between theirs, the first's included. -/
theorem devices_apart_iff (uECC_shared_secret : UECCSharedSecret) (word : List Input)
    (few : ((surveyMachine uECC_shared_secret).final .init word).provisions.length < 32000)
    (nonempty : ∀ device ∈ ((surveyMachine uECC_shared_secret).final .init word).devices,
      1 ≤ device.elements.toNat) :
    (∀ device ∈ ((surveyMachine uECC_shared_secret).final .init word).devices,
      ¬device.Occupies bleSrcAddr.toNat) ∧
    ((surveyMachine uECC_shared_secret).final .init word).devices.Pairwise fun first second =>
      first.ordinal < second.ordinal ∧
        (first.Apart second ↔ first.ordinal + first.elements.toNat ≤ second.ordinal) := by
  have surveyed := Mealy.Machine.final_invariant (m := surveyMachine uECC_shared_secret)
    (fun _ _ => Surveyed.step) surveyed_init word
  generalize (surveyMachine uECC_shared_secret).final .init word = s at *
  constructor
  · rintro device member ⟨above, _⟩
    rw [surveyed.address_toNat few member, show bleSrcAddr.toNat = 1 from rfl] at above
    omega
  · refine surveyed.ordered.imp_of_mem ?_
    intro first second firstMember secondMember order
    have firstAddress := surveyed.address_toNat few firstMember
    have secondAddress := surveyed.address_toNat few secondMember
    refine ⟨order, ?_⟩
    rw [Device.apart_iff (by omega) (nonempty second secondMember), firstAddress, secondAddress]
    omega

/-- The second device is given the address of the first one's second element. -/
theorem devices_overlap :
    twoSurveyed.provisions.length < 32000 ∧ (∀ device ∈ twoSurveyed.devices, 1 ≤ device.elements.toNat) ∧
      ¬twoSurveyed.devices.Pairwise Device.Apart := by
  refine ⟨twoSurveyed_few, twoSurveyed_nonempty, ?_⟩
  rw [twoSurveyed_devices]
  intro apart
  have first := (List.pairwise_cons.mp apart).1 _ (List.mem_singleton_self _)
  refine first 0x001c ⟨?_, ?_⟩
  · exact ⟨by decide, by decide⟩
  · exact ⟨by decide, by decide⟩

theorem devices_apart_iff_two_devices :
    (∀ device ∈ twoSurveyed.devices, ¬device.Occupies bleSrcAddr.toNat) ∧
      twoSurveyed.devices.Pairwise fun first second => first.ordinal < second.ordinal ∧
        (first.Apart second ↔ first.ordinal + first.elements.toNat ≤ second.ordinal) :=
  devices_apart_iff _ twoProvisionings twoSurveyed_few twoSurveyed_nonempty

end BleGateway
