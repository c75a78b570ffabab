import BleGateway.GatewayRun

namespace BleGateway

def provisionFrames (writes : List Write) : List SerialFrame :=
  (writtenFrames writes).filter (IsProvision ·)

/-- The addresses of the provision frames, in the order they were assigned. -/
def assignedAddresses (writes : List Write) : List UInt16 := (provisionFrames writes).map (·.word 39)

/-- Distinct unicast addresses, none of them the provisioner's own. -/
def AddressesFresh (addresses : List UInt16) : Prop :=
  addresses.Nodup ∧
    ∀ address ∈ addresses, 0x0001 ≤ address.toNat ∧ address.toNat ≤ 0x7FFF ∧ address ≠ bleSrcAddr

/-- A beacon of an unprovisioned device that is received in state NEW. -/
def AcceptsBeacon (g : Gateway) : Input → Prop
  | .frame f => f.opcode = serialOpcodeEvtProvUnprovisionedReceived ∧ g.globals.state = .new
  | .key _ => False

instance (g : Gateway) (input : Input) : Decidable (AcceptsBeacon g input) :=
  match input with
  | .frame _ => inferInstanceAs (Decidable (_ ∧ _))
  | .key _ => inferInstanceAs (Decidable False)

theorem assignedAddresses_append (first second : List Write) :
    assignedAddresses (first ++ second) = assignedAddresses first ++ assignedAddresses second := by
  simp [assignedAddresses, provisionFrames]

variable {uECC_shared_secret : UECCSharedSecret}

/-- An accepted beacon is answered with a provision frame under the next address. -/
theorem step_beacon (uECC_shared_secret : UECCSharedSecret) {g : Gateway} {input : Input}
    (beacon : AcceptsBeacon g input) :
    (∃ frame, provisionFrames ((gatewayMachine uECC_shared_secret).step g input).2 = [frame] ∧
      frame.word 39 = g.globals.devAddr + 1) ∧
      ((gatewayMachine uECC_shared_secret).step g input).1.globals =
        { g.globals with devAddr := g.globals.devAddr + 1 }.setState .provision := by
  cases input with
  | key => exact beacon.elim
  | frame f =>
    obtain ⟨opcode, state⟩ := beacon
    have written := bleProcessCommand_beacon uECC_shared_secret (g.localParser.receive f).cmd opcode state
    simp only [gatewayMachine, written]
    exact ⟨⟨_, rfl, provDataFrame_address _ _⟩, trivial⟩

theorem step_not_beacon (uECC_shared_secret : UECCSharedSecret) {g : Gateway} {input : Input}
    (other : ¬AcceptsBeacon g input) :
    provisionFrames ((gatewayMachine uECC_shared_secret).step g input).2 = [] ∧
      ((gatewayMachine uECC_shared_secret).step g input).1.globals.devAddr = g.globals.devAddr := by
  have step := gatewayMachine_step uECC_shared_secret g input
  generalize ((gatewayMachine uECC_shared_secret).step g input).1.globals = globals at step ⊢
  generalize ((gatewayMachine uECC_shared_secret).step g input).2 = writes at step ⊢
  cases step with
  | command command =>
    constructor
    · rw [provisionFrames, writtenFrames_handled, List.filter_eq_nil_iff]
      intro frame member provision
      obtain ⟨event, state, _⟩ := command.of_provision_frame member (by simpa using provision)
      exact other ⟨event, state⟩
    · exact command.devAddr.resolve_right other
  | key key =>
    constructor
    · rw [provisionFrames, writtenFrames_operated, List.filter_eq_nil_iff]
      intro frame member provision
      exact (key.opcode_ne member).1 (by simpa using provision)
    · cases key <;> rfl

/-- The provision frames written so far carry consecutive addresses, and `dev_addr` is the last. -/
structure Numbered (g : Globals) (provisions : List SerialFrame) : Prop where
  devAddr : g.devAddr = devAddrInit + UInt16.ofNat provisions.length
  address : ∀ k own, provisions[k]? = some own → own.word 39 = devAddrInit + UInt16.ofNat (k + 1)

theorem numbered_init : Numbered .init [] where
  devAddr := rfl
  address := by simp

theorem Numbered.last {g : Globals} {provisions : List SerialFrame} (numbered : Numbered g provisions)
    {own : SerialFrame} (isLast : provisions.getLast? = some own) :
    own.word 39 = devAddrInit + UInt16.ofNat provisions.length := by
  have nonempty : 0 < provisions.length := List.length_pos_of_mem (List.mem_of_getLast? isLast)
  rw [List.getLast?_eq_getElem?] at isLast
  rw [numbered.address _ own isLast, Nat.sub_add_cancel nonempty]

theorem Numbered.step (uECC_shared_secret : UECCSharedSecret) {g : Gateway} {provisions : List SerialFrame}
    (numbered : Numbered g.globals provisions) (input : Input) :
    Numbered ((gatewayMachine uECC_shared_secret).step g input).1.globals
      (provisions ++ provisionFrames ((gatewayMachine uECC_shared_secret).step g input).2) := by
  by_cases beacon : AcceptsBeacon g input
  · obtain ⟨⟨frame, frames, address⟩, globals⟩ := step_beacon uECC_shared_secret beacon
    have next : g.globals.devAddr + 1 = devAddrInit + UInt16.ofNat (provisions.length + 1) := by
      rw [numbered.devAddr, UInt16.ofNat_add]
      exact UInt16.add_assoc _ _ _
    rw [frames, globals]
    constructor
    · rw [List.length_append]
      exact next
    · intro k own found
      rcases Nat.lt_trichotomy k provisions.length with before | here | beyond
      · rw [List.getElem?_append_left before] at found
        exact numbered.address k own found
      · subst here
        rw [List.getElem?_concat_length, Option.some_inj] at found
        rw [← found, address, next]
      · have outside : (provisions ++ [frame]).length ≤ k := by
          rw [List.length_append]
          exact beyond
        rw [List.getElem?_eq_none outside] at found
        cases found
  · obtain ⟨none, devAddr⟩ := step_not_beacon uECC_shared_secret beacon
    rw [none, List.append_nil]
    exact ⟨devAddr.trans numbered.devAddr, numbered.address⟩

/-- A run assigns the addresses after `dev_addr` one after the other, modulo 2^16, one for each
beacon it accepts. -/
theorem assignedAddresses_outputs (g : Gateway) (word : List Input) :
    assignedAddresses ((gatewayMachine uECC_shared_secret).outputs g word) =
      (List.range ((gatewayMachine uECC_shared_secret).count AcceptsBeacon g word)).map
        fun k => g.globals.devAddr + UInt16.ofNat (k + 1) := by
  induction word generalizing g with
  | nil => rfl
  | cons input rest ih =>
    rw [Mealy.Machine.outputs_cons, assignedAddresses_append, ih, Mealy.Machine.count_cons]
    by_cases beacon : AcceptsBeacon g input
    · obtain ⟨⟨frame, frames, address⟩, globals⟩ := step_beacon uECC_shared_secret beacon
      rw [assignedAddresses, frames, List.map_singleton, address, if_pos beacon, Nat.add_comm 1,
        List.range_succ_eq_map, globals]
      simp [UInt16.add_assoc, UInt16.add_comm, Function.comp_def]
    · obtain ⟨none, devAddr⟩ := step_not_beacon uECC_shared_secret beacon
      rw [assignedAddresses, none, List.map_nil, devAddr, if_neg beacon, Nat.zero_add, List.nil_append]

theorem assigned_toNat (k : Nat) : (devAddrInit + UInt16.ofNat (k + 1)).toNat = (27 + k) % 65536 := by
  rw [UInt16.toNat_add, UInt16.toNat_ofNat', show devAddrInit.toNat = 26 from rfl]
  omega

/-- The counter leaves the unicast range with the 32742nd address. -/
theorem addressesFresh_range_iff (n : Nat) :
    AddressesFresh ((List.range n).map fun k => devAddrInit + UInt16.ofNat (k + 1)) ↔ n ≤ 32741 := by
  constructor
  · intro fresh
    by_contra more
    -- 0x8000 is the first address out of range
    have member : devAddrInit + UInt16.ofNat (32741 + 1) ∈
        (List.range n).map fun k => devAddrInit + UInt16.ofNat (k + 1) :=
      List.mem_map.mpr ⟨32741, List.mem_range.mpr (by omega), rfl⟩
    have unicast := (fresh.2 _ member).2.1
    rw [assigned_toNat] at unicast
    omega
  · intro few
    refine ⟨List.nodup_range.map_on ?_, ?_⟩
    · intro i inside j inside' same
      have same := congrArg UInt16.toNat same
      rw [List.mem_range] at inside inside'
      rw [assigned_toNat, assigned_toNat] at same
      omega
    · intro address member
      obtain ⟨k, inside, rfl⟩ := List.mem_map.mp member
      rw [List.mem_range] at inside
      rw [assigned_toNat]
      refine ⟨by omega, by omega, ?_⟩
      intro own
      have own := congrArg UInt16.toNat own
      rw [assigned_toNat, show bleSrcAddr.toNat = 1 from rfl] at own
      omega

/-- The addresses of a run are fresh unicast addresses exactly as long as it accepts no more than
32741 beacons. -/
theorem assignedAddresses_fresh_iff (uECC_shared_secret : UECCSharedSecret) (word : List Input) :
    AddressesFresh (assignedAddresses ((gatewayMachine uECC_shared_secret).outputs .init word)) ↔
      (gatewayMachine uECC_shared_secret).count AcceptsBeacon .init word ≤ 32741 := by
  rw [assignedAddresses_outputs]
  exact addressesFresh_range_iff _

def restarts : Nat → List Input
  | 0 => []
  | n + 1 => .frame beaconFrame :: .key '1' :: restarts n

theorem count_restarts (n : Nat) (g : Gateway) (state : g.globals.state = .new) :
    (gatewayMachine uECC_shared_secret).count AcceptsBeacon g (restarts n) = n := by
  induction n generalizing g with
  | zero => rfl
  | succ n ih =>
    have beacon : AcceptsBeacon g (.frame beaconFrame) := ⟨rfl, state⟩
    have key (g : Gateway) : ¬AcceptsBeacon g (.key '1') := id
    rw [restarts, Mealy.Machine.count_cons, if_pos beacon, Mealy.Machine.count_cons, if_neg (key _), ih _ rfl]
    omega

/-- The 32742nd provision frame carries 0x8000, which is no unicast address. -/
theorem assignedAddresses_not_fresh :
    ¬AddressesFresh (assignedAddresses ((gatewayMachine echoPrivate).outputs .init (restarts 32742))) := by
  rw [assignedAddresses_outputs, count_restarts _ _ rfl]
  intro fresh
  have := (addressesFresh_range_iff 32742).mp fresh
  omega

end BleGateway
