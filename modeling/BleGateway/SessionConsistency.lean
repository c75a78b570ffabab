import BleGateway.GatewayRun
import BleGateway.Lib.History

namespace BleGateway
open History

/-- A device key or publication address frame carries the address of the last provision frame. -/
def AddressedAsProvisioned (before : List SerialFrame) (frame : SerialFrame) : Prop :=
  frame.opcode = 0x9c ∨ frame.opcode = 0xa4 →
    ∃ provision, last IsProvision before = some provision ∧ frame.word 0 = provision.word 39

/-- A mesh packet carries the handles of the packets since the last provision frame. -/
def HandledAsBefore (before : List SerialFrame) (frame : SerialFrame) : Prop :=
  frame.opcode = 0xab → ∀ earlier ∈ since IsProvision before, earlier.opcode = 0xab →
    frame.word 0 = earlier.word 0 ∧ frame.word 4 = earlier.word 4

/-- During a session `dev_addr` is the address of the last provision frame. -/
structure AddressHistory (g : Globals) (written : List SerialFrame) : Prop where
  causal : Causal AddressedAsProvisioned written
  current : g.state ≠ .new → ∃ provision, last IsProvision written = some provision ∧
    provision.word 39 = g.devAddr

theorem AddressHistory.append {g globals : Globals} {written frames : List SerialFrame}
    (history : AddressHistory g written) (devAddr : globals.devAddr = g.devAddr)
    (state : globals.state ≠ .new → g.state ≠ .new)
    (unprovisioned : ∀ frame ∈ frames, ¬IsProvision frame)
    (addressed : ∀ frame ∈ frames, frame.opcode = 0x9c ∨ frame.opcode = 0xa4 →
      g.state ≠ .new ∧ frame.word 0 = g.devAddr) :
    AddressHistory globals (written ++ frames) where
  causal := by
    refine causal_append.mpr ⟨history.causal, ?_⟩
    rintro before frame after rfl opcode
    obtain ⟨running, address⟩ := addressed frame (by simp) opcode
    obtain ⟨provision, isLast, provided⟩ := history.current running
    refine ⟨provision, ?_, address.trans provided.symm⟩
    rw [last_append_of_not, isLast]
    intro earlier member
    exact unprovisioned earlier (List.mem_append_left _ member)
  current := by
    intro running
    rw [last_append_of_not unprovisioned, devAddr]
    exact history.current (state running)

variable {uECC_shared_secret : UECCSharedSecret}

theorem AddressHistory.command {cmd : BleCmd} {g globals : Globals} {frames written : List SerialFrame}
    (history : AddressHistory g written) (step : CommandStep uECC_shared_secret cmd g globals frames) :
    AddressHistory globals (written ++ frames) := by
  cases step with
  | quiet setup =>
    refine history.append rfl id ?_ ?_
    · exact fun frame member => (setup_opcode_ne (setup frame member)).1
    · intro frame member opcode
      obtain ⟨_, notDevkey, notPublication, _⟩ := setup_opcode_ne (setup frame member)
      exact absurd opcode (not_or.mpr ⟨notDevkey, notPublication⟩)
  | subnetHandle =>
    refine history.append rfl id ?_ ?_ <;> simp
  | devkeyHandle | dstAddrHandle => exact history.append rfl id (by simp) (by simp)
  | abort | finish => exact history.append rfl (by simp) (by simp) (by simp)
  | provision =>
    exact {
      causal := history.causal.concat (fun opcode => by simp at opcode)
      current := fun _ => ⟨_, last_append_stop rfl, provDataFrame_address _ _⟩ }
  | complete _ state =>
    -- the only frames that carry an address, written under `dev_addr`
    have running : g.state ≠ .new := by simp [state]
    refine history.append rfl (fun _ => running) ?_ ?_
    · simp
    · simp [running, bleDevkeyAdd_ownerAddr, bleAddrPublicationAdd_address]
  | oobUse _ state | ecdhSecret _ state | authData _ state =>
    refine history.append rfl (by simp [state]) ?_ ?_ <;> simp
  | compositionData _ state | appkeyAdd _ state | modelAppBind _ _ state | publicationSet _ _ state =>
    refine history.append rfl (by simp [state]) ?_ ?_ <;> simp

theorem AddressHistory.key {c : Char} {g globals : Globals} {frames written : List SerialFrame}
    (history : AddressHistory g written) (step : KeyStep c g globals frames) :
    AddressHistory globals (written ++ frames) := by
  refine history.append ?_ ?_ (fun frame member => (step.opcode_ne member).1) ?_
  · cases step <;> rfl
  · cases step with
    | scanStart => simp
    | send => exact id
  · intro frame member opcode
    exact absurd opcode (not_or.mpr (step.opcode_ne member).2)

/-- The packets since the last provision frame carry the handles in `unprovisioner`, which stay
as they are until the session is over. -/
structure PacketHistory (g : Globals) (written : List SerialFrame) : Prop where
  causal : Causal HandledAsBefore written
  current : ∀ packet ∈ since IsProvision written, packet.opcode = 0xab → g.state = .new ∨
    g.state.Configuring ∧ packet.word 0 = g.unprovisioner.devkeyHandle ∧
      packet.word 4 = g.unprovisioner.dstAddrHandle

theorem PacketHistory.append {g globals : Globals} {written frames : List SerialFrame}
    (history : PacketHistory g written)
    (unprovisioned : ∀ frame ∈ frames, ¬IsProvision frame) (unpacked : ∀ frame ∈ frames, frame.opcode ≠ 0xab)
    (kept : globals.state = .new ∨
      (g.state.Configuring ∨ g.state = .new →
        globals.state = g.state ∧ globals.unprovisioner.devkeyHandle = g.unprovisioner.devkeyHandle ∧
          globals.unprovisioner.dstAddrHandle = g.unprovisioner.dstAddrHandle)) :
    PacketHistory globals (written ++ frames) where
  causal := history.causal.append_of_forall (fun frame member _ opcode => absurd opcode (unpacked frame member))
  current := by
    rw [since_append_of_not unprovisioned]
    intro packet member opcode
    rcases List.mem_append.mp member with old | new
    · rcases kept with ended | kept
      · exact Or.inl ended
      · rcases history.current packet old opcode with new | ⟨configuring, handles⟩
        · exact Or.inl ((kept (Or.inr new)).1.trans new)
        · obtain ⟨state, devkey, dstAddr⟩ := kept (Or.inl configuring)
          rw [state, devkey, dstAddr]
          exact Or.inr ⟨configuring, handles⟩
    · exact absurd opcode (unpacked packet new)

theorem PacketHistory.packet {g globals : Globals} {written : List SerialFrame} {message : List UInt8}
    {fits : message.length ≤ 244} (history : PacketHistory g written) (running : g.state ≠ .new)
    (state : globals.state.Configuring)
    (devkey : globals.unprovisioner.devkeyHandle = g.unprovisioner.devkeyHandle)
    (dstAddr : globals.unprovisioner.dstAddrHandle = g.unprovisioner.dstAddrHandle) :
    PacketHistory globals (written ++ [blePacketSend
      (meshPacket g.unprovisioner.devkeyHandle g.unprovisioner.dstAddrHandle message fits)]) where
  causal := by
    apply history.causal.concat
    intro _ earlier member opcode
    rcases history.current earlier member opcode with new | ⟨_, sameDevkey, sameDstAddr⟩
    · exact absurd new running
    · rw [sameDevkey, sameDstAddr]
      exact ⟨blePacketSend_meshPacket_appkeyHandle _ _ _ _, blePacketSend_meshPacket_dstAddrHandle _ _ _ _⟩
  current := by
    rw [since_append_of_not (by simp)]
    intro packet member opcode
    rw [devkey, dstAddr]
    refine Or.inr ⟨state, ?_⟩
    rcases List.mem_append.mp member with old | new
    · rcases history.current packet old opcode with new | ⟨_, handles⟩
      · exact absurd new running
      · exact handles
    · rw [List.mem_singleton.mp new]
      exact ⟨blePacketSend_meshPacket_appkeyHandle _ _ _ _, blePacketSend_meshPacket_dstAddrHandle _ _ _ _⟩

theorem PacketHistory.command {cmd : BleCmd} {g globals : Globals} {frames written : List SerialFrame}
    (history : PacketHistory g written) (step : CommandStep uECC_shared_secret cmd g globals frames) :
    PacketHistory globals (written ++ frames) := by
  cases step with
  | quiet setup =>
    refine history.append ?_ ?_ (Or.inr fun _ => ⟨rfl, rfl, rfl⟩)
    · exact fun frame member => (setup_opcode_ne (setup frame member)).1
    · exact fun frame member => (setup_opcode_ne (setup frame member)).2.2.2
  | subnetHandle =>
    refine history.append ?_ ?_ (Or.inr fun _ => ⟨rfl, rfl, rfl⟩) <;> simp
  | devkeyHandle _ _ _ state | dstAddrHandle _ _ _ state =>
    -- the handles change in DEVKEY_ADDRPUBADD, before the first packet
    refine history.append (by simp) (by simp) (Or.inr ?_)
    simp [state, BleUnprovisionerState.Configuring]
  | abort | finish => exact history.append (by simp) (by simp) (Or.inl rfl)
  | provision =>
    exact {
      causal := history.causal.concat (fun opcode => by simp at opcode)
      current := by
        rw [since_append_stop (show IsProvision (provDataFrame _ _) from rfl)]
        exact fun _ member => absurd member List.not_mem_nil }
  | oobUse _ state | ecdhSecret _ state | authData _ state | complete _ state =>
    refine history.append ?_ ?_ (Or.inr ?_)
    · simp
    · simp
    · simp [state, BleUnprovisionerState.Configuring]
  | compositionData _ state | appkeyAdd _ state | modelAppBind _ _ state | publicationSet _ _ state =>
    exact history.packet (by simp [state]) (by simp [BleUnprovisionerState.Configuring]) rfl rfl

/-- The frames between two provision frames belong to one device: device keys and publication
addresses are added under the address of the last provision frame, and the handlers' packets after
it all carry the same two handles. -/
theorem session_consistent (uECC_shared_secret : UECCSharedSecret) (word : List Input) :
    Causal AddressedAsProvisioned
        (writtenFrames ((gatewayMachine uECC_shared_secret).outputs .init word)) ∧
      Causal HandledAsBefore
        (handlerFrames ((gatewayMachine uECC_shared_secret).outputs .init word)) := by
  constructor
  · have history := gateway_run uECC_shared_secret
      (fun g past => AddressHistory g (writtenFrames past)) (g := .init) ?_ ?_ ?_ word
    · exact history.causal
    · intro _ _ _ frames _ step history
      rw [writtenFrames_append, writtenFrames_handled]
      exact history.command step
    · intro _ _ _ frames _ step history
      rw [writtenFrames_append, writtenFrames_operated]
      exact history.key step
    · exact ⟨causal_nil, fun running => absurd rfl running⟩
  · have history := gateway_run uECC_shared_secret
      (fun g past => PacketHistory g (handlerFrames past)) (g := .init) ?_ ?_ ?_ word
    · exact history.causal
    · intro _ _ _ frames _ step history
      rw [handlerFrames_append, handlerFrames_handled]
      exact history.command step
    · intro _ _ _ frames _ step history
      rw [handlerFrames_append, handlerFrames_operated]
      -- packets of the operator are no handler frames
      cases step with
      | scanStart => exact history.append (by simp) (by simp) (Or.inl rfl)
      | send => rwa [List.append_nil]
    · exact ⟨causal_nil, fun _ member => absurd member List.not_mem_nil⟩

end BleGateway
