import BleGateway.SubnetHandles

namespace BleGateway

/-- A successful APPKEY_ADD response has returned the handle. -/
def AppkeyAdded (responses : List Response) (handle : UInt16) : Prop :=
  ∃ r ∈ responses, r.Succeeds serialOpcodeCmdMeshAppkeyAdd ∧ r.handle = handle

/-- Once an app key has been added, the packets of the on/off keys carry the handle of one. -/
def EncryptsWithAppkey (uECC_shared_secret : UECCSharedSecret) (o : Mealy.Observed Gateway (List Response)) :
    Input → Prop
  | .key c => c = '3' ∨ c = '4' → (∃ handle, AppkeyAdded o.note handle) →
      ∀ frame ∈ writtenFrames ((respondedMachine uECC_shared_secret).step o (.key c)).2,
        frame.opcode = serialOpcodeCmdMeshPacketSend → AppkeyAdded o.note (frame.word 0)
  | .frame _ => True

/-- When an on/off key is pressed, the handle of the subnetwork happens to be that of an app key. -/
def SubnetNamesAppkey (o : Mealy.Observed Gateway (List Response)) : Input → Prop
  | .key c => c = '3' ∨ c = '4' → (∃ handle, AppkeyAdded o.note handle) →
      AppkeyAdded o.note (storedSubnet o.note)
  | .frame _ => True

variable {uECC_shared_secret : UECCSharedSecret}

/-- An on/off key sends one packet, with the handle of the subnetwork. -/
theorem mainKey_onOff {c : Char} (onOff : c = '3' ∨ c = '4') (g : Globals) :
    ∃ frame, (mainKey c g).2 = [frame] ∧ frame.opcode = serialOpcodeCmdMeshPacketSend ∧
      frame.word 0 = g.unprovisioner.subnetHandle := by
  rcases onOff with rfl | rfl
  · exact ⟨_, rfl, rfl, blePacketSend_meshPacket_appkeyHandle _ _ _ _⟩
  · exact ⟨_, rfl, rfl, blePacketSend_meshPacket_appkeyHandle _ _ _ _⟩

theorem SubnetStored.encrypts_iff {o : Mealy.Observed Gateway (List Response)} (stored : SubnetStored o)
    (input : Input) : EncryptsWithAppkey uECC_shared_secret o input ↔ SubnetNamesAppkey o input := by
  cases input with
  | frame => exact Iff.rfl
  | key c =>
    refine forall_congr' fun onOff => forall_congr' fun _ => ?_
    obtain ⟨frame, sent, opcode, handle⟩ := mainKey_onOff onOff o.state.globals
    have written : writtenFrames ((respondedMachine uECC_shared_secret).step o (.key c)).2 = [frame] :=
      (gatewayMachine_writtenFrames_key uECC_shared_secret o.state c).trans sent
    rw [written, ← stored, ← handle]
    constructor
    · intro encrypts
      exact encrypts frame (List.mem_singleton_self frame) opcode
    · intro added packet member _
      rwa [List.mem_singleton.mp member]

/-- Over a run, on/off packets are encrypted with an added app key exactly if the handle of the
subnetwork is that of an app key whenever one is sent. -/
theorem encryptsWithAppkey_along_iff (uECC_shared_secret : UECCSharedSecret) (word : List Input) :
    (respondedMachine uECC_shared_secret).Along (EncryptsWithAppkey uECC_shared_secret) respondedInit word ↔
      (respondedMachine uECC_shared_secret).Along SubnetNamesAppkey respondedInit word :=
  Mealy.Machine.along_iff_of_invariant (fun _ input stored => stored.step input)
    (fun _ input stored => stored.encrypts_iff input) subnetStored_init

/-- The module gives the subnetwork the handle 5 and the app key the handle 1. -/
def handlesApart : List Input :=
  [.frame (cmdRspHandleFrame 0x92 0x0005), .frame (cmdRspHandleFrame 0x97 0x0001), .key '3']

theorem handlesApart_not_encryptsWithAppkey :
    ¬(respondedMachine echoPrivate).Along (EncryptsWithAppkey echoPrivate) respondedInit handlesApart := by
  intro encrypts
  obtain ⟨_, _, key, _⟩ := encrypts
  obtain ⟨r, member, succeeds, handle⟩ := key (Or.inl rfl)
    ⟨0x0001, _, List.mem_cons_of_mem _ (List.mem_cons_self ..), ⟨rfl, rfl⟩, rfl⟩ _ (List.mem_cons_self ..) rfl
  rcases List.mem_pair.mp member with rfl | rfl
  · exact absurd succeeds.1 (by decide)
  · exact absurd handle (by decide)

end BleGateway
