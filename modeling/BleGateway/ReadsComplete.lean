import BleGateway.BufferReads

namespace BleGateway

/-- Two records hold the same at the offsets of a list. -/
def ReadAlike (cmd₁ cmd₂ : BleCmd) (reads : List Nat) : Prop :=
  ∀ off ∈ reads, cmd₁.data.read off = cmd₂.data.read off

variable {cmd₁ cmd₂ : BleCmd}

@[simp] theorem readAlike_append {first second : List Nat} :
    ReadAlike cmd₁ cmd₂ (first ++ second) ↔ ReadAlike cmd₁ cmd₂ first ∧ ReadAlike cmd₁ cmd₂ second :=
  List.forall_mem_append

theorem ReadAlike.byte {off size : Nat} (alike : ReadAlike cmd₁ cmd₂ (field off size)) {i : Nat}
    (low : off ≤ i) (high : i < off + size) : cmd₁.data.read i = cmd₂.data.read i :=
  alike i (List.mem_range'_1.mpr ⟨low, high⟩)

theorem ReadAlike.word {off : Nat} (alike : ReadAlike cmd₁ cmd₂ (field off 2)) :
    cmd₁.word off = cmd₂.word off := by
  rw [BleCmd.word, BleCmd.word, alike.byte le_rfl (by omega), alike.byte (by omega) (by omega)]

theorem ReadAlike.slice {off len : Nat} (alike : ReadAlike cmd₁ cmd₂ (field off len)) :
    cmd₁.data.slice off len = cmd₂.data.slice off len := by
  funext i
  exact alike.byte (Nat.le_add_right _ _) (Nat.add_lt_add_left i.isLt off)

theorem ReadAlike.of_ite {condition : Prop} [Decidable condition] {reads : List Nat}
    (alike : ReadAlike cmd₁ cmd₂ (if condition then reads else [])) (holds : condition) :
    ReadAlike cmd₁ cmd₂ reads := by
  rwa [if_pos holds] at alike

/-- A branch on the status, then on a success. -/
theorem ReadAlike.success {reads : List Nat} (alike : ReadAlike cmd₁ cmd₂ (successReads cmd₁ reads)) :
    cmd₁.cmdRsp.status = cmd₂.cmdRsp.status ∧
      (cmd₁.cmdRsp.status = serialStatusSuccess → ReadAlike cmd₁ cmd₂ reads) := by
  obtain ⟨status, later⟩ := readAlike_append.mp alike
  exact ⟨status.byte le_rfl (by omega), fun success => later.of_ite success⟩

theorem ReadAlike.handle {state kept : BleUnprovisionerState}
    (alike : ReadAlike cmd₁ cmd₂ (handleReads cmd₁ state kept)) :
    cmd₁.cmdRsp.status = cmd₂.cmdRsp.status ∧
      (cmd₁.cmdRsp.status = serialStatusSuccess → state = kept → cmd₁.cmdRsp.handle = cmd₂.cmdRsp.handle) := by
  obtain ⟨status, later⟩ := ReadAlike.success alike
  refine ⟨status, fun success here => ?_⟩
  exact ((readAlike_append.mp (later success)).2.of_ite here).word

theorem bleProcessDataCmdRsp_of_reads {g : Globals}
    (alike : ReadAlike cmd₁ cmd₂ (bleProcessDataCmdRspReads cmd₁ g.state)) :
    bleProcessDataCmdRsp cmd₁ g = bleProcessDataCmdRsp cmd₂ g := by
  obtain ⟨opcode, later⟩ := readAlike_append.mp alike
  have opcode : cmd₁.cmdRsp.opcode = cmd₂.cmdRsp.opcode := opcode.byte le_rfl (by omega)
  simp only [bleProcessDataCmdRsp, ← opcode]
  generalize cmd₁.cmdRsp.opcode = code at later ⊢
  split
  case h_1 | h_3 =>
    obtain ⟨status, handle⟩ := later.handle
    rw [← status]
    refine ite_congr rfl (fun success => ?_) (fun _ => rfl)
    exact ite_congr rfl (fun state => by rw [handle success state]) (fun _ => rfl)
  case h_2 =>
    obtain ⟨status, handle⟩ := later.handle
    rw [← status]
    refine ite_congr rfl (fun success => ?_) (fun _ => rfl)
    by_cases state : g.state = .new
    · simp only [if_pos state, handle success state]
    · simp only [if_neg state]
  case h_4 => exact ite_congr (by rw [later.success.1]) (fun _ => rfl) (fun _ => rfl)
  all_goals rfl

/-- The same message at the same offset, with the same element address where it is recorded. -/
theorem bleProcessDataMessageUnicast_of_reads {g : Globals} {opcode : UInt16} {pData : Nat}
    (alike : ReadAlike cmd₁ cmd₂ (bleProcessDataMessageUnicastReads opcode pData cmd₁ g.state)) :
    bleProcessDataMessageUnicast opcode pData cmd₁ g = bleProcessDataMessageUnicast opcode pData cmd₂ g := by
  apply bleProcessDataMessageUnicast_congr
  rintro rfl state
  have later : ReadAlike cmd₁ cmd₂
      (printMsgAppStatus pData ++ if g.state = .psModelAppBind then field (pData + 1) 2 else []) := alike
  exact ((readAlike_append.mp later).2.of_ite state).word

theorem meshMessageOpcode_of_reads (alike : ReadAlike cmd₁ cmd₂ (meshMessageOpcodeReads cmd₁)) :
    meshMessageOpcode cmd₁ = meshMessageOpcode cmd₂ := by
  obtain ⟨first, second⟩ := readAlike_append.mp alike
  have first : cmd₁.data.read 19 = cmd₂.data.read 19 := first.byte le_rfl (by simp [meshMessageRecData])
  rw [meshMessageOpcode_eq, meshMessageOpcode_eq, ← first]
  by_cases long : cmd₁.data.read 19 = 0x80 ∨ cmd₁.data.read 19 = 0x82
  · rw [(second.of_ite long).byte (i := 20) (by simp [meshMessageRecData]) (by simp [meshMessageRecData])]
  · obtain ⟨eighty, eightyTwo⟩ := not_or.mp long
    simp only [if_neg eighty, if_neg eightyTwo]

/-- The lists are complete: handling a frame depends on nothing else in `cmd.data`. -/
theorem bleProcessCommand_of_reads (uECC_shared_secret : UECCSharedSecret) {g : Globals}
    (opcode : cmd₁.opcode = cmd₂.opcode) (alike : ReadAlike cmd₁ cmd₂ (bleProcessCommandReads cmd₁ g.state)) :
    bleProcessCommand uECC_shared_secret cmd₁ g = bleProcessCommand uECC_shared_secret cmd₂ g := by
  unfold bleProcessCommandReads at alike
  simp only [bleProcessCommand, ← opcode]
  generalize cmd₁.opcode = code at alike ⊢
  split
  case h_1 => exact bleProcessDataCmdRsp_of_reads alike
  case h_2 =>
    refine ite_congr rfl (fun state => ?_) (fun _ => rfl)
    have uuid : cmd₁.provUnprovisioned = cmd₂.provUnprovisioned :=
      congrArg BleProvUnprovisionedRecv.mk ((readAlike_append.mp alike).2.of_ite state).slice
    rw [uuid]
  case h_4 =>
    refine ite_congr rfl (fun state => ?_) (fun _ => rfl)
    have caps := (readAlike_append.mp alike).2.of_ite state
    simp only [bleOOBuseReads, readAlike_append] at caps
    obtain ⟨⟨contextID, inOOBAct⟩, inOOBSize⟩ := caps
    simp only [bleOOBuse, BleCmd.provCapsRecv, contextID.byte le_rfl Nat.one_pos,
      inOOBAct.byte le_rfl (Nat.lt_succ_self 8), inOOBSize.byte le_rfl (Nat.lt_succ_self 7)]
  case h_5 =>
    refine ite_congr rfl (fun state => ?_) (fun _ => rfl)
    obtain ⟨address, devkey⟩ := readAlike_append.mp ((readAlike_append.mp alike).2.of_ite state)
    have complete : cmd₁.provComplete = cmd₂.provComplete := by
      rw [BleCmd.provComplete, BleCmd.provComplete, address.word, ReadAlike.slice devkey]
    rw [complete]
  case h_6 =>
    refine ite_congr rfl (fun state => ?_) (fun _ => rfl)
    have keys := (readAlike_append.mp alike).2.of_ite state
    simp only [bleECDHSecretReads, readAlike_append] at keys
    obtain ⟨⟨contextID, peerPublic⟩, nodePrivate⟩ := keys
    have request : cmd₁.provECDHReq = cmd₂.provECDHReq := by
      rw [BleCmd.provECDHReq, BleCmd.provECDHReq, contextID.byte le_rfl Nat.one_pos, peerPublic.slice,
        nodePrivate.slice]
    rw [request]
  case h_7 =>
    refine ite_congr rfl (fun state => ?_) (fun _ => rfl)
    have contextID : ReadAlike cmd₁ cmd₂ (field 0 1) := (readAlike_append.mp alike).2.of_ite state
    have request : cmd₁.provAuthReq = cmd₂.provAuthReq :=
      congrArg BleProvAuthReq.mk (contextID.byte le_rfl Nat.one_pos)
    rw [request]
  case h_9 =>
    simp only [readAlike_append] at alike
    obtain ⟨⟨_, opcodes⟩, message⟩ := alike
    have same := congrArg (fun message => bleProcessDataMessageUnicast message.1 message.2 cmd₂ g)
      (meshMessageOpcode_of_reads opcodes)
    exact (bleProcessDataMessageUnicast_of_reads message).trans same
  all_goals rfl

end BleGateway
