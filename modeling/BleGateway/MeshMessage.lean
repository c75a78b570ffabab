import BleGateway.Command

namespace BleGateway

theorem meshMessageOpcode_eq (cmd : BleCmd) :
    meshMessageOpcode cmd =
      if cmd.data.read 19 = 0x80 then ((cmd.data.read 20).toUInt16 ||| 0x8000, 21)
      else if cmd.data.read 19 = 0x82 then ((cmd.data.read 20).toUInt16 ||| 0x8200, 21)
      else ((cmd.data.read 19).toUInt16, 20) := rfl

/-- The access opcode as a number: two bytes where the first is 0x80 or 0x82, else one. -/
theorem meshMessageOpcode_toNat (cmd : BleCmd) :
    (meshMessageOpcode cmd).1.toNat =
      if cmd.data.read 19 = 0x80 then 0x8000 + (cmd.data.read 20).toNat
      else if cmd.data.read 19 = 0x82 then 0x8200 + (cmd.data.read 20).toNat
      else (cmd.data.read 19).toNat := by
  have low := (cmd.data.read 20).toNat_lt
  rw [meshMessageOpcode_eq]
  split
  next =>
    rw [UInt16.toNat_or, Nat.or_comm]
    exact (Nat.two_pow_add_eq_or_of_lt low 0x80).symm
  next =>
    split
    next =>
      rw [UInt16.toNat_or, Nat.or_comm]
      exact (Nat.two_pow_add_eq_or_of_lt low 0x82).symm
    next => rfl

theorem meshMessageOpcode_short_iff {cmd : BleCmd} {opcode : UInt16} (first : UInt8)
    (value : opcode.toNat = first.toNat) (short : first ≠ 0x80 ∧ first ≠ 0x82) :
    (meshMessageOpcode cmd).1 = opcode ↔ cmd.data.read 19 = first := by
  have below := first.toNat_lt
  rw [← UInt16.toNat_inj, meshMessageOpcode_toNat, value]
  by_cases eighty : cmd.data.read 19 = 0x80
  · rw [if_pos eighty, eighty]
    exact ⟨fun same => by omega, fun same => absurd same.symm short.1⟩
  · rw [if_neg eighty]
    by_cases eightyTwo : cmd.data.read 19 = 0x82
    · rw [if_pos eightyTwo, eightyTwo]
      exact ⟨fun same => by omega, fun same => absurd same.symm short.2⟩
    · rw [if_neg eightyTwo, UInt8.toNat_inj]

theorem meshMessageOpcode_config_iff {cmd : BleCmd} {opcode : UInt16} (second : UInt8)
    (value : opcode.toNat = 0x8000 + second.toNat) :
    (meshMessageOpcode cmd).1 = opcode ↔ cmd.data.read 19 = 0x80 ∧ cmd.data.read 20 = second := by
  have below := second.toNat_lt
  have first := (cmd.data.read 19).toNat_lt
  rw [← UInt16.toNat_inj, meshMessageOpcode_toNat, value]
  by_cases eighty : cmd.data.read 19 = 0x80
  · rw [if_pos eighty, ← UInt8.toNat_inj (a := cmd.data.read 20)]
    exact ⟨fun same => ⟨eighty, by omega⟩, fun same => by omega⟩
  · rw [if_neg eighty]
    refine ⟨fun same => ?_, fun same => absurd same.1 eighty⟩
    split at same <;> omega

theorem meshMessageOpcode_offset {cmd : BleCmd} (first : cmd.data.read 19 = 0x80) :
    (meshMessageOpcode cmd).2 = 21 :=
  congrArg Prod.snd (if_pos first)

theorem meshMessageOpcode_offset_short {cmd : BleCmd}
    (short : cmd.data.read 19 ≠ 0x80 ∧ cmd.data.read 19 ≠ 0x82) : (meshMessageOpcode cmd).2 = 20 := by
  rw [meshMessageOpcode_eq, if_neg short.1, if_neg short.2]

theorem meshMessageOpcode_offset_le (cmd : BleCmd) : (meshMessageOpcode cmd).2 ≤ 21 := by
  rw [meshMessageOpcode_eq]
  split
  · exact le_rfl
  · split <;> simp

/-- Handling a message depends on its parameters only where an element address is recorded. -/
theorem bleProcessDataMessageUnicast_congr {opcode : UInt16} {pData₁ pData₂ : Nat} {cmd₁ cmd₂ : BleCmd}
    {g : Globals}
    (same : opcode = configOpcodeModelAppStatus → g.state = .psModelAppBind →
      cmd₁.word (pData₁ + 1) = cmd₂.word (pData₂ + 1)) :
    bleProcessDataMessageUnicast opcode pData₁ cmd₁ g = bleProcessDataMessageUnicast opcode pData₂ cmd₂ g := by
  unfold bleProcessDataMessageUnicast
  split
  case h_3 =>
    by_cases state : g.state = .psModelAppBind
    · simp only [if_pos state, same rfl state]
    · simp only [if_neg state]
  all_goals rfl

end BleGateway
