import BleGateway.GatewayRun
import BleGateway.MeshMessage

namespace BleGateway
open LittleEndian

/-- How many bytes of a command response its handler needs. -/
def cmdRspBytesRead (state : BleUnprovisionerState) (f : SerialFrame) : Nat :=
  match f.byte 0 with
  | serialOpcodeCmdMeshDevkeyAdd | serialOpcodeCmdMeshAddrPublicationAdd =>
    if state = .devkeyAddrpubadd then if f.byte 1 = serialStatusSuccess then 4 else 2 else 1
  | serialOpcodeCmdMeshSubnetAdd => if f.byte 1 = serialStatusSuccess ∧ state = .new then 4 else 2
  | serialOpcodeCmdMeshAddrLocalUnicastSet => 2
  | _ => 1

/-- How many bytes of a received mesh message its handler needs. -/
def unicastBytesRead (state : BleUnprovisionerState) (f : SerialFrame) : Nat :=
  match state with
  | .psComposdata => 20
  | .psAppkeyAdd | .psModelPublicationSet => if f.byte 19 = 0x80 then 21 else 20
  | .psModelAppBind => if f.byte 19 = 0x80 then if f.byte 20 = 0x3E then 24 else 21 else 20
  | _ => 0

/-- How many leading bytes of `cmd.data` the handling of a frame depends on. The bytes of the frame
that are looked at here count as zero where it is too short to have them. -/
def bytesRead (state : BleUnprovisionerState) (f : SerialFrame) : Nat :=
  match f.opcode with
  | serialOpcodeEvtCmdRsp => cmdRspBytesRead state f
  | serialOpcodeEvtProvUnprovisionedReceived => if state = .new then 16 else 0
  | serialOpcodeEvtProvCapsReceived => if state = .provision then 9 else 0
  | serialOpcodeEvtProvComplete => if state = .auth then 27 else 0
  | serialOpcodeEvtProvEcdhRequest => if state = .oobuse then 97 else 0
  | serialOpcodeEvtProvAuthRequest => if state = .ecdh then 1 else 0
  | serialOpcodeEvtMeshMessageReceivedUnicast => unicastBytesRead state f
  | _ => 0

theorem SerialFrame.byte_of_ge {f : SerialFrame} {i : Nat} (outside : f.payload.length ≤ i) : f.byte i = 0 := by
  rw [SerialFrame.byte, List.getD_eq_getElem?_getD, List.getElem?_eq_none outside, Option.getD_none]

theorem BleCmd.word_congr {cmd₁ cmd₂ : BleCmd} {off : Nat}
    (same : ∀ i, i < off + 2 → cmd₁.data.read i = cmd₂.data.read i) : cmd₁.word off = cmd₂.word off := by
  rw [BleCmd.word, BleCmd.word, same off (by omega), same (off + 1) (by omega)]

/-- The message a frame carries is the awaited one, as far as the frame itself tells. -/
def Awaited (state : BleUnprovisionerState) (f : SerialFrame) : Prop :=
  match state with
  | .psComposdata => f.byte 19 = 0x02
  | .psAppkeyAdd => f.byte 19 = 0x80 ∧ f.byte 20 = 0x03
  | .psModelAppBind => f.byte 19 = 0x80 ∧ f.byte 20 = 0x3E
  | .psModelPublicationSet => f.byte 19 = 0x80 ∧ f.byte 20 = 0x19
  | _ => False

theorem receive_config_iff {cmd : BleCmd} {f : SerialFrame} {opcode : UInt16} {second : UInt8}
    (value : opcode.toNat = 0x8000 + second.toNat)
    (long : (if f.byte 19 = 0x80 then 21 else 20) ≤ f.payload.length) :
    opcode = (meshMessageOpcode (cmd.receive f)).1 ↔ f.byte 19 = 0x80 ∧ f.byte 20 = second := by
  rw [eq_comm, meshMessageOpcode_config_iff _ value]
  by_cases eighty : f.byte 19 = 0x80
  · rw [if_pos eighty] at long
    rw [cmd.receive_read_of_lt (by omega), cmd.receive_read_of_lt (by omega)]
  · rw [if_neg eighty] at long
    rw [cmd.receive_read_of_lt (by omega)]
    exact ⟨fun same => absurd same.1 eighty, fun same => absurd same.1 eighty⟩

theorem awaited_receive_iff (cmd : BleCmd) {f : SerialFrame} {state : BleUnprovisionerState}
    (long : unicastBytesRead state f ≤ f.payload.length) :
    awaited state = some (meshMessageOpcode (cmd.receive f)).1 ↔ Awaited state f := by
  cases state with
  | psComposdata =>
    have long : 20 ≤ f.payload.length := long
    rw [awaited, Option.some_inj, eq_comm, meshMessageOpcode_short_iff 0x02 rfl (by decide),
      cmd.receive_read_of_lt (by omega)]
    rfl
  | psAppkeyAdd | psModelPublicationSet =>
    rw [awaited, Option.some_inj]
    exact receive_config_iff rfl long
  | psModelAppBind =>
    have long : (if f.byte 19 = 0x80 then if f.byte 20 = 0x3E then 24 else 21 else 20) ≤ f.payload.length := long
    rw [awaited, Option.some_inj]
    refine receive_config_iff rfl (le_trans ?_ long)
    split
    · split
      · exact Nat.le_add_right 21 3
      · exact le_rfl
    · exact le_rfl
  | _ => simp [awaited, Awaited]

theorem unicast_same {cmd₁ cmd₂ : BleCmd} {f : SerialFrame} {g : Globals}
    (long : unicastBytesRead g.state f ≤ f.payload.length) :
    bleProcessDataMessageUnicast (meshMessageOpcode (cmd₁.receive f)).1 (meshMessageOpcode (cmd₁.receive f)).2
        (cmd₁.receive f) g =
      bleProcessDataMessageUnicast (meshMessageOpcode (cmd₂.receive f)).1 (meshMessageOpcode (cmd₂.receive f)).2
        (cmd₂.receive f) g := by
  have first := awaited_receive_iff cmd₁ long
  have second := awaited_receive_iff cmd₂ long
  by_cases now : Awaited g.state f
  · have opcodes := (first.mpr now).symm.trans (second.mpr now)
    rw [Option.some_inj] at opcodes
    rw [opcodes]
    apply bleProcessDataMessageUnicast_congr
    intro opcode state
    rw [state] at now long
    have long : (if f.byte 19 = 0x80 then if f.byte 20 = 0x3E then 24 else 21 else 20) ≤ f.payload.length := long
    rw [if_pos now.1, if_pos now.2] at long
    have offset (cmd : BleCmd) : (meshMessageOpcode (cmd.receive f)).2 = 21 :=
      meshMessageOpcode_offset ((cmd.receive_read_of_lt (by omega)).trans now.1)
    rw [offset, offset]
    apply BleCmd.word_congr
    intro i below
    rw [cmd₁.receive_read_of_lt (by omega), cmd₂.receive_read_of_lt (by omega)]
  · rw [bleProcessDataMessageUnicast_of_not_awaited (fun is => now (first.mp is)),
      bleProcessDataMessageUnicast_of_not_awaited (fun is => now (second.mp is))]

theorem cmdRspBytesRead_pos (state : BleUnprovisionerState) (f : SerialFrame) : 0 < cmdRspBytesRead state f := by
  unfold cmdRspBytesRead
  split <;> (repeat split) <;> decide

theorem cmdRsp_handle_same (cmd₁ cmd₂ : BleCmd) {f : SerialFrame} (needed : Prop) [Decidable needed]
    (long : (if f.byte 1 = serialStatusSuccess ∧ needed then 4 else 2) ≤ f.payload.length) :
    (cmd₁.receive f).cmdRsp.status = (cmd₂.receive f).cmdRsp.status ∧
      ((cmd₂.receive f).cmdRsp.status = serialStatusSuccess → needed →
        (cmd₁.receive f).cmdRsp.handle = (cmd₂.receive f).cmdRsp.handle) := by
  have two : 2 ≤ f.payload.length := by
    split at long <;> omega
  have status (cmd : BleCmd) : (cmd.receive f).cmdRsp.status = f.byte 1 :=
    cmd.receive_read_of_lt (show 1 < f.payload.length by omega)
  refine ⟨(status cmd₁).trans (status cmd₂).symm, fun success need => ?_⟩
  rw [status] at success
  rw [if_pos ⟨success, need⟩] at long
  apply BleCmd.word_congr
  intro i below
  rw [cmd₁.receive_read_of_lt (by omega), cmd₂.receive_read_of_lt (by omega)]

theorem cmdRsp_same {cmd₁ cmd₂ : BleCmd} {f : SerialFrame} {g : Globals}
    (long : cmdRspBytesRead g.state f ≤ f.payload.length) :
    bleProcessDataCmdRsp (cmd₁.receive f) g = bleProcessDataCmdRsp (cmd₂.receive f) g := by
  have positive := cmdRspBytesRead_pos g.state f
  have opcode (cmd : BleCmd) : (cmd.receive f).cmdRsp.opcode = f.byte 0 :=
    cmd.receive_read_of_lt (show 0 < f.payload.length by omega)
  unfold cmdRspBytesRead at long
  simp only [bleProcessDataCmdRsp, opcode]
  clear opcode positive
  generalize f.byte 0 = code at long ⊢
  split at long
  case h_3 =>
    obtain ⟨status, handle⟩ := cmdRsp_handle_same cmd₁ cmd₂ _ long
    rw [status]
    refine ite_congr rfl (fun success => ?_) (fun _ => rfl)
    by_cases state : g.state = .new
    · simp only [if_pos state, handle success state]
    · simp only [if_neg state]
  case h_4 =>
    have status : (cmd₁.receive f).cmdRsp.status = (cmd₂.receive f).cmdRsp.status :=
      (cmd₁.receive_read_of_lt long).trans (cmd₂.receive_read_of_lt long).symm
    rw [status]
    rfl
  case h_5 => split <;> first | rfl | contradiction
  all_goals
    by_cases state : g.state = .devkeyAddrpubadd
    · rw [if_pos state] at long
      obtain ⟨status, handle⟩ := cmdRsp_handle_same cmd₁ cmd₂ True (by simpa using long)
      rw [status]
      refine ite_congr rfl (fun success => ?_) (fun _ => rfl)
      rw [handle success trivial]
    · simp only [if_neg state, ite_self]

/-- Two records whose leading bytes are those of the frame are handled alike. -/
theorem bleProcessCommand_same (uECC_shared_secret : UECCSharedSecret) {cmd₁ cmd₂ : BleCmd} {f : SerialFrame}
    {g : Globals} (long : bytesRead g.state f ≤ f.payload.length) :
    bleProcessCommand uECC_shared_secret (cmd₁.receive f) g =
      bleProcessCommand uECC_shared_secret (cmd₂.receive f) g := by
  have same (n : Nat) (long : n ≤ f.payload.length) (i : Nat) (below : i < n) :
      (cmd₁.receive f).data.read i = (cmd₂.receive f).data.read i := by
    rw [cmd₁.receive_read_of_lt (by omega), cmd₂.receive_read_of_lt (by omega)]
  have opcode (cmd : BleCmd) : (cmd.receive f).opcode = f.opcode := rfl
  unfold bytesRead at long
  simp only [bleProcessCommand, opcode]
  generalize f.opcode = code at long ⊢
  split at long
  case h_1 => exact cmdRsp_same long
  case h_2 =>
    refine ite_congr rfl (fun state => ?_) (fun _ => rfl)
    rw [if_pos state] at long
    have uuid : (cmd₁.receive f).provUnprovisioned = (cmd₂.receive f).provUnprovisioned :=
      congrArg BleProvUnprovisionedRecv.mk (Buffer.slice_congr (same 16 long))
    rw [uuid]
  case h_3 =>
    refine ite_congr rfl (fun state => ?_) (fun _ => rfl)
    rw [if_pos state] at long
    have caps : bleOOBuse (cmd₁.receive f).provCapsRecv = bleOOBuse (cmd₂.receive f).provCapsRecv := by
      simp only [bleOOBuse, BleCmd.provCapsRecv, same 9 long 0 (by omega), same 9 long 7 (by omega),
        same 9 long 8 (by omega)]
    rw [caps]
  case h_4 =>
    refine ite_congr rfl (fun state => ?_) (fun _ => rfl)
    rw [if_pos state] at long
    have complete : (cmd₁.receive f).provComplete = (cmd₂.receive f).provComplete := by
      rw [BleCmd.provComplete, BleCmd.provComplete, BleCmd.word_congr (same 9 (by omega)),
        Buffer.slice_congr (same 27 long)]
    rw [complete]
  case h_5 =>
    refine ite_congr rfl (fun state => ?_) (fun _ => rfl)
    rw [if_pos state] at long
    have request : (cmd₁.receive f).provECDHReq = (cmd₂.receive f).provECDHReq := by
      have peerPublic : (cmd₁.receive f).data.slice 1 64 = (cmd₂.receive f).data.slice 1 64 :=
        Buffer.slice_congr (same 65 (by omega))
      have nodePrivate : (cmd₁.receive f).data.slice 65 32 = (cmd₂.receive f).data.slice 65 32 :=
        Buffer.slice_congr (same 97 long)
      rw [BleCmd.provECDHReq, BleCmd.provECDHReq, same 1 (by omega) 0 (by omega), peerPublic, nodePrivate]
    rw [request]
  case h_6 =>
    refine ite_congr rfl (fun state => ?_) (fun _ => rfl)
    rw [if_pos state] at long
    have request : (cmd₁.receive f).provAuthReq = (cmd₂.receive f).provAuthReq :=
      congrArg BleProvAuthReq.mk (same 1 long 0 Nat.one_pos)
    rw [request]
  case h_7 => exact unicast_same long
  case h_8 => split <;> first | rfl | contradiction

/-- The frame has the same effect whatever the record held before. -/
def HandledAlike (f : SerialFrame) (g : Globals) : Prop :=
  ∀ (uECC_shared_secret : UECCSharedSecret) (cmd₁ cmd₂ : BleCmd),
    bleProcessCommand uECC_shared_secret (cmd₁.receive f) g =
      bleProcessCommand uECC_shared_secret (cmd₂.receive f) g

def BleCmd.leftover (bytes : Nat → UInt8) : BleCmd where
  opcode := 0
  len := 0
  data := fun i => bytes i

theorem BleCmd.leftover_read {f : SerialFrame} (bytes : Nat → UInt8) {i : Nat} (outside : f.payload.length ≤ i)
    (inside : i < 256) : ((BleCmd.leftover bytes).receive f).data.read i = bytes i :=
  (BleCmd.receive_read_of_ge _ outside).trans (Buffer.read_of_lt _ inside)

theorem BleCmd.leftover_opcode {f : SerialFrame} (bytes : Nat → UInt8) (outside : f.payload.length ≤ 0) :
    ((BleCmd.leftover bytes).receive f).cmdRsp.opcode = bytes 0 :=
  BleCmd.leftover_read bytes outside (by omega)

theorem BleCmd.leftover_status {f : SerialFrame} (bytes : Nat → UInt8) (outside : f.payload.length ≤ 1) :
    ((BleCmd.leftover bytes).receive f).cmdRsp.status = bytes 1 :=
  BleCmd.leftover_read bytes outside (by omega)

theorem covered_of_read {f : SerialFrame} {i : Nat} (inside : i < 256)
    (same : ((BleCmd.leftover fun _ => 0).receive f).data.read i =
      ((BleCmd.leftover fun _ => 1).receive f).data.read i) : i < f.payload.length := by
  by_contra outside
  rw [BleCmd.leftover_read _ (by omega) inside, BleCmd.leftover_read _ (by omega) inside] at same
  exact absurd same (by decide)

theorem covered_of_slice {f : SerialFrame} (off len : Nat) (positive : 0 < len) (inside : off + len ≤ 256)
    (same : ((BleCmd.leftover fun _ => 0).receive f).data.slice off len =
      ((BleCmd.leftover fun _ => 1).receive f).data.slice off len) : off + len ≤ f.payload.length := by
  have byte := covered_of_read (by omega : off + (len - 1) < 256) (congrFun same ⟨len - 1, by omega⟩)
  omega

variable {f : SerialFrame} {g : Globals}

theorem HandledAlike.beacon (alike : HandledAlike f g) (opcode : f.opcode = serialOpcodeEvtProvUnprovisionedReceived)
    (state : g.state = .new) : 16 ≤ f.payload.length := by
  have same := alike echoPrivate (.leftover fun _ => 0) (.leftover fun _ => 1)
  rw [bleProcessCommand_beacon _ _ opcode state, bleProcessCommand_beacon _ _ opcode state] at same
  exact covered_of_slice 0 16 (by omega) (by omega)
    (by simpa [provDataFrame, BleCmd.provUnprovisioned] using same)

theorem HandledAlike.caps (alike : HandledAlike f g) (opcode : f.opcode = serialOpcodeEvtProvCapsReceived)
    (state : g.state = .provision) : 9 ≤ f.payload.length := by
  have same := alike echoPrivate (.leftover fun _ => 0) (.leftover fun _ => 1)
  rw [bleProcessCommand_caps _ _ opcode state, bleProcessCommand_caps _ _ opcode state] at same
  simp only [bleOOBuse, BleCmd.provCapsRecv, Prod.mk.injEq, List.cons.injEq, SerialFrame.mk.injEq] at same
  exact covered_of_read (by omega) same.2.1.2.2.2.1

theorem HandledAlike.complete (alike : HandledAlike f g) (opcode : f.opcode = serialOpcodeEvtProvComplete)
    (state : g.state = .auth) : 27 ≤ f.payload.length := by
  have same := alike echoPrivate (.leftover fun _ => 0) (.leftover fun _ => 1)
  rw [bleProcessCommand_complete _ _ opcode state, bleProcessCommand_complete _ _ opcode state] at same
  have devkey := congrArg Prod.snd same
  simp only [bleDevkeyAdd, BleCmd.provComplete, List.cons.injEq, SerialFrame.mk.injEq,
    List.append_cancel_left_eq, Buffer.bytes_inj] at devkey
  exact covered_of_slice 11 16 (by omega) (by omega) devkey.2.1.2

theorem HandledAlike.ecdh (alike : HandledAlike f g) (opcode : f.opcode = serialOpcodeEvtProvEcdhRequest)
    (state : g.state = .oobuse) : 97 ≤ f.payload.length := by
  have same := alike echoPrivate (.leftover fun _ => 0) (.leftover fun _ => 1)
  rw [bleProcessCommand_ecdh _ _ opcode state, bleProcessCommand_ecdh _ _ opcode state] at same
  simp only [bleECDHSecret, echoPrivate, BleCmd.provECDHReq, Prod.mk.injEq, List.cons.injEq,
    SerialFrame.mk.injEq, Buffer.bytes_inj] at same
  exact covered_of_slice 65 32 (by omega) (by omega) same.2.1.2.2

theorem HandledAlike.auth (alike : HandledAlike f g) (opcode : f.opcode = serialOpcodeEvtProvAuthRequest)
    (state : g.state = .ecdh) : 1 ≤ f.payload.length := by
  have same := alike echoPrivate (.leftover fun _ => 0) (.leftover fun _ => 1)
  rw [bleProcessCommand_auth _ _ opcode state, bleProcessCommand_auth _ _ opcode state] at same
  simp only [bleAuthData, BleCmd.provAuthReq, Prod.mk.injEq, List.cons.injEq, SerialFrame.mk.injEq] at same
  exact covered_of_read (by omega) same.2.1.2.1

theorem HandledAlike.cmdRsp_opcode (alike : HandledAlike f g) (opcode : f.opcode = serialOpcodeEvtCmdRsp) :
    1 ≤ f.payload.length := by
  by_contra short
  -- leftovers that read as the answer to 0x9f, with success and without
  have same := alike echoPrivate (.leftover fun i => if i = 0 then serialOpcodeCmdMeshAddrLocalUnicastSet else 0)
    (.leftover fun i => if i = 0 then serialOpcodeCmdMeshAddrLocalUnicastSet else 1)
  have code (status : UInt8) : ((BleCmd.leftover fun i =>
      if i = 0 then serialOpcodeCmdMeshAddrLocalUnicastSet else status).receive f).cmdRsp.opcode =
        serialOpcodeCmdMeshAddrLocalUnicastSet := BleCmd.leftover_opcode _ (by omega)
  have status (status : UInt8) : ((BleCmd.leftover fun i =>
      if i = 0 then serialOpcodeCmdMeshAddrLocalUnicastSet else status).receive f).cmdRsp.status =
        status := BleCmd.leftover_status _ (by omega)
  rw [bleProcessCommand_cmdRsp _ _ opcode, bleProcessCommand_cmdRsp _ _ opcode,
    bleProcessDataCmdRsp_localUnicastSet (code 0), bleProcessDataCmdRsp_localUnicastSet (code 1),
    status, status] at same
  cases congrArg Prod.snd same

theorem HandledAlike.cmdRsp_status (alike : HandledAlike f g) (opcode : f.opcode = serialOpcodeEvtCmdRsp)
    (command : f.byte 0 = serialOpcodeCmdMeshSubnetAdd ∨ f.byte 0 = serialOpcodeCmdMeshAddrLocalUnicastSet) :
    2 ≤ f.payload.length := by
  have one := alike.cmdRsp_opcode opcode
  by_contra short
  -- the missing status reads as success or not
  have same := alike echoPrivate (.leftover fun _ => 0) (.leftover fun _ => 1)
  have code (cmd : BleCmd) : (cmd.receive f).cmdRsp.opcode = f.byte 0 := cmd.receive_read_of_lt one
  have status (status : UInt8) : ((BleCmd.leftover fun _ => status).receive f).cmdRsp.status = status :=
    BleCmd.leftover_status _ (by omega)
  rw [bleProcessCommand_cmdRsp _ _ opcode, bleProcessCommand_cmdRsp _ _ opcode] at same
  rcases command with subnet | unicast
  · rw [bleProcessDataCmdRsp_subnetAdd ((code _).trans subnet),
      bleProcessDataCmdRsp_subnetAdd ((code _).trans subnet), status, status] at same
    cases congrArg Prod.snd same
  · rw [bleProcessDataCmdRsp_localUnicastSet ((code _).trans unicast),
      bleProcessDataCmdRsp_localUnicastSet ((code _).trans unicast), status, status] at same
    cases congrArg Prod.snd same

/-- Leftovers that make a success of a missing status, with two different handles. -/
def successThen (rest : UInt8) : BleCmd := .leftover fun i => if i = 1 then serialStatusSuccess else rest

theorem successThen_status (long : 1 ≤ f.payload.length) (rest : UInt8) (success : f.byte 1 = serialStatusSuccess) :
    ((successThen rest).receive f).cmdRsp.status = serialStatusSuccess := by
  by_cases inside : 1 < f.payload.length
  · exact ((successThen rest).receive_read_of_lt inside).trans success
  · exact BleCmd.leftover_status _ (by omega)

theorem successThen_handle_ne (short : f.payload.length < 4) :
    ((successThen 0).receive f).cmdRsp.handle ≠ ((successThen 1).receive f).cmdRsp.handle := by
  intro same
  have high := (word16_inj same).2
  have byte (rest : UInt8) : ((successThen rest).receive f).data.read (2 + 1) = rest :=
    BleCmd.leftover_read _ (by omega) (by omega)
  rw [byte, byte] at high
  exact absurd high (by decide)

theorem HandledAlike.cmdRsp_handle (alike : HandledAlike f g) (opcode : f.opcode = serialOpcodeEvtCmdRsp)
    (success : f.byte 1 = serialStatusSuccess)
    (command : (f.byte 0 = serialOpcodeCmdMeshDevkeyAdd ∨ f.byte 0 = serialOpcodeCmdMeshAddrPublicationAdd) ∧
        g.state = .devkeyAddrpubadd ∨ f.byte 0 = serialOpcodeCmdMeshSubnetAdd ∧ g.state = .new) :
    4 ≤ f.payload.length := by
  have one := alike.cmdRsp_opcode opcode
  by_contra short
  have same := alike echoPrivate (successThen 0) (successThen 1)
  have different := successThen_handle_ne (f := f) (by omega)
  have code (cmd : BleCmd) : (cmd.receive f).cmdRsp.opcode = f.byte 0 := cmd.receive_read_of_lt one
  have status (rest : UInt8) := successThen_status one rest success
  rw [bleProcessCommand_cmdRsp _ _ opcode, bleProcessCommand_cmdRsp _ _ opcode] at same
  rcases command with ⟨devkey | publication, state⟩ | ⟨subnet, state⟩
  · rw [bleProcessDataCmdRsp_devkeyAdd ((code _).trans devkey) (status 0) state,
      bleProcessDataCmdRsp_devkeyAdd ((code _).trans devkey) (status 1) state] at same
    exact different (congrArg (·.1.unprovisioner.devkeyHandle) same)
  · rw [bleProcessDataCmdRsp_addrPublicationAdd ((code _).trans publication) (status 0) state,
      bleProcessDataCmdRsp_addrPublicationAdd ((code _).trans publication) (status 1) state] at same
    exact different (congrArg (·.1.unprovisioner.dstAddrHandle) same)
  · rw [bleProcessDataCmdRsp_subnetAdd ((code _).trans subnet),
      bleProcessDataCmdRsp_subnetAdd ((code _).trans subnet), status, status] at same
    simp only [if_pos state] at same
    exact different (congrArg (·.1.unprovisioner.subnetHandle) same)

theorem HandledAlike.cmdRsp (alike : HandledAlike f g) (opcode : f.opcode = serialOpcodeEvtCmdRsp) :
    cmdRspBytesRead g.state f ≤ f.payload.length := by
  have one := alike.cmdRsp_opcode opcode
  unfold cmdRspBytesRead
  split
  case h_3 command =>
    split
    next both => exact alike.cmdRsp_handle opcode both.1 (Or.inr ⟨command, both.2⟩)
    next => exact alike.cmdRsp_status opcode (Or.inl command)
  case h_4 command => exact alike.cmdRsp_status opcode (Or.inr command)
  case h_5 => exact one
  all_goals
    rename_i command
    split
    next state =>
      split
      next success => exact alike.cmdRsp_handle opcode success (Or.inl ⟨by simp [command], state⟩)
      next failure =>
        -- a missing status byte counts as zero, which is success
        by_contra short
        exact failure (f.byte_of_ge (by omega))
    next => exact one

/-- What was left over cannot decide whether a message is the awaited one. -/
theorem HandledAlike.awaited_iff (alike : HandledAlike f g)
    (opcode : f.opcode = serialOpcodeEvtMeshMessageReceivedUnicast) (cmd₁ cmd₂ : BleCmd)
    (now : awaited g.state = some (meshMessageOpcode (cmd₁.receive f)).1) :
    awaited g.state = some (meshMessageOpcode (cmd₂.receive f)).1 := by
  by_contra other
  have same := alike echoPrivate cmd₁ cmd₂
  rw [bleProcessCommand_unicast _ _ opcode, bleProcessCommand_unicast _ _ opcode,
    bleProcessDataMessageUnicast_of_not_awaited other] at same
  exact bleProcessDataMessageUnicast_awaited now (congrArg (·.1.state) same)

theorem HandledAlike.unicast_short (alike : HandledAlike f g)
    (opcode : f.opcode = serialOpcodeEvtMeshMessageReceivedUnicast) (state : g.state = .psComposdata) :
    20 ≤ f.payload.length := by
  by_contra short
  have composition (first : UInt8) :
      awaited g.state = some (meshMessageOpcode ((BleCmd.leftover fun _ => first).receive f)).1 ↔ first = 0x02 := by
    rw [state, awaited, Option.some_inj, eq_comm, meshMessageOpcode_short_iff 0x02 rfl (by decide),
      BleCmd.leftover_read _ (by omega) (by omega)]
  exact absurd ((composition 0).mp (alike.awaited_iff opcode _ _ ((composition 2).mpr rfl))) (by decide)

theorem HandledAlike.unicast_config (alike : HandledAlike f g)
    (opcode : f.opcode = serialOpcodeEvtMeshMessageReceivedUnicast) {message : UInt16} (second : UInt8)
    (value : message.toNat = 0x8000 + second.toNat) (nonzero : second ≠ 0)
    (state : awaited g.state = some message) : (if f.byte 19 = 0x80 then 21 else 20) ≤ f.payload.length := by
  by_contra short
  have few : f.payload.length ≤ 20 := by
    split at short <;> omega
  -- some leftovers complete the awaited opcode, zeroes do not
  have now : awaited g.state = some (meshMessageOpcode ((BleCmd.leftover fun i =>
      if i = 19 then 0x80 else second).receive f)).1 := by
    rw [state, Option.some_inj, eq_comm, meshMessageOpcode_config_iff _ value]
    refine ⟨?_, BleCmd.leftover_read _ few (by omega)⟩
    by_cases inside : 19 < f.payload.length
    · rw [BleCmd.receive_read_of_lt _ inside]
      by_contra other
      rw [if_neg other] at short
      omega
    · exact BleCmd.leftover_read _ (by omega) (by omega)
  have zero := alike.awaited_iff opcode _ (.leftover fun _ => 0) now
  rw [state, Option.some_inj, eq_comm, meshMessageOpcode_config_iff _ value,
    BleCmd.leftover_read _ few (by omega)] at zero
  exact nonzero zero.2.symm

theorem HandledAlike.unicast_elementAddress (alike : HandledAlike f g)
    (opcode : f.opcode = serialOpcodeEvtMeshMessageReceivedUnicast) (state : g.state = .psModelAppBind)
    (first : f.byte 19 = 0x80) (second : f.byte 20 = 0x3E) (long : 21 ≤ f.payload.length) :
    24 ≤ f.payload.length := by
  by_contra short
  have message (cmd : BleCmd) : meshMessageOpcode (cmd.receive f) = (configOpcodeModelAppStatus, 21) := by
    have byte19 : (cmd.receive f).data.read 19 = 0x80 := (cmd.receive_read_of_lt (by omega)).trans first
    have byte20 : (cmd.receive f).data.read 20 = 0x3E := (cmd.receive_read_of_lt (by omega)).trans second
    apply Prod.ext
    · exact (meshMessageOpcode_config_iff 0x3E rfl).mpr ⟨byte19, byte20⟩
    · exact meshMessageOpcode_offset byte19
  have same := alike echoPrivate (.leftover fun _ => 0) (.leftover fun _ => 1)
  rw [bleProcessCommand_unicast _ _ opcode, bleProcessCommand_unicast _ _ opcode, message, message,
    bleProcessDataMessageUnicast_modelAppStatus state, bleProcessDataMessageUnicast_modelAppStatus state] at same
  have high := (word16_inj (congrArg (·.1.unprovisioner.elementAddress) same)).2
  have covered := covered_of_read (by omega) high
  omega

theorem HandledAlike.unicast (alike : HandledAlike f g)
    (opcode : f.opcode = serialOpcodeEvtMeshMessageReceivedUnicast) :
    unicastBytesRead g.state f ≤ f.payload.length := by
  cases state : g.state with
  | psComposdata => exact alike.unicast_short opcode state
  | psAppkeyAdd => exact alike.unicast_config opcode 0x03 rfl (by decide) (by rw [state]; rfl)
  | psModelPublicationSet => exact alike.unicast_config opcode 0x19 rfl (by decide) (by rw [state]; rfl)
  | psModelAppBind =>
    have long := alike.unicast_config opcode 0x3E rfl (by decide) (by rw [state]; rfl)
    change (if f.byte 19 = 0x80 then if f.byte 20 = 0x3E then 24 else 21 else 20) ≤ _
    split
    next first =>
      rw [if_pos first] at long
      split
      next second => exact alike.unicast_elementAddress opcode state first second long
      next => exact long
    next first => rwa [if_neg first] at long
  | _ => exact Nat.zero_le _

/-- A frame is handled alike whatever the record held before exactly if it is long enough for its
handler in the current state. -/
theorem handledAlike_iff (f : SerialFrame) (g : Globals) :
    HandledAlike f g ↔ bytesRead g.state f ≤ f.payload.length := by
  constructor
  · intro alike
    unfold bytesRead
    split
    next opcode => exact alike.cmdRsp opcode
    next opcode =>
      split
      next state => exact alike.beacon opcode state
      next => exact Nat.zero_le _
    next opcode =>
      split
      next state => exact alike.caps opcode state
      next => exact Nat.zero_le _
    next opcode =>
      split
      next state => exact alike.complete opcode state
      next => exact Nat.zero_le _
    next opcode =>
      split
      next state => exact alike.ecdh opcode state
      next => exact Nat.zero_le _
    next opcode =>
      split
      next state => exact alike.auth opcode state
      next => exact Nat.zero_le _
    next opcode => exact alike.unicast opcode
    next => exact Nat.zero_le _
  · intro long uECC_shared_secret cmd₁ cmd₂
    exact bleProcessCommand_same uECC_shared_secret long

/-- A success response to the device key, cut off before its handle. -/
def truncatedResponse : SerialFrame where
  opcode := serialOpcodeEvtCmdRsp
  payload := [serialOpcodeCmdMeshDevkeyAdd, serialStatusSuccess]
  bound := by decide

/-- The device key handle is then made of two bytes of an earlier frame. -/
theorem truncatedResponse_not_handledAlike :
    ¬HandledAlike truncatedResponse (Globals.init.setState .devkeyAddrpubadd) := by
  intro alike
  have same := alike echoPrivate (.leftover fun _ => 0) (.leftover fun _ => 1)
  have handles := congrArg (·.1.unprovisioner.devkeyHandle) same
  exact absurd handles (by decide)

end BleGateway
