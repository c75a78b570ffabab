import BleGateway.RoundTrip

namespace BleGateway
open LittleEndian

/-- `ble_write` over memory: what it passes to `write`, from its local array `buf`. -/
def bleWriteMemory {n : Nat} (opcode : UInt8) (payload : Buffer n) (size : UInt8) (buf : Buffer 258) :
    Option (List UInt8) :=
  let len := 1 + size.toNat
  let buf := buf.store 0 [UInt8.ofNat len, opcode]
  let copied := if 0 < size then buf.copy 2 payload 0 size.toNat else some buf
  copied.bind fun buf => if len + 1 ≤ 258 then some (buf.slice 0 (len + 1)).bytes else none

/-- `ble_PacketSend` over memory: the argument is the packed struct, with `len` at offset 10. -/
def blePacketSendMemory (packetSend : Buffer 255) (buffer : Buffer 255) (buf : Buffer 258) :
    Option (List UInt8) :=
  let len := (packetSend.read 10).toNat
  (buffer.copy 0 packetSend 0 10).bind fun buffer =>
    (buffer.copy 10 packetSend 11 len).bind fun buffer =>
      bleWriteMemory 0xab buffer (UInt8.ofNat (10 + len)) buf

/-- The optional copy behind the header is a copy of header and payload. -/
theorem payload_copied {n : Nat} (buf : Buffer 258) (header : List UInt8) (payload : Buffer n) {size : UInt8}
    (inside : size.toNat ≤ n) (fits : header.length + size.toNat ≤ 258) :
    (if 0 < size then (buf.store 0 header).copy header.length payload 0 size.toNat
      else some (buf.store 0 header)) = some (buf.store 0 (header ++ (payload.slice 0 size.toNat).bytes)) := by
  split
  next =>
    have joined := Buffer.store_store buf 0 header (payload.slice 0 size.toNat).bytes
    rw [Nat.zero_add] at joined
    rw [Buffer.copy_of_fits _ (by omega) fits, joined]
  next empty =>
    have zero : size.toNat = 0 :=
      Nat.eq_zero_of_not_pos fun positive => empty (UInt8.lt_iff_toNat_lt.mpr positive)
    rw [zero]
    exact congrArg some (congrArg (buf.store 0) (List.append_nil header).symm)

/-- The 258 bytes of `buf` hold every frame that `size` can name. -/
theorem bleWriteMemory_of_fits {n : Nat} (opcode : UInt8) {payload : Buffer n} {size : UInt8}
    (inside : size.toNat ≤ n) (buf : Buffer 258) :
    bleWriteMemory opcode payload size buf =
      some (UInt8.ofNat (1 + size.toNat) :: opcode :: (payload.slice 0 size.toNat).bytes) := by
  have small := size.toNat_lt
  have fits : [UInt8.ofNat (1 + size.toNat), opcode].length + size.toNat ≤ 258 := by
    simp only [List.length_cons, List.length_nil]
    omega
  have copied := payload_copied buf [UInt8.ofNat (1 + size.toNat), opcode] payload inside fits
  have length : ([UInt8.ofNat (1 + size.toNat), opcode] ++ (payload.slice 0 size.toNat).bytes).length =
      1 + size.toNat + 1 := by
    simp only [List.length_append, List.length_cons, List.length_nil, Buffer.bytes_length]
    omega
  have sent : ((buf.store 0 ([UInt8.ofNat (1 + size.toNat), opcode] ++
      (payload.slice 0 size.toNat).bytes)).slice 0 (1 + size.toNat + 1)).bytes =
      [UInt8.ofNat (1 + size.toNat), opcode] ++ (payload.slice 0 size.toNat).bytes := by
    rw [← length]
    exact Buffer.slice_store buf (by omega)
  simp only [List.length_cons, List.length_nil] at copied
  simp only [bleWriteMemory]
  rw [copied, Option.bind_some, if_pos (by omega), sent]
  rfl

/-- Over memory `ble_write` puts the image of a frame on the wire. -/
theorem bleWriteMemory_frame (frame : SerialFrame) {n : Nat} {payload : Buffer n}
    (inside : frame.payload.length ≤ n) (holds : (payload.slice 0 frame.payload.length).bytes = frame.payload)
    (buf : Buffer 258) :
    bleWriteMemory frame.opcode payload (UInt8.ofNat frame.payload.length) buf = some (bleWrite frame) := by
  have bound := frame.bound
  simp only [nrfMeshSerialPayloadMaxlen] at bound
  have size : (UInt8.ofNat frame.payload.length).toNat = frame.payload.length :=
    UInt8.toNat_ofNat_of_lt (show frame.payload.length < 256 by omega)
  rw [bleWriteMemory_of_fits frame.opcode (by omega) buf, size, holds]
  rfl

/-- Both copies of `ble_PacketSend` stay inside their arrays up to the capacity of `data`. -/
theorem blePacketSendMemory_of_fits {packetSend : Buffer 255} (fits : (packetSend.read 10).toNat ≤ 244)
    (buffer : Buffer 255) (buf : Buffer 258) :
    blePacketSendMemory packetSend buffer buf =
      bleWriteMemory 0xab (buffer.store 0
          ((packetSend.slice 0 10).bytes ++ (packetSend.slice 11 (packetSend.read 10).toNat).bytes))
        (UInt8.ofNat (10 + (packetSend.read 10).toNat)) buf := by
  have joined := Buffer.store_store buffer 0 (packetSend.slice 0 10).bytes
    (packetSend.slice 11 (packetSend.read 10).toNat).bytes
  rw [Buffer.bytes_length] at joined
  simp only [blePacketSendMemory]
  rw [Buffer.copy_of_fits _ (by omega) (by omega), Option.bind_some,
    Buffer.copy_of_fits _ (by omega) (by omega), Option.bind_some, joined]

/-- `ble_PacketSend` stays inside its arrays exactly for the `len` bytes that `data` has room for. -/
theorem blePacketSendMemory_isSome (packetSend buffer : Buffer 255) (buf : Buffer 258) :
    (blePacketSendMemory packetSend buffer buf).isSome ↔ (packetSend.read 10).toNat ≤ 244 := by
  constructor
  · intro some
    by_contra large
    have outside : 255 < 11 + (packetSend.read 10).toNat := by omega
    simp only [blePacketSendMemory] at some
    rw [Buffer.copy_of_fits _ (by omega) (by omega), Option.bind_some,
      Buffer.copy_of_outside _ outside] at some
    cases some
  · intro fits
    have size : (UInt8.ofNat (10 + (packetSend.read 10).toNat)).toNat ≤ 255 :=
      Nat.le_of_lt_succ (UInt8.toNat_lt _)
    rw [blePacketSendMemory_of_fits fits, bleWriteMemory_of_fits 0xab size]
    rfl

/-- The fields before `len`, which go on the wire as they lie in memory. -/
def SerialCmdMeshPacketSend.header (packetSend : SerialCmdMeshPacketSend) : List UInt8 :=
  bytes16 packetSend.appkeyHandle ++ bytes16 packetSend.srcAddr ++ bytes16 packetSend.dstAddrHandle ++
    [packetSend.ttl, packetSend.forceSegmented, packetSend.transmicSize, packetSend.friendshipCredentialFlag]

/-- The packed struct in the memory of a little-endian host. -/
def SerialCmdMeshPacketSend.memory (packetSend : SerialCmdMeshPacketSend) : Buffer 255 :=
  Buffer.store (fun _ => 0) 0 (packetSend.header ++ (packetSend.len :: packetSend.data.bytes))

theorem blePacketSend_payload (packetSend : SerialCmdMeshPacketSend) :
    (blePacketSend packetSend).payload =
      packetSend.header ++ packetSend.data.bytes.take packetSend.len.toNat := rfl

namespace SerialCmdMeshPacketSend
variable (packetSend : SerialCmdMeshPacketSend)

@[simp] theorem header_length : packetSend.header.length = 10 := rfl

theorem sent_length : (packetSend.data.bytes.take packetSend.len.toNat).length = packetSend.len.toNat := by
  rw [List.length_take, Buffer.bytes_length, Nat.min_eq_left packetSend.len_le]

theorem memory_header : (packetSend.memory.slice 0 10).bytes = packetSend.header :=
  Buffer.slice_store_between (fun _ => 0) [] packetSend.header _ (by simp)

theorem memory_len : packetSend.memory.read 10 = packetSend.len := by
  have total : (packetSend.header ++ (packetSend.len :: packetSend.data.bytes)).length = 255 := by
    simp
  rw [memory, Buffer.read_store_of_lt _ (by omega) total.le]
  rfl

theorem memory_data :
    (packetSend.memory.slice 11 packetSend.len.toNat).bytes =
      packetSend.data.bytes.take packetSend.len.toNat := by
  have fits := packetSend.len_le
  have length := packetSend.sent_length
  have copied := Buffer.slice_store_between (fun _ => 0 : Buffer 255) (packetSend.header ++ [packetSend.len])
    (packetSend.data.bytes.take packetSend.len.toNat) (packetSend.data.bytes.drop packetSend.len.toNat)
    (by simp [length]; omega)
  have start : (packetSend.header ++ [packetSend.len]).length = 11 := rfl
  rwa [List.take_append_drop, List.append_assoc, List.singleton_append, length, start] at copied

end SerialCmdMeshPacketSend

theorem blePacketSend_payload_length (packetSend : SerialCmdMeshPacketSend) :
    (blePacketSend packetSend).payload.length = 10 + packetSend.len.toNat := by
  rw [blePacketSend_payload, List.length_append, packetSend.sent_length, packetSend.header_length]

/-- Over memory `ble_PacketSend` puts the packet frame on the wire. -/
theorem blePacketSendMemory_memory (packetSend : SerialCmdMeshPacketSend) (buffer : Buffer 255)
    (buf : Buffer 258) :
    blePacketSendMemory packetSend.memory buffer buf = some (bleWrite (blePacketSend packetSend)) := by
  have fits := packetSend.len_le
  have length := blePacketSend_payload_length packetSend
  have holds : ((buffer.store 0 (blePacketSend packetSend).payload).slice 0
      (blePacketSend packetSend).payload.length).bytes = (blePacketSend packetSend).payload :=
    Buffer.slice_store buffer (by omega)
  have sent := bleWriteMemory_frame (blePacketSend packetSend) (by omega) holds buf
  rw [length, blePacketSend_payload] at sent
  rw [blePacketSendMemory_of_fits (by rw [packetSend.memory_len]; exact fits), packetSend.memory_len,
    packetSend.memory_header, packetSend.memory_data]
  exact sent

/-- A whole frame with a payload in one buffer is one call of `ble_parser`. -/
theorem bleParser_bleWrite {parser : BleParser} (state : parser.state = .len) {frame : SerialFrame}
    (payload : frame.payload ≠ []) :
    bleParser (bleWrite frame) parser =
      some { done := true, remainSize := 0, parser := parser.receive frame } := by
  have length := bleWrite_length_byte frame
  have opened := parser.takeLength_valid (UInt8.ofNat (1 + frame.payload.length))
  have valid := opened.takeOpcode rfl frame.opcode
  simp only [BleParser.takeLength, length] at valid
  have parsed := bleParser_of_enough valid rfl payload (Int.sub_zero (frame.payload.length : Int)) le_rfl
  rw [List.drop_length, List.take_length] at parsed
  simp only [bleWrite, bleParser, state, length]
  rw [parsed]
  simp only [BleParser.complete, BleParser.receive, BleCmd.receive, List.length_nil, Nat.zero_add]

/-- The command holds the packet: its fields and the first `len` bytes of its data. -/
structure SerialCmdMeshPacketSend.HeldBy (packetSend : SerialCmdMeshPacketSend) (cmd : BleCmd) : Prop where
  opcode : cmd.opcode = 0xab
  len : cmd.len = 10 + packetSend.len.toNat
  appkeyHandle : cmd.word 0 = packetSend.appkeyHandle
  srcAddr : cmd.word 2 = packetSend.srcAddr
  dstAddrHandle : cmd.word 4 = packetSend.dstAddrHandle
  ttl : cmd.data.read 6 = packetSend.ttl
  forceSegmented : cmd.data.read 7 = packetSend.forceSegmented
  transmicSize : cmd.data.read 8 = packetSend.transmicSize
  friendshipCredentialFlag : cmd.data.read 9 = packetSend.friendshipCredentialFlag
  data : (cmd.data.slice 10 packetSend.len.toNat).bytes = packetSend.data.bytes.take packetSend.len.toNat

theorem SerialCmdMeshPacketSend.heldBy_receive (packetSend : SerialCmdMeshPacketSend) (cmd : BleCmd) :
    packetSend.HeldBy (cmd.receive (blePacketSend packetSend)) := by
  have length := blePacketSend_payload_length packetSend
  have byte {i : Nat} (inside : i < 10) :
      (cmd.receive (blePacketSend packetSend)).data.read i = (blePacketSend packetSend).byte i :=
    cmd.receive_read_of_lt (by omega)
  have word {off : Nat} (inside : off + 2 ≤ 10) :
      (cmd.receive (blePacketSend packetSend)).word off = (blePacketSend packetSend).word off :=
    cmd.receive_word (by omega)
  constructor
  case opcode => rfl
  case len =>
    simp only [BleCmd.receive, length]
    push_cast
    rfl
  case appkeyHandle =>
    rw [word (by decide)]
    exact word16_bytes16 _
  case srcAddr =>
    rw [word (by decide)]
    exact word16_bytes16 _
  case dstAddrHandle =>
    rw [word (by decide)]
    exact word16_bytes16 _
  case ttl => exact byte (by decide)
  case forceSegmented => exact byte (by decide)
  case transmicSize => exact byte (by decide)
  case friendshipCredentialFlag => exact byte (by decide)
  case data =>
    have fits := packetSend.len_le
    have read := Buffer.slice_store_between cmd.data packetSend.header
      (packetSend.data.bytes.take packetSend.len.toNat) []
      (by rw [packetSend.header_length, packetSend.sent_length]; omega)
    rwa [List.append_nil, packetSend.header_length, packetSend.sent_length] at read

/-- A mesh packet survives packing and framing: `ble_PacketSend` puts one frame on the wire, which
one call of `ble_parser` reads back, and the sizes fit their eight bits. -/
theorem blePacketSend_parsed (packetSend : SerialCmdMeshPacketSend) (buffer : Buffer 255) (buf : Buffer 258)
    {parser : BleParser} (state : parser.state = .len) :
    ∃ wire ret, blePacketSendMemory packetSend.memory buffer buf = some wire ∧
      bleParser wire parser = some ret ∧ ret.done = true ∧ ret.remainSize = 0 ∧
      ret.parser.state = .len ∧ packetSend.HeldBy ret.parser.cmd ∧
      (UInt8.ofNat (10 + packetSend.len.toNat)).toNat = 10 + packetSend.len.toNat ∧
      (wire.getD 0 0).toNat = 1 + (10 + packetSend.len.toNat) ∧
      wire.length = 2 + (10 + packetSend.len.toNat) := by
  have fits := packetSend.len_le
  have length := blePacketSend_payload_length packetSend
  have payload : (blePacketSend packetSend).payload ≠ [] := List.ne_nil_of_length_pos (by omega)
  have size : (UInt8.ofNat (10 + packetSend.len.toNat)).toNat = 10 + packetSend.len.toNat :=
    UInt8.toNat_ofNat_of_lt (show 10 + packetSend.len.toNat < 256 by omega)
  have lengthByte : ((bleWrite (blePacketSend packetSend)).getD 0 0).toNat =
      1 + (10 + packetSend.len.toNat) := by
    rw [← length]
    exact UInt8.toNat_ofNat_of_lt (show 1 + (blePacketSend packetSend).payload.length < 256 by omega)
  have total : (bleWrite (blePacketSend packetSend)).length = 2 + (10 + packetSend.len.toNat) := by
    simp only [bleWrite, List.length_cons, length]
    omega
  exact ⟨_, _, blePacketSendMemory_memory packetSend buffer buf, bleParser_bleWrite state payload, rfl, rfl,
    rfl, packetSend.heldBy_receive parser.cmd, size, lengthByte, total⟩

theorem blePacketSend_parsed_onOff :
    ∃ wire ret, blePacketSendMemory (meshPacket 0x0001 0x0002 [0x82, 0x02, 0x01, 0x01] (by decide)).memory
        (fun _ => 0xff) (fun _ => 0xff) = some wire ∧
      bleParser wire bleCliInit = some ret ∧ ret.done = true ∧ ret.remainSize = 0 ∧
      ret.parser.state = .len ∧
      (meshPacket 0x0001 0x0002 [0x82, 0x02, 0x01, 0x01] (by decide)).HeldBy ret.parser.cmd ∧
      (UInt8.ofNat (10 + 4)).toNat = 10 + 4 ∧ (wire.getD 0 0).toNat = 1 + (10 + 4) ∧
      wire.length = 2 + (10 + 4) :=
  blePacketSend_parsed (meshPacket 0x0001 0x0002 [0x82, 0x02, 0x01, 0x01] (by decide)) _ _ rfl

end BleGateway
