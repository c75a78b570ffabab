import BleGateway.Events

namespace BleGateway
open LittleEndian

inductive BleUnprovisionerState
  | new
  | provision
  | oobuse
  | ecdh
  | auth
  | devkeyAddrpubadd
  | psComposdata
  | psAppkeyAdd
  | psModelAppBind
  | psModelPublicationSet
deriving DecidableEq, Repr

structure BleUnprovisioner where
  state : BleUnprovisionerState
  dstAddrHandle : UInt16
  devkeyHandle : UInt16
  unicast : UInt16
  subnetHandle : UInt16
  elementAddress : UInt16
deriving DecidableEq

/-- What `uECC_shared_secret` leaves behind: the secret it wrote and its return code. -/
structure SharedSecret where
  secret : Buffer 32
  ret : Int

/-- `uECC_shared_secret` of the vendored TinyCrypt, on the public and the private key. -/
abbrev UECCSharedSecret : Type := Buffer 64 → Buffer 32 → SharedSecret

def networkKey : List UInt8 :=
  [0x18, 0xee, 0xd9, 0xc2, 0xa5, 0x6a, 0xdd, 0x85, 0x04, 0x9f, 0xfc, 0x3c, 0x59, 0xad, 0x0e, 0x12]

def appKey : List UInt8 :=
  [0x4f, 0x68, 0xad, 0x85, 0xd9, 0xf4, 0x8a, 0xc8, 0x58, 0x9d, 0xf6, 0x65, 0xb6, 0xb4, 0x9b, 0x8a]

def appKey2 : List UInt8 :=
  [0x2a, 0xa2, 0xa6, 0xde, 0xd5, 0xa0, 0x79, 0x8c, 0xea, 0xb5, 0x78, 0x7c, 0xa3, 0xae, 0x39, 0xfc]

def dataAuthencation : List UInt8 :=
  [0x6E, 0x6F, 0x72, 0x64, 0x69, 0x63, 0x5F, 0x65, 0x78, 0x61, 0x6D, 0x70, 0x6C, 0x65, 0x5F, 0x31]

def bleSrcAddr : UInt16 := 0x0001

def appKeyId : UInt16 := 0x0000

def appKeyId2 : UInt16 := 0x0001

def netkeyId : UInt16 := 0x0000

def devAddrInit : UInt16 := 0x001a

def SerialFrame.byte (frame : SerialFrame) (i : Nat) : UInt8 := frame.payload.getD i 0

def SerialFrame.word (frame : SerialFrame) (off : Nat) : UInt16 :=
  word16 (frame.byte off) (frame.byte (off + 1))

def bleRadioReset : SerialFrame where
  opcode := serialOpcodeCmdDeviceRadioReset
  payload := []
  bound := by decide

/-- `ble_scanStart`, with the opcode the source passes. -/
def bleScanStart : SerialFrame where
  opcode := serialOpcodeCmdDfuJumpToBootloader
  payload := []
  bound := by decide

def bleScanStop : SerialFrame where
  opcode := 0x62
  payload := []
  bound := by decide

/-- The `serial_cmd_prov_data_t` frame for a device and the address assigned to it. -/
def provDataFrame (uuid : Buffer 16) (address : UInt16) : SerialFrame where
  opcode := 0x63
  payload := [0x00] ++ uuid.bytes ++ networkKey ++ bytes16 netkeyId ++ [0x00, 0x00, 0x00, 0x00] ++
    bytes16 address ++ [0x00, 0x00, 0x00]
  bound := by simp [networkKey, nrfMeshSerialPayloadMaxlen]

def bleProvision (provUnproRecv : BleProvUnprovisionedRecv) (devAddr : UInt16) : UInt16 × SerialFrame :=
  let devAddr := devAddr + 1
  (devAddr, provDataFrame provUnproRecv.uuid devAddr)

def bleOOBuse (provCapsRecv : BleProvCapsRecv) : SerialFrame where
  opcode := 0x66
  payload := [provCapsRecv.contextID, 0x01, provCapsRecv.inOOBAct, provCapsRecv.inOOBSize]
  bound := by simp [nrfMeshSerialPayloadMaxlen]

/-- `ble_ECDHSecret`: the return code of `uECC_shared_secret` is not looked at. -/
def bleECDHSecret (uECC_shared_secret : UECCSharedSecret) (provECDHReq : BleProvECDHReq) : SerialFrame where
  opcode := 0x68
  payload := provECDHReq.contextID ::
    (uECC_shared_secret provECDHReq.peerPublic provECDHReq.nodePrivate).secret.bytes
  bound := by simp [nrfMeshSerialPayloadMaxlen]

def bleAuthData (provAuthReq : BleProvAuthReq) : SerialFrame where
  opcode := 0x67
  payload := provAuthReq.contextID :: dataAuthencation
  bound := by simp [dataAuthencation, nrfMeshSerialPayloadMaxlen]

def bleAddrLocalUnicastSet : SerialFrame where
  opcode := 0x9f
  payload := bytes16 0x0001 ++ bytes16 0x0001
  bound := by decide

def bleSubnetAdd : SerialFrame where
  opcode := 0x92
  payload := bytes16 netkeyId ++ networkKey
  bound := by decide

/-- A `serial_cmd_mesh_appkey_add_t` frame; both app-key senders differ in index and key only. -/
def appkeyAddFrame (appKeyIndex : UInt16) (key : List UInt8) (size : key.length = 16)
    (unprovisioner : BleUnprovisioner) : SerialFrame where
  opcode := 0x97
  payload := bytes16 appKeyIndex ++ bytes16 unprovisioner.subnetHandle ++ key
  bound := by simp [size, nrfMeshSerialPayloadMaxlen]

def bleAppKeyAdd (unprovisioner : BleUnprovisioner) : SerialFrame :=
  appkeyAddFrame appKeyId appKey rfl unprovisioner

def bleAppKeyAdd2 (unprovisioner : BleUnprovisioner) : SerialFrame :=
  appkeyAddFrame appKeyId2 appKey2 rfl unprovisioner

/-- `ble_DevkeyAdd`: the owner address is the global `dev_addr`. -/
def bleDevkeyAdd (provComplete : BleProvComplete) (unprovisioner : BleUnprovisioner) (devAddr : UInt16) :
    SerialFrame where
  opcode := 0x9c
  payload := bytes16 devAddr ++ bytes16 unprovisioner.subnetHandle ++ provComplete.devkey.bytes
  bound := by simp [nrfMeshSerialPayloadMaxlen]

def bleAddrPublicationAdd (devAddr : UInt16) : SerialFrame where
  opcode := 0xa4
  payload := bytes16 devAddr
  bound := by simp [nrfMeshSerialPayloadMaxlen]

/-- `serial_cmd_mesh_packet_send_t` with `len` within the capacity of its data array. -/
structure SerialCmdMeshPacketSend where
  appkeyHandle : UInt16
  srcAddr : UInt16
  dstAddrHandle : UInt16
  ttl : UInt8
  forceSegmented : UInt8
  transmicSize : UInt8
  friendshipCredentialFlag : UInt8
  len : UInt8
  data : Buffer 244
  len_le : len.toNat ≤ 244

/-- `ble_PacketSend`: the ten bytes before `len`, then `len` bytes of data. -/
def blePacketSend (packetSend : SerialCmdMeshPacketSend) : SerialFrame where
  opcode := 0xab
  payload := bytes16 packetSend.appkeyHandle ++ bytes16 packetSend.srcAddr ++
    bytes16 packetSend.dstAddrHandle ++ [packetSend.ttl, packetSend.forceSegmented,
      packetSend.transmicSize, packetSend.friendshipCredentialFlag] ++
    packetSend.data.bytes.take packetSend.len.toNat
  bound := by
    have := packetSend.len_le
    simp only [List.length_append, bytes16_length, List.length_cons, List.length_nil,
      List.length_take, Buffer.bytes_length, nrfMeshSerialPayloadMaxlen]
    omega

/-- The packet every sender builds: the fixed header values around two handles and an access
payload. The rest of the data array, uninitialised in the source, is never sent. -/
def meshPacket (appkeyHandle dstAddrHandle : UInt16) (data : List UInt8) (fits : data.length ≤ 244) :
    SerialCmdMeshPacketSend where
  appkeyHandle
  srcAddr := bleSrcAddr
  dstAddrHandle
  ttl := 0x08
  forceSegmented := 0x00
  transmicSize := 0x00
  friendshipCredentialFlag := 0x00
  len := UInt8.ofNat data.length
  data := Buffer.store (fun _ => 0) 0 data
  len_le := by
    rw [UInt8.toNat_ofNat']
    omega

def blePackerSendCompositionData (unprovisioner : BleUnprovisioner) : SerialFrame :=
  blePacketSend (meshPacket unprovisioner.devkeyHandle unprovisioner.dstAddrHandle
    [0x80, 0x08, 0x00] (by decide))

def blePackerSendAppkeyAdd (unprovisioner : BleUnprovisioner) : SerialFrame :=
  blePacketSend (meshPacket unprovisioner.devkeyHandle unprovisioner.dstAddrHandle
    ([0x00, 0x00, 0x00, 0x00] ++ appKey) (by decide))

def blePacketSendModelAppBind (unprovisioner : BleUnprovisioner) : SerialFrame :=
  blePacketSend (meshPacket unprovisioner.devkeyHandle unprovisioner.dstAddrHandle
    [0x80, 0x3d, 0x1a, 0x00, 0x00, 0x00, 0x00, 0x10] (by decide))

/-- The on/off senders put the subnet handle where the others put the device key handle. -/
def blePacketSendGenericClientSetTrue (unprovisioner : BleUnprovisioner) : SerialFrame :=
  blePacketSend (meshPacket unprovisioner.subnetHandle unprovisioner.dstAddrHandle
    [0x82, 0x02, 0x01, 0x01] (by decide))

def blePacketSendGenericClientSetFalse (unprovisioner : BleUnprovisioner) : SerialFrame :=
  blePacketSend (meshPacket unprovisioner.subnetHandle unprovisioner.dstAddrHandle
    [0x82, 0x02, 0x00, 0x02] (by decide))

def blePacketSendNodeReset (unprovisioner : BleUnprovisioner) : SerialFrame :=
  blePacketSend (meshPacket unprovisioner.devkeyHandle unprovisioner.dstAddrHandle
    [0x80, 0x49] (by decide))

def blePacketSendPublicationSet (unprovisioner : BleUnprovisioner) : SerialFrame :=
  blePacketSend (meshPacket unprovisioner.devkeyHandle unprovisioner.dstAddrHandle
    [0x03, 0x1a, 0x00, 0x01, 0x00, 0x00, 0x00, 0x01, 0x00, 0x00, 0x00, 0x10] (by decide))

/-! The opcode of every frame the program writes. -/

@[simp] theorem bleScanStart_opcode : bleScanStart.opcode = serialOpcodeCmdDfuJumpToBootloader := rfl

@[simp] theorem bleScanStop_opcode : bleScanStop.opcode = 0x62 := rfl

@[simp] theorem provDataFrame_opcode (uuid : Buffer 16) (address : UInt16) :
    (provDataFrame uuid address).opcode = 0x63 := rfl

@[simp] theorem bleOOBuse_opcode (provCapsRecv : BleProvCapsRecv) : (bleOOBuse provCapsRecv).opcode = 0x66 := rfl

@[simp] theorem bleECDHSecret_opcode (uECC_shared_secret : UECCSharedSecret) (provECDHReq : BleProvECDHReq) :
    (bleECDHSecret uECC_shared_secret provECDHReq).opcode = 0x68 := rfl

@[simp] theorem bleAuthData_opcode (provAuthReq : BleProvAuthReq) : (bleAuthData provAuthReq).opcode = 0x67 := rfl

@[simp] theorem bleAddrLocalUnicastSet_opcode : bleAddrLocalUnicastSet.opcode = 0x9f := rfl

@[simp] theorem bleSubnetAdd_opcode : bleSubnetAdd.opcode = 0x92 := rfl

@[simp] theorem bleAppKeyAdd_opcode (unprovisioner : BleUnprovisioner) :
    (bleAppKeyAdd unprovisioner).opcode = 0x97 := rfl

@[simp] theorem bleAppKeyAdd2_opcode (unprovisioner : BleUnprovisioner) :
    (bleAppKeyAdd2 unprovisioner).opcode = 0x97 := rfl

@[simp] theorem bleDevkeyAdd_opcode (provComplete : BleProvComplete) (unprovisioner : BleUnprovisioner)
    (devAddr : UInt16) : (bleDevkeyAdd provComplete unprovisioner devAddr).opcode = 0x9c := rfl

@[simp] theorem bleAddrPublicationAdd_opcode (devAddr : UInt16) :
    (bleAddrPublicationAdd devAddr).opcode = 0xa4 := rfl

@[simp] theorem blePacketSend_opcode (packetSend : SerialCmdMeshPacketSend) :
    (blePacketSend packetSend).opcode = 0xab := rfl

@[simp] theorem blePackerSendCompositionData_opcode (unprovisioner : BleUnprovisioner) :
    (blePackerSendCompositionData unprovisioner).opcode = 0xab := rfl

@[simp] theorem blePackerSendAppkeyAdd_opcode (unprovisioner : BleUnprovisioner) :
    (blePackerSendAppkeyAdd unprovisioner).opcode = 0xab := rfl

@[simp] theorem blePacketSendModelAppBind_opcode (unprovisioner : BleUnprovisioner) :
    (blePacketSendModelAppBind unprovisioner).opcode = 0xab := rfl

@[simp] theorem blePacketSendPublicationSet_opcode (unprovisioner : BleUnprovisioner) :
    (blePacketSendPublicationSet unprovisioner).opcode = 0xab := rfl

@[simp] theorem blePacketSendGenericClientSetTrue_opcode (unprovisioner : BleUnprovisioner) :
    (blePacketSendGenericClientSetTrue unprovisioner).opcode = 0xab := rfl

@[simp] theorem blePacketSendGenericClientSetFalse_opcode (unprovisioner : BleUnprovisioner) :
    (blePacketSendGenericClientSetFalse unprovisioner).opcode = 0xab := rfl

@[simp] theorem blePacketSendNodeReset_opcode (unprovisioner : BleUnprovisioner) :
    (blePacketSendNodeReset unprovisioner).opcode = 0xab := rfl

theorem SerialFrame.word_of_payload {frame : SerialFrame} {x : UInt16} (before after : List UInt8)
    (payload : frame.payload = before ++ (bytes16 x ++ after)) : frame.word before.length = x := by
  have lo : (before ++ (bytes16 x ++ after))[before.length]? = some (UInt8.ofNat x.toNat) := by
    rw [List.getElem?_append_right le_rfl, Nat.sub_self]
    rfl
  have hi : (before ++ (bytes16 x ++ after))[before.length + 1]? = some (UInt8.ofNat (x.toNat / 256)) := by
    rw [List.getElem?_append_right (Nat.le_add_right _ 1), Nat.add_sub_cancel_left]
    rfl
  simp only [SerialFrame.word, SerialFrame.byte, payload, List.getD_eq_getElem?_getD, lo, hi,
    Option.getD_some]
  exact word16_bytes16 x

theorem blePacketSend_meshPacket_payload (appkeyHandle dstAddrHandle : UInt16) (data : List UInt8)
    (fits : data.length ≤ 244) :
    (blePacketSend (meshPacket appkeyHandle dstAddrHandle data fits)).payload =
      bytes16 appkeyHandle ++ bytes16 bleSrcAddr ++ bytes16 dstAddrHandle ++ [0x08, 0x00, 0x00, 0x00] ++
        data := by
  have len : (UInt8.ofNat data.length).toNat = data.length := by
    rw [UInt8.toNat_ofNat']
    omega
  have sent : (Buffer.store (fun _ => 0) 0 data : Buffer 244).bytes.take data.length = data := by
    apply List.ext_getElem
    · rw [List.length_take, Buffer.bytes_length]
      omega
    · intro i h inside
      have read := Buffer.read_store_of_lt (fun _ => 0 : Buffer 244) inside fits
      rw [Buffer.read_of_lt _ (by omega : i < 244)] at read
      rw [List.getElem_take]
      exact (List.getElem_ofFn _).trans read
  simp only [blePacketSend, meshPacket, len, sent]

theorem blePacketSend_meshPacket_appkeyHandle (appkeyHandle dstAddrHandle : UInt16) (data : List UInt8)
    (fits : data.length ≤ 244) :
    (blePacketSend (meshPacket appkeyHandle dstAddrHandle data fits)).word 0 = appkeyHandle :=
  SerialFrame.word_of_payload [] _ (by
    rw [blePacketSend_meshPacket_payload, List.nil_append]
    simp only [List.append_assoc]
    rfl)

theorem blePacketSend_meshPacket_dstAddrHandle (appkeyHandle dstAddrHandle : UInt16) (data : List UInt8)
    (fits : data.length ≤ 244) :
    (blePacketSend (meshPacket appkeyHandle dstAddrHandle data fits)).word 4 = dstAddrHandle :=
  SerialFrame.word_of_payload (bytes16 appkeyHandle ++ bytes16 bleSrcAddr) _ (by
    rw [blePacketSend_meshPacket_payload]
    simp only [List.append_assoc]
    rfl)

/-- The access message follows ten header bytes. -/
theorem blePacketSend_meshPacket_message (appkeyHandle dstAddrHandle : UInt16) (data : List UInt8)
    (fits : data.length ≤ 244) :
    (blePacketSend (meshPacket appkeyHandle dstAddrHandle data fits)).payload.drop 10 = data := by
  have header : (bytes16 appkeyHandle ++ bytes16 bleSrcAddr ++ bytes16 dstAddrHandle ++
      [0x08, 0x00, 0x00, 0x00]).length = 10 := rfl
  rw [blePacketSend_meshPacket_payload, ← header, List.drop_left]

/-- The words of an access message, behind the ten header bytes. -/
theorem blePacketSend_meshPacket_word (appkeyHandle dstAddrHandle : UInt16) (data : List UInt8)
    (fits : data.length ≤ 244) (off : Nat) :
    (blePacketSend (meshPacket appkeyHandle dstAddrHandle data fits)).word (10 + off) =
      word16 (data.getD off 0) (data.getD (off + 1) 0) := by
  have byte (i : Nat) : (blePacketSend (meshPacket appkeyHandle dstAddrHandle data fits)).byte (10 + i) =
      data.getD i 0 := by
    have message := blePacketSend_meshPacket_message appkeyHandle dstAddrHandle data fits
    rw [SerialFrame.byte, List.getD_eq_getElem?_getD, ← List.getElem?_drop, message, List.getD_eq_getElem?_getD]
  rw [SerialFrame.word, Nat.add_assoc, byte, byte]

theorem provDataFrame_address (uuid : Buffer 16) (address : UInt16) :
    (provDataFrame uuid address).word 39 = address := by
  have lead : ([0x00] ++ uuid.bytes ++ networkKey ++ bytes16 netkeyId ++
      [0x00, 0x00, 0x00, 0x00] : List UInt8).length = 39 := by simp [networkKey]
  have layout : (provDataFrame uuid address).payload =
      ([0x00] ++ uuid.bytes ++ networkKey ++ bytes16 netkeyId ++ [0x00, 0x00, 0x00, 0x00]) ++
        (bytes16 address ++ [0x00, 0x00, 0x00]) := List.append_assoc _ _ _
  simpa only [lead] using SerialFrame.word_of_payload _ _ layout

theorem bleDevkeyAdd_ownerAddr (provComplete : BleProvComplete) (unprovisioner : BleUnprovisioner)
    (devAddr : UInt16) : (bleDevkeyAdd provComplete unprovisioner devAddr).word 0 = devAddr :=
  word16_bytes16 devAddr

theorem bleDevkeyAdd_subnetHandle (provComplete : BleProvComplete) (unprovisioner : BleUnprovisioner)
    (devAddr : UInt16) : (bleDevkeyAdd provComplete unprovisioner devAddr).word 2 = unprovisioner.subnetHandle :=
  SerialFrame.word_of_payload (bytes16 devAddr) _ (List.append_assoc _ _ _)

theorem appkeyAddFrame_subnetHandle (appKeyIndex : UInt16) (key : List UInt8) (size : key.length = 16)
    (unprovisioner : BleUnprovisioner) :
    (appkeyAddFrame appKeyIndex key size unprovisioner).word 2 = unprovisioner.subnetHandle :=
  SerialFrame.word_of_payload (bytes16 appKeyIndex) _ (List.append_assoc _ _ _)

theorem bleAddrPublicationAdd_address (devAddr : UInt16) :
    (bleAddrPublicationAdd devAddr).word 0 = devAddr :=
  word16_bytes16 devAddr

end BleGateway
