import BleGateway.Lib.Mealy
import BleGateway.Receive

namespace BleGateway

/-- One round of the `switch` of `main` on the operator's key. -/
def mainKey (c : Char) (g : Globals) : Globals × List SerialFrame :=
  match c with
  | '1' => (g.setState .new, [bleScanStart])
  | '2' => (g, [bleScanStop])
  | '3' => (g, [blePacketSendGenericClientSetTrue g.unprovisioner])
  | '4' => (g, [blePacketSendGenericClientSetFalse g.unprovisioner])
  | '5' => (g, [blePackerSendCompositionData g.unprovisioner])
  | 'r' => (g, [blePacketSendNodeReset g.unprovisioner])
  | _ => (g, [])

/-- The command record once a frame has come in over an older one: bytes of
`cmd.data` past the payload keep what they held. -/
def BleCmd.receive (cmd : BleCmd) (frame : SerialFrame) : BleCmd where
  opcode := frame.opcode
  len := frame.payload.length
  data := cmd.data.store 0 frame.payload

theorem BleCmd.receive_read_of_lt (cmd : BleCmd) {f : SerialFrame} {i : Nat} (inside : i < f.payload.length) :
    (cmd.receive f).data.read i = f.byte i := by
  have fits := f.bound
  simp only [nrfMeshSerialPayloadMaxlen] at fits
  rw [BleCmd.receive, Buffer.read_store_of_lt _ inside (by omega), SerialFrame.byte,
    List.getD_eq_getElem?_getD, List.getElem?_eq_getElem inside, Option.getD_some]

theorem BleCmd.receive_read_of_ge (cmd : BleCmd) {f : SerialFrame} {i : Nat} (outside : f.payload.length ≤ i) :
    (cmd.receive f).data.read i = cmd.data.read i :=
  Buffer.read_store_of_ge _ outside

theorem BleCmd.receive_word (cmd : BleCmd) {f : SerialFrame} {off : Nat} (inside : off + 2 ≤ f.payload.length) :
    (cmd.receive f).word off = f.word off := by
  rw [BleCmd.word, cmd.receive_read_of_lt (by omega), cmd.receive_read_of_lt (by omega)]
  rfl

/-- The parser at the moment it hands over a frame. -/
def BleParser.receive (parser : BleParser) (frame : SerialFrame) : BleParser where
  state := .len
  cmd := parser.cmd.receive frame
  pos := frame.payload.length

/-- Which thread wrote a frame: an event handler or a key of `main`. -/
inductive Origin
  | handler
  | operator
deriving DecidableEq

structure Write where
  origin : Origin
  frame : SerialFrame
deriving DecidableEq

/-- One atomic step of the program: a frame the parser delivers, or a key. -/
inductive Input
  | frame (f : SerialFrame)
  | key (c : Char)

variable (uECC_shared_secret : UECCSharedSecret)

/-- The program as a machine over delivered frames and keys. -/
def gatewayMachine : Mealy.Machine Gateway Input Write where
  step g input :=
    match input with
    | .frame f =>
      let parser := g.localParser.receive f
      let (globals, frames) := bleProcessCommand uECC_shared_secret parser.cmd g.globals
      ({ localParser := parser, globals }, frames.map fun frame => { origin := .handler, frame })
    | .key c =>
      let (globals, frames) := mainKey c g.globals
      ({ g with globals }, frames.map fun frame => { origin := .operator, frame })

end BleGateway
