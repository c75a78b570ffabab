import BleGateway.Command

namespace BleGateway

/-- The program state the receive thread works on. -/
structure Gateway where
  localParser : BleParser
  globals : Globals

def Gateway.init : Gateway where
  localParser := bleCliInit
  globals := Globals.init

/-- What a stretch of the receive path leaves: the program state, the commands handed
to `ble_processCommand` and the frames written, both in order. -/
structure Received where
  gateway : Gateway
  dispatched : List BleCmd
  written : List SerialFrame

def Received.after (later : Received) (dispatched : List BleCmd) (written : List SerialFrame) : Received where
  gateway := later.gateway
  dispatched := dispatched ++ later.dispatched
  written := written ++ later.written

variable (uECC_shared_secret : UECCSharedSecret)

/-- The `while (remainSize)` loop of `ble_handle_cmd`, run for at most the given number of rounds.
`none` is a parser call without defined outcome, or too few rounds. -/
def handleCmdLoop (data : List UInt8) : Nat → Nat → Gateway → Option Received
  | _, 0, g => some { gateway := g, dispatched := [], written := [] }
  | 0, _ + 1, _ => none
  | rounds + 1, remainSize + 1, g =>
    (bleParser (data.drop (data.length - (remainSize + 1))) g.localParser).bind fun r =>
      if r.done then
        let (globals, frames) := bleProcessCommand uECC_shared_secret r.parser.cmd g.globals
        (handleCmdLoop data rounds r.remainSize { localParser := r.parser, globals }).map
          (·.after [r.parser.cmd] frames)
      else handleCmdLoop data rounds r.remainSize { g with localParser := r.parser }

/-- `ble_handle_cmd`. A round that consumes nothing takes the parser from DATA to LEN, so two
rounds a byte and one more suffice. -/
def bleHandleCmd (data : List UInt8) (g : Gateway) : Option Received :=
  handleCmdLoop uECC_shared_secret data (2 * data.length + 1) data.length g

def receiveBufSize : Nat := 256

/-- One `read` of `ble_receive_handle`: an error, or the bytes it put in `buf`. -/
inductive ReadResult
  | error
  | bytes (buf : List UInt8) (fits : buf.length ≤ receiveBufSize)

/-- `len == 1 && buf[0] == 0`, taken for a restart of the module. -/
def restartMarker (buf : List UInt8) : Prop := buf.length = 1 ∧ buf[0]? = some 0

instance (buf : List UInt8) : Decidable (restartMarker buf) := inferInstanceAs (Decidable (_ ∧ _))

/-- The loop of `ble_receive_handle` over the reads it makes. -/
def bleReceiveHandle : List ReadResult → Gateway → Option Received
  | [], g => some { gateway := g, dispatched := [], written := [] }
  | .error :: reads, g => bleReceiveHandle reads g
  | .bytes buf _ :: reads, g =>
    if restartMarker buf then bleReceiveHandle reads g
    else if 0 < buf.length then
      (bleHandleCmd uECC_shared_secret buf g).bind fun first =>
        (bleReceiveHandle reads first.gateway).map (·.after first.dispatched first.written)
    else bleReceiveHandle reads g

end BleGateway
