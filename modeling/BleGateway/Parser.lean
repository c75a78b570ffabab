import BleGateway.Lib.Buffer

namespace BleGateway

def nrfMeshSerialPayloadMaxlen : Nat := 254

/-- The arguments of one `ble_write` call, or one frame the module sends:
an opcode and the payload behind it. -/
structure SerialFrame where
  opcode : UInt8
  payload : List UInt8
  bound : payload.length ≤ nrfMeshSerialPayloadMaxlen
deriving DecidableEq

/-- The bytes `ble_write` puts on the wire. The length byte counts the opcode. -/
def bleWrite (frame : SerialFrame) : List UInt8 :=
  let size := frame.payload.length
  let len := 1 + size
  UInt8.ofNat len :: frame.opcode :: frame.payload

inductive BleMeshParseState
  | len
  | opcode
  | data
deriving DecidableEq, Repr

/-- `ble_cmd_t`. The union `this` only points at `data`. -/
structure BleCmd where
  opcode : UInt8
  len : Int
  data : Buffer 256

structure BleParser where
  state : BleMeshParseState
  cmd : BleCmd
  pos : Nat

/-- The zeroed parser `ble_cli_init` leaves. -/
def bleCliInit : BleParser where
  state := .len
  cmd := { opcode := 0, len := 0, data := fun _ => 0 }
  pos := 0

/-- `memcpy(cmd.data + pos, src, count)` with `count` passed on as a `size_t`. A copy that leaves
the source or the 256-byte destination has no defined outcome. -/
def memcpy (dst : Buffer 256) (pos : Nat) (src : List UInt8) (count : Int) : Option (Buffer 256) :=
  if 0 ≤ count ∧ count ≤ src.length ∧ pos + count ≤ 256 then
    some (dst.store pos (src.take count.toNat))
  else none

theorem memcpy_of_fits (dst : Buffer 256) (pos : Nat) {count : Nat} {src : List UInt8}
    (available : count ≤ src.length) (room : pos + count ≤ 256) :
    memcpy dst pos src count = some (dst.store pos (src.take count)) := by
  rw [memcpy, if_pos ⟨Int.natCast_nonneg count, by omega, by omega⟩, Int.toNat_natCast]

theorem memcpy_of_neg {dst : Buffer 256} {pos : Nat} {src : List UInt8} {count : Int}
    (negative : count < 0) : memcpy dst pos src count = none := by
  rw [memcpy, if_neg (by omega)]

/-- What a call of `ble_parser` leaves: its result, `*remainSize` and the parser record. -/
structure ParserReturn where
  done : Bool
  remainSize : Nat
  parser : BleParser

/-- `ble_parser`. The list is the `size` bytes from `p` on, and the recursion
is the `while` loop; `none` is a `memcpy` out of bounds. -/
def bleParser : List UInt8 → BleParser → Option ParserReturn
  | [], parser => some { done := false, remainSize := 0, parser }
  | byte :: rest, parser =>
    match parser.state with
    | .len =>
      bleParser rest
        { parser with pos := 0, cmd.len := (byte.toNat : Int) - 1, state := .opcode }
    | .opcode =>
      bleParser rest { parser with cmd.opcode := byte, state := .data }
    | .data =>
      let size := (byte :: rest).length
      let rsize := parser.cmd.len - parser.pos
      if rsize ≤ size then
        (memcpy parser.cmd.data parser.pos (byte :: rest) rsize).map fun data =>
          { done := true
            remainSize := ((size : Int) - rsize).toNat
            parser := { parser with cmd.data := data, pos := parser.pos + rsize.toNat, state := .len } }
      else
        (memcpy parser.cmd.data parser.pos (byte :: rest) size).map fun data =>
          { done := false
            remainSize := 0
            parser := { parser with cmd.data := data, pos := parser.pos + size } }

end BleGateway
