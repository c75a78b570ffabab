import BleGateway.ReceiveLoop
import BleGateway.GatewayRun

namespace BleGateway

/-- The parser within the payload of a frame of which it has taken some bytes. -/
def BleParser.inPayload (p : BleParser) (opcode : UInt8) (size : Nat) (taken : List UInt8) : BleParser where
  state := .data
  cmd := { opcode, len := size, data := p.cmd.data.store 0 taken }
  pos := taken.length

/-- The parser between two frames, once it has taken the bytes of a part of the next one. -/
inductive Pending (p : BleParser) : List UInt8 → BleParser → Prop
  | idle : Pending p [] p
  | length {byte} : byte ≠ 0 → Pending p [byte] (p.takeLength byte)
  | payload {opcode size taken} : size ≤ nrfMeshSerialPayloadMaxlen → taken = [] ∨ taken.length < size →
      Pending p (UInt8.ofNat (1 + size) :: opcode :: taken) (p.inPayload opcode size taken)

/-- What one more byte makes of a part of a frame: a longer part, or the frame and what is left of the byte. -/
inductive TakesByte (p : BleParser) (bytes : List UInt8) : Option BleParser × List BleCmd → Prop
  | more {q} : Pending p bytes q → TakesByte p bytes (some q, [])
  | frame {f rest q} : bytes = bleWrite f ++ rest → Pending (p.receive f) rest q →
      TakesByte p bytes (some q, [(p.receive f).cmd])

theorem length_byte {byte : UInt8} (nonzero : byte ≠ 0) : UInt8.ofNat (1 + (byte.toNat - 1)) = byte := by
  have positive : byte.toNat ≠ 0 := fun zero => nonzero (UInt8.toNat_inj.mp zero)
  rw [show 1 + (byte.toNat - 1) = byte.toNat by omega, UInt8.ofNat_toNat]

/-- The opcode comes next: the parser is at the head of a payload. -/
theorem takesByte_opcode (p : BleParser) {byte : UInt8} (nonzero : byte ≠ 0) (opcode : UInt8) :
    TakesByte p [byte, opcode] (byteStep (p.takeLength byte) opcode) := by
  have small : byte.toNat - 1 ≤ nrfMeshSerialPayloadMaxlen := by
    have bound := byte.toNat_lt
    simp only [nrfMeshSerialPayloadMaxlen]
    omega
  have positive : byte.toNat ≠ 0 := fun zero => nonzero (UInt8.toNat_inj.mp zero)
  have size : ((byte.toNat - 1 : Nat) : Int) = (byte.toNat : Int) - 1 := by omega
  have payload := @Pending.payload p opcode _ [] small (Or.inl rfl)
  rw [length_byte nonzero, BleParser.inPayload, size, Buffer.store_nil] at payload
  exact .more payload

theorem byteStep_complete {p : BleParser} (data : p.state = .data) {byte : UInt8} (filled : p.pos + 1 = p.cmd.len) :
    byteStep p byte = (some (p.complete [byte]), [(p.complete [byte]).cmd]) := by
  obtain ⟨final, outputs⟩ := byteMachine_payload_complete data (List.cons_ne_nil byte []) filled
  exact Prod.ext final ((List.append_nil _).symm.trans outputs)

theorem byteStep_inside {p : BleParser} (data : p.state = .data) {byte : UInt8} (short : p.pos + 1 < p.cmd.len) :
    byteStep p byte = (some { p with cmd.data := p.cmd.data.store p.pos [byte], pos := p.pos + 1 }, []) := by
  obtain ⟨final, outputs⟩ := byteMachine_payload_partial [byte] data short
  exact Prod.ext final ((List.append_nil _).symm.trans outputs)

theorem takesByte_payload (p : BleParser) {opcode byte : UInt8} {size : Nat} {taken : List UInt8}
    (small : size ≤ nrfMeshSerialPayloadMaxlen) (room : taken = [] ∨ taken.length < size)
    (nonzero : (p.inPayload opcode size taken).AtLength → byte ≠ 0) :
    TakesByte p (UInt8.ofNat (1 + size) :: opcode :: (taken ++ [byte]))
      (byteStep (p.inPayload opcode size taken) byte) := by
  by_cases filled : taken.length = size
  · -- a frame without payload is handed over before the byte is taken, as a length byte
    obtain rfl := room.resolve_right (by omega)
    obtain rfl : 0 = size := filled
    have length := Pending.length (p := p.receive ⟨opcode, [], small⟩) (nonzero (Or.inr ⟨rfl, rfl⟩))
    exact .frame (f := ⟨opcode, [], small⟩) rfl length
  have inside : taken.length < size := by
    rcases room with rfl | less
    · exact Nat.pos_of_ne_zero (Ne.symm filled)
    · exact less
  have stored : (p.inPayload opcode size taken).cmd.data.store taken.length [byte] =
      p.cmd.data.store 0 (taken ++ [byte]) := by
    have concat := p.cmd.data.store_concat 0 taken byte
    rw [Nat.zero_add] at concat
    exact concat
  have length : (taken ++ [byte]).length = taken.length + 1 := List.length_append
  by_cases last : taken.length + 1 = size
  · obtain ⟨f, code, payload⟩ : ∃ f : SerialFrame, f.opcode = opcode ∧ f.payload = taken ++ [byte] :=
      ⟨⟨opcode, taken ++ [byte], by omega⟩, rfl, rfl⟩
    have wire : UInt8.ofNat (1 + size) :: opcode :: (taken ++ [byte]) = bleWrite f ++ [] := by
      rw [bleWrite, code, payload, length, last, List.append_nil]
    have complete : (p.inPayload opcode size taken).complete [byte] = p.receive f := by
      rw [BleParser.complete, BleParser.receive, BleCmd.receive, code, payload, length, last, ← stored, ← last]
      rfl
    rw [byteStep_complete rfl (congrArg Nat.cast last), complete]
    exact .frame wire .idle
  · have short : (taken.length : Int) + 1 < size := by omega
    have longer := @Pending.payload p opcode size (taken ++ [byte]) small (Or.inr (by omega))
    rw [BleParser.inPayload, length, ← stored] at longer
    rw [byteStep_inside rfl short]
    exact .more longer

theorem Pending.takesByte {p q : BleParser} {part : List UInt8} (state : p.state = .len) (pending : Pending p part q)
    {byte : UInt8} (nonzero : q.AtLength → byte ≠ 0) : TakesByte p (part ++ [byte]) (byteStep q byte) := by
  cases pending with
  | idle =>
    have step : byteStep p byte = (some (p.takeLength byte), []) := by simp only [byteStep, state]
    rw [step]
    exact .more (.length (nonzero (Or.inl state)))
  | length some => exact takesByte_opcode p some byte
  | payload small room => exact takesByte_payload p small room nonzero

theorem Pending.valid {p q : BleParser} {part : List UInt8} (state : p.state = .len) (pending : Pending p part q) :
    q.Valid := by
  cases pending with
  | idle => exact BleParser.valid_of_len state
  | length => exact p.takeLength_valid _
  | @payload opcode size taken small room =>
    simp only [nrfMeshSerialPayloadMaxlen] at small
    have inside : taken.length ≤ size := by
      rcases room with rfl | less
      · exact Nat.zero_le _
      · exact less.le
    have lower : -1 ≤ (size : Int) := by omega
    have upper : (size : Int) ≤ 254 := by omega
    have filled : (taken.length : Int) ≤ max (size : Int) 0 := by omega
    exact ⟨fun _ => ⟨lower, upper⟩, (nomatch ·), fun _ => filled⟩

theorem lengthBytes_append (p : BleParser) (first second : List UInt8) :
    lengthBytes (some p) (first ++ second) =
      lengthBytes (some p) first ++ lengthBytes (byteMachine.final (some p) first) second := by
  induction first generalizing p with
  | nil => rfl
  | cons byte rest ih =>
    rw [List.cons_append, lengthBytes, lengthBytes, Mealy.Machine.final_cons, byteMachine_step_some, List.append_assoc]
    cases (byteStep p byte).1 with
    | none =>
      rw [(byteMachine_stuck rest).1]
      simp [lengthBytes]
    | some q => rw [ih]

/-- Bytes that go on after a part of a frame are some whole frames and a part of the next one. -/
theorem byteMachine_decodes {p q : BleParser} {part bytes : List UInt8} (state : p.state = .len)
    (pending : Pending p part q) (nonzero : ∀ byte ∈ lengthBytes (some q) bytes, byte ≠ 0) :
    ∃ frames rest q', byteMachine.final (some q) bytes = some q' ∧
      byteMachine.outputs (some q) bytes = frameMachine.outputs p frames ∧
      Pending (frameMachine.final p frames) rest q' ∧ part ++ bytes = wire frames ++ rest := by
  induction bytes generalizing p q part with
  | nil => exact ⟨[], part, q, rfl, rfl, pending, List.append_nil part⟩
  | cons byte bytes ih =>
    simp only [lengthBytes, List.mem_append] at nonzero
    have takes : TakesByte p (part ++ [byte]) (byteStep q byte) :=
      pending.takesByte state fun atLength => nonzero byte (Or.inl (by simp [atLength]))
    rw [Mealy.Machine.final_cons, Mealy.Machine.outputs_cons, byteMachine_step_some]
    generalize byteStep q byte = result at takes nonzero
    cases takes with
    | more longer =>
      obtain ⟨frames, rest, q', final, outputs, pending', split⟩ :=
        ih state longer fun later member => nonzero later (Or.inr member)
      refine ⟨frames, rest, q', final, outputs, pending', ?_⟩
      rw [← split, List.append_assoc, List.singleton_append]
    | @frame f part' q₁ whole begun =>
      obtain ⟨frames, rest, q', final, outputs, pending', split⟩ :=
        ih (p := p.receive f) rfl begun fun later member => nonzero later (Or.inr member)
      refine ⟨f :: frames, rest, q', final, ?_, pending', ?_⟩
      · rw [outputs]
        rfl
      · rw [wire_cons, List.append_assoc, ← split, ← List.append_assoc, ← whole, List.append_assoc,
          List.singleton_append]

variable (uECC_shared_secret : UECCSharedSecret)

/-- What one of the two threads does next: the receive thread reads, or `main` takes a key. -/
inductive ThreadStep
  | read (result : ReadResult)
  | key (c : Char)

/-- Both threads from a state of the program on: the state they leave and everything they have written. -/
def program : List ThreadStep → Gateway → Option (Gateway × List Write)
  | [], g => some (g, [])
  | .read result :: steps, g =>
    (bleReceiveHandle uECC_shared_secret [result] g).bind fun received =>
      (program steps received.gateway).map fun (later, writes) =>
        (later, received.written.map .handled ++ writes)
  | .key c :: steps, g =>
    let (globals, frames) := mainKey c g.globals
    (program steps { g with globals }).map fun (later, writes) => (later, frames.map .operated ++ writes)

theorem program_key (c : Char) (steps : List ThreadStep) (g : Gateway) :
    program uECC_shared_secret (.key c :: steps) g =
      (program uECC_shared_secret steps { g with globals := (mainKey c g.globals).1 }).map
        fun (later, writes) => (later, (mainKey c g.globals).2.map .operated ++ writes) := rfl

def readsOf (steps : List ThreadStep) : List ReadResult :=
  steps.filterMap fun | .read result => some result | .key _ => none

def keysOf (steps : List ThreadStep) : List Char :=
  steps.filterMap fun | .read _ => none | .key c => some c

def inputFrames (word : List Input) : List SerialFrame :=
  word.filterMap fun | .frame f => some f | .key _ => none

def inputKeys (word : List Input) : List Char :=
  word.filterMap fun | .frame _ => none | .key c => some c

theorem gatewayMachine_frames_handled (g : Gateway) (frames : List SerialFrame) :
    (gatewayMachine uECC_shared_secret).outputs g (frames.map .frame) =
      ((commandMachine uECC_shared_secret).outputs g.globals (frameMachine.outputs g.localParser frames)).map
        .handled := by
  induction frames generalizing g with
  | nil => rfl
  | cons frame frames ih =>
    have step : ((gatewayMachine uECC_shared_secret).step g (.frame frame)).2 =
        (bleProcessCommand uECC_shared_secret (g.localParser.cmd.receive frame) g.globals).2.map .handled := rfl
    rw [List.map_cons, Mealy.Machine.outputs_cons, ih, step, ← List.map_append]
    rfl

/-- The program is at the state of the frame machine but for a part of a frame that it has received. -/
structure Tracks (t s : Gateway) (part : List UInt8) : Prop where
  state : t.localParser.state = .len
  globals : s.globals = t.globals
  pending : Pending t.localParser part s.localParser

/-- A stretch of bytes is tracked by the frames that it completes. -/
theorem Tracks.bytes {t s : Gateway} {part bytes : List UInt8} (tracks : Tracks t s part)
    (nonzero : ∀ byte ∈ lengthBytes (some s.localParser) bytes, byte ≠ 0) :
    ∃ frames rest r, receiveBytes uECC_shared_secret bytes s = some r ∧
      byteMachine.final (some s.localParser) bytes = some r.gateway.localParser ∧
      r.written.map .handled = (gatewayMachine uECC_shared_secret).outputs t (frames.map .frame) ∧
      Tracks ((gatewayMachine uECC_shared_secret).final t (frames.map .frame)) r.gateway rest ∧
      part ++ bytes = wire frames ++ rest := by
  obtain ⟨frames, rest, q, final, outputs, pending, split⟩ := byteMachine_decodes tracks.state tracks.pending nonzero
  obtain ⟨gateway, _⟩ := gatewayMachine_frames uECC_shared_secret t frames
  refine ⟨frames, rest, _, by rw [receiveBytes, final]; rfl, final, ?_, ?_, split⟩
  · rw [gatewayMachine_frames_handled, ← tracks.globals, ← outputs]
  · rw [gateway, outputs, tracks.globals]
    exact ⟨frameMachine_state tracks.state frames, rfl, pending⟩

theorem Tracks.key {t s : Gateway} {part : List UInt8} (tracks : Tracks t s part) (c : Char) :
    Tracks ((gatewayMachine uECC_shared_secret).step t (.key c)).1 { s with globals := (mainKey c s.globals).1 }
      part where
  state := tracks.state
  globals := congrArg (fun globals => (mainKey c globals).1) tracks.globals
  pending := tracks.pending

theorem inputFrames_append (frames : List SerialFrame) (word : List Input) :
    inputFrames (frames.map .frame ++ word) = frames ++ inputFrames word := by
  simp [inputFrames, List.filterMap_append, List.filterMap_map]

theorem inputKeys_append (frames : List SerialFrame) (word : List Input) :
    inputKeys (frames.map .frame ++ word) = inputKeys word := by
  simp [inputKeys, List.filterMap_append, List.filterMap_map]

theorem wire_append (first second : List SerialFrame) : wire (first ++ second) = wire first ++ wire second :=
  List.flatMap_append

theorem keptBytes_append (first second : List ReadResult) :
    keptBytes (first ++ second) = keptBytes first ++ keptBytes second := by
  simp [keptBytes]

/-- Every run of both threads is tracked by a run of the gateway machine, on the frames that the bytes read make up and
with the keys where they fall between these. -/
theorem Tracks.steps {t s : Gateway} {part : List UInt8} (tracks : Tracks t s part) {steps : List ThreadStep}
    (nonzero : ∀ byte ∈ lengthBytes (some s.localParser) (keptBytes (readsOf steps)), byte ≠ 0) :
    ∃ word rest later,
      program uECC_shared_secret steps s = some (later, (gatewayMachine uECC_shared_secret).outputs t word) ∧
      Tracks ((gatewayMachine uECC_shared_secret).final t word) later rest ∧
      part ++ keptBytes (readsOf steps) = wire (inputFrames word) ++ rest ∧ inputKeys word = keysOf steps := by
  induction steps generalizing t s part with
  | nil => exact ⟨[], part, s, rfl, tracks, List.append_nil part, rfl⟩
  | cons step steps ih =>
    cases step with
    | read result =>
      have bytes : keptBytes (readsOf (.read result :: steps)) = keptBytes [result] ++ keptBytes (readsOf steps) :=
        keptBytes_append [result] (readsOf steps)
      rw [bytes, lengthBytes_append] at nonzero
      obtain ⟨frames, part', r, run, final, written, tracked, split⟩ :=
        tracks.bytes uECC_shared_secret fun byte member => nonzero byte (List.mem_append_left _ member)
      rw [final] at nonzero
      obtain ⟨word, rest, later, ran, tracked', split', keys⟩ :=
        ih tracked fun byte member => nonzero byte (List.mem_append_right _ member)
      refine ⟨frames.map .frame ++ word, rest, later, ?_, ?_, ?_, ?_⟩
      · rw [program, bleReceiveHandle_eq (tracks.pending.valid tracks.state), run, Option.bind_some, ran,
          Option.map_some, written, Mealy.Machine.outputs_append]
      · rwa [Mealy.Machine.final_append]
      · rw [bytes, ← List.append_assoc, split, List.append_assoc, split', inputFrames_append, wire_append,
          List.append_assoc]
      · rw [inputKeys_append, keys]
        rfl
    | key c =>
      obtain ⟨word, rest, later, ran, tracked, split, keys⟩ := ih (tracks.key uECC_shared_secret c) nonzero
      refine ⟨.key c :: word, rest, later, ?_, tracked, split, congrArg (c :: ·) keys⟩
      rw [program_key, ran, Option.map_some, tracks.globals]
      rfl

end BleGateway
