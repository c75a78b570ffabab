import BleGateway.RoundTrip

namespace BleGateway

def BleParser.taken (p : BleParser) : Nat :=
  match p.state with
  | .len => 0
  | .opcode => 1
  | .data => 2 + p.pos

def BleCmd.wireSize (cmd : BleCmd) : Nat := 2 + cmd.len.toNat

def wireTotal : List BleCmd → Nat
  | [] => 0
  | cmd :: rest => cmd.wireSize + wireTotal rest

theorem wireTotal_append (first second : List BleCmd) :
    wireTotal (first ++ second) = wireTotal first + wireTotal second := by
  induction first with
  | nil => exact (Nat.zero_add _).symm
  | cons cmd rest ih =>
    rw [List.cons_append, wireTotal, wireTotal, ih, Nat.add_assoc]

theorem byteStep_taken {p q : BleParser} {byte : UInt8} (valid : p.Valid)
    (step : (byteStep p byte).1 = some q) :
    p.taken + 1 = wireTotal (byteStep p byte).2 + q.taken := by
  cases state : p.state with
  | len =>
    simp only [byteStep, state, Option.some.injEq] at step ⊢
    subst step
    simp [BleParser.taken, BleParser.takeLength, wireTotal, state]
  | opcode =>
    simp only [byteStep, state, Option.some.injEq] at step ⊢
    subst step
    simp [BleParser.taken, wireTotal, state, valid.pos_opcode state]
  | data =>
    simp only [byteStep, state] at step ⊢
    split at step
    next filled =>
      cases Option.some.inj step
      simp only [if_pos filled, wireTotal, BleCmd.wireSize, BleParser.taken, BleParser.takeLength, state]
      omega
    next unfilled =>
      split at step
      next inside =>
        cases Option.some.inj step
        by_cases fills : p.cmd.len = p.pos + 1
        · simp only [if_neg unfilled, if_pos inside, if_pos fills, wireTotal,
            BleCmd.wireSize, BleParser.taken, BleParser.takeData, state]
          omega
        · simp only [if_neg unfilled, if_pos inside, if_neg fills, wireTotal,
            BleParser.taken, BleParser.takeData, state]
          omega
      next => cases step

/-- No byte is counted twice or dropped: what was fed is in the completed commands or in the
frame the parser is in. -/
theorem byteMachine_taken {p q : BleParser} {bytes : List UInt8} (valid : p.Valid)
    (run : byteMachine.final (some p) bytes = some q) :
    p.taken + bytes.length = wireTotal (byteMachine.outputs (some p) bytes) + q.taken := by
  induction bytes generalizing p with
  | nil =>
    cases Option.some.inj run
    simp [wireTotal]
  | cons byte rest ih =>
    rw [Mealy.Machine.final_cons, byteMachine_step_some] at run
    cases step : (byteStep p byte).1 with
    | none =>
      rw [step, (byteMachine_stuck rest).1] at run
      cases run
    | some next =>
      rw [step] at run
      have first := byteStep_taken valid step
      have later := ih (byteStep_valid valid step) run
      rw [Mealy.Machine.outputs_cons, byteMachine_step_some, step, wireTotal_append,
        List.length_cons]
      omega

def ReadResult.data : ReadResult → List UInt8
  | .error => []
  | .bytes buf _ => buf

/-- The bytes of the reads that are not taken for a restart of the module. -/
def keptBytes (reads : List ReadResult) : List UInt8 :=
  (reads.filter fun read => ¬ restartMarker read.data).flatMap ReadResult.data

theorem keptBytes_of_marker (read : ReadResult) (marker : restartMarker read.data) (reads : List ReadResult) :
    keptBytes (read :: reads) = keptBytes reads := by
  simp [keptBytes, marker]

theorem keptBytes_of_kept (read : ReadResult) (kept : ¬ restartMarker read.data) (reads : List ReadResult) :
    keptBytes (read :: reads) = read.data ++ keptBytes reads := by
  simp [keptBytes, kept]

/-- Every discarded read costs the stream one byte. -/
theorem keptBytes_length (reads : List ReadResult) :
    (keptBytes reads).length + (reads.filter fun read => restartMarker read.data).length =
      (reads.flatMap ReadResult.data).length := by
  induction reads with
  | nil => rfl
  | cons read reads ih =>
    rw [List.flatMap_cons, List.length_append]
    by_cases marker : restartMarker read.data
    · rw [keptBytes_of_marker read marker, List.filter_cons_of_pos (by simpa using marker), List.length_cons]
      have one := marker.1
      omega
    · rw [keptBytes_of_kept read marker, List.filter_cons_of_neg (by simpa using marker), List.length_append]
      omega

theorem keptBytes_of_no_marker {reads : List ReadResult}
    (none : ∀ read ∈ reads, ¬ restartMarker read.data) : keptBytes reads = reads.flatMap ReadResult.data := by
  rw [keptBytes, List.filter_eq_self.mpr (by simpa using none)]

variable {uECC_shared_secret : UECCSharedSecret}

/-- The receive loop makes of its reads what the receive path makes of the bytes kept. -/
theorem bleReceiveHandle_eq {g : Gateway} (valid : g.localParser.Valid) (reads : List ReadResult) :
    bleReceiveHandle uECC_shared_secret reads g = receiveBytes uECC_shared_secret (keptBytes reads) g := by
  induction reads generalizing g with
  | nil => rfl
  | cons read reads ih =>
    cases read with
    | error =>
      rw [bleReceiveHandle, ih valid]
      rfl
    | bytes buf fits =>
      rw [bleReceiveHandle]
      by_cases marker : restartMarker buf
      · rw [if_pos marker, ih valid, keptBytes_of_marker (.bytes buf fits) marker]
      rw [if_neg marker, keptBytes_of_kept (.bytes buf fits) marker, ReadResult.data]
      by_cases received : 0 < buf.length
      · rw [if_pos received, receiveBytes_append, bleHandleCmd_eq _ valid]
        cases run : receiveBytes uECC_shared_secret buf g with
        | none => rfl
        | some first => simp only [Option.bind_some, ih (receiveBytes_valid valid run)]
      · obtain rfl : buf = [] := List.eq_nil_of_length_eq_zero (by omega)
        rw [if_neg received, ih valid, List.nil_append]

theorem bleReceiveHandle_processes {reads : List ReadResult} {g : Gateway} {r : Received}
    (run : bleReceiveHandle uECC_shared_secret reads g = some r) : r.Processes uECC_shared_secret g := by
  induction reads generalizing g r with
  | nil =>
    cases Option.some.inj run
    exact Received.processes_nothing uECC_shared_secret g
  | cons read reads ih =>
    cases read with
    | error => exact ih run
    | bytes buf fits =>
      rw [bleReceiveHandle] at run
      split at run
      next => exact ih run
      next =>
        split at run
        next =>
          obtain ⟨first, handled, rest⟩ := Option.bind_eq_some_iff.mp run
          obtain ⟨later, goesOn, rfl⟩ := Option.map_eq_some_iff.mp rest
          exact (bleHandleCmd_processes uECC_shared_secret handled).after uECC_shared_secret (ih goesOn)
        next => exact ih run

theorem wireSize_of_carries {cmds : List BleCmd} {frames : List SerialFrame}
    (carried : List.Forall₂ BleCmd.Carries cmds frames) :
    wireTotal cmds = (wire frames).length := by
  induction carried with
  | nil => rfl
  | @cons cmd frame cmds frames head _ ih =>
    rw [wireTotal, ih, wire_cons, List.length_append, BleCmd.wireSize, head.len]
    simp only [bleWrite, List.length_cons, Int.toNat_natCast]
    omega

/-- Frames with a payload, read in pieces of any size, come through the receive loop exactly when
none of the reads is the single byte that is taken for a restart of the module. Whatever comes through
is processed. -/
theorem bleReceiveHandle_dispatches_iff {g : Gateway} (state : g.localParser.state = .len)
    {frames : List SerialFrame} (payloads : ∀ frame ∈ frames, frame.payload ≠ [])
    {reads : List ReadResult} (cut : reads.flatMap ReadResult.data = wire frames) :
    ((∃ r, bleReceiveHandle uECC_shared_secret reads g = some r ∧
          List.Forall₂ BleCmd.Carries r.dispatched frames ∧ r.gateway.localParser.state = .len) ↔
        ∀ read ∈ reads, ¬ restartMarker read.data) ∧
      ∀ r, bleReceiveHandle uECC_shared_secret reads g = some r → r.Processes uECC_shared_secret g := by
  refine ⟨?_, fun r => bleReceiveHandle_processes⟩
  have valid := BleParser.valid_of_len state
  rw [bleReceiveHandle_eq valid]
  constructor
  · -- a discarded read leaves fewer bytes than the dispatched frames have taken
    rintro ⟨r, run, carried, ended⟩ read member marker
    obtain ⟨q, final, rfl⟩ := Option.map_eq_some_iff.mp run
    have taken := byteMachine_taken valid final
    have before : g.localParser.taken = 0 := by simp only [BleParser.taken, state]
    have after : q.taken = 0 := by simp only [BleParser.taken, show q.state = .len from ended]
    have sizes := wireSize_of_carries carried
    have lost := keptBytes_length reads
    have discarded : 0 < (reads.filter fun read => restartMarker read.data).length :=
      List.length_pos_of_mem (List.mem_filter.mpr ⟨member, by simpa using marker⟩)
    rw [cut] at lost
    simp only at sizes
    omega
  · intro none
    rw [keptBytes_of_no_marker none, cut]
    exact receiveBytes_wire_carries state fun frame member => payloads frame (List.mem_of_getLast? member)

/-- A scan start response whose status byte is read on its own. -/
theorem bleReceiveHandle_loses_status :
    ¬ ∃ r, bleReceiveHandle (fun _ _ => ⟨fun _ => 0, 1⟩)
        [.bytes [0x03, 0x84, 0x61] (by decide), .bytes [0x00] (by decide)] Gateway.init = some r ∧
      List.Forall₂ BleCmd.Carries r.dispatched [⟨0x84, [0x61, 0x00], by decide⟩] ∧
      r.gateway.localParser.state = .len := by
  rintro ⟨r, run, carried, _⟩
  cases Option.some.inj run
  cases carried

theorem bleReceiveHandle_dispatches_iff_command_response :
    ((∃ r, bleReceiveHandle (fun _ _ => ⟨fun _ => 0, 1⟩)
          [.bytes [0x03, 0x84] (by decide), .bytes [] (by decide), .bytes [0x61, 0x00] (by decide)]
          Gateway.init = some r ∧
        List.Forall₂ BleCmd.Carries r.dispatched [⟨0x84, [0x61, 0x00], by decide⟩] ∧
        r.gateway.localParser.state = .len) ↔
      ∀ read ∈ [ReadResult.bytes [0x03, 0x84] (by decide), .bytes [] (by decide),
        .bytes [0x61, 0x00] (by decide)], ¬ restartMarker read.data) ∧
    ∀ r, bleReceiveHandle (fun _ _ => ⟨fun _ => 0, 1⟩)
        [.bytes [0x03, 0x84] (by decide), .bytes [] (by decide), .bytes [0x61, 0x00] (by decide)]
        Gateway.init = some r →
      r.Processes (fun _ _ => ⟨fun _ => 0, 1⟩) Gateway.init :=
  bleReceiveHandle_dispatches_iff rfl (by decide) rfl

end BleGateway
