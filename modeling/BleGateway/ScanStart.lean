import BleGateway.GatewayRun
import BleGateway.Lib.History

namespace BleGateway

abbrev serialOpcodeCmdRangeDfuStart : UInt8 := 0xd0

abbrev serialOpcodeCmdRangeDfuEnd : UInt8 := 0xdf

/-- The opcodes of the firmware-update commands. -/
def InRangeDfu (opcode : UInt8) : Prop :=
  serialOpcodeCmdRangeDfuStart ≤ opcode ∧ opcode ≤ serialOpcodeCmdRangeDfuEnd

/-- A frame on the wire and the input that made the program write it; `none` for what `ble_start` writes. -/
structure WireWrite where
  cause : Option Input
  frame : SerialFrame

/-- Everything the program writes from its start, in order. -/
def wireLog (uECC_shared_secret : UECCSharedSecret) (word : List Input) : List WireWrite :=
  { cause := none, frame := bleRadioReset } ::
    ((gatewayMachine uECC_shared_secret).answers .init word).map fun (input, write) =>
      { cause := some input, frame := write.frame }

/-- Every provision frame comes after a scan start written for a key '1', and nothing that is written
is a firmware-update command. -/
def ScansFirst (log : List WireWrite) : Prop :=
  History.Causal (fun before write => IsProvision write.frame →
      ∃ scan ∈ before, scan.cause = some (.key '1') ∧ scan.frame.opcode = serialOpcodeCmdProvScanStart) log ∧
    ∀ write ∈ log, ¬InRangeDfu write.frame.opcode

/-- Key '1' and the event of an unprovisioned device. -/
def Input.Scans : Input → Prop
  | .frame f => f.opcode = serialOpcodeEvtProvUnprovisionedReceived
  | .key c => c = '1'

/-- The opcodes of all frames that handlers and keys write, but for the provision frame and that of key '1'. -/
def plainOpcodes : List UInt8 := [0x62, 0x66, 0x67, 0x68, 0x92, 0x97, 0x9c, 0x9f, 0xa4, 0xab]

theorem plainOpcodes_plain {opcode : UInt8} (plain : opcode ∈ plainOpcodes) :
    opcode ≠ serialOpcodeCmdProvScanStart ∧ opcode ≠ 0x63 ∧ ¬InRangeDfu opcode := by
  simp only [plainOpcodes, List.mem_cons, List.not_mem_nil, or_false] at plain
  rcases plain with rfl | rfl | rfl | rfl | rfl | rfl | rfl | rfl | rfl | rfl
  all_goals
    refine ⟨by decide, by decide, ?_⟩
    rintro ⟨lower, upper⟩
    revert lower upper
    decide

variable {uECC_shared_secret : UECCSharedSecret}

/-- Handlers write no other opcodes than the plain ones, but for the answer to a beacon in state NEW. -/
theorem CommandStep.opcode_plain {cmd : BleCmd} {g globals : Globals} {frames : List SerialFrame}
    {frame : SerialFrame} (step : CommandStep uECC_shared_secret cmd g globals frames)
    (member : frame ∈ frames) :
    frame.opcode ∈ plainOpcodes ∨
      IsProvision frame ∧ cmd.opcode = serialOpcodeEvtProvUnprovisionedReceived ∧ g.state = .new := by
  cases step with
  | quiet setup =>
    have opcode := setup frame member
    simp only [moduleSetup, List.mem_cons, List.not_mem_nil, or_false] at opcode
    left
    rcases opcode with opcode | opcode | opcode | opcode <;> simp [opcode, plainOpcodes]
  | provision event state =>
    rw [List.mem_singleton.mp member]
    exact Or.inr ⟨rfl, event, state⟩
  | devkeyHandle | dstAddrHandle | abort | finish => exact absurd member List.not_mem_nil
  | subnetHandle | complete =>
    simp only [List.mem_cons, List.not_mem_nil, or_false] at member
    left
    rcases member with rfl | rfl | rfl <;> simp [plainOpcodes]
  | oobUse | ecdhSecret | authData | compositionData | appkeyAdd | modelAppBind | publicationSet =>
    rw [List.mem_singleton.mp member]
    simp [plainOpcodes]

/-- Keys write no other opcodes than the plain ones, but for key '1'. -/
theorem KeyStep.opcode_plain {c : Char} {g globals : Globals} {frames : List SerialFrame} {frame : SerialFrame}
    (step : KeyStep c g globals frames) (member : frame ∈ frames) :
    frame.opcode ∈ plainOpcodes ∨ frame = bleScanStart ∧ c = '1' := by
  cases step with
  | scanStart key => exact Or.inr ⟨List.mem_singleton.mp member, key⟩
  | send opcodes =>
    left
    rcases opcodes frame member with stop | packet
    · simp [stop, plainOpcodes]
    · simp [packet, plainOpcodes]

/-- In state NEW only a beacon moves a handler to another state. -/
theorem CommandStep.stays_new {cmd : BleCmd} {g globals : Globals} {frames : List SerialFrame}
    (step : CommandStep uECC_shared_secret cmd g globals frames) (new : g.state = .new)
    (event : cmd.opcode ≠ serialOpcodeEvtProvUnprovisionedReceived) : globals.state = .new := by
  cases step with
  | quiet => exact new
  | subnetHandle => exact new
  | abort => rfl
  | finish => rfl
  | provision beacon => exact absurd beacon event
  | devkeyHandle _ _ _ state | dstAddrHandle _ _ _ state | modelAppBind _ _ state | publicationSet _ _ state =>
    rw [new] at state
    cases state
  | oobUse _ state | ecdhSecret _ state | authData _ state | complete _ state | compositionData _ state
  | appkeyAdd _ state =>
    rw [new] at state
    cases state

/-- A frame that asks for no scan before it. -/
def SerialFrame.Plain (frame : SerialFrame) : Prop :=
  ¬IsProvision frame ∧ ¬InRangeDfu frame.opcode

/-- Where no scan start is written, only plain frames are in order. -/
theorem scansFirst_iff_plain {log : List WireWrite}
    (never : ∀ write ∈ log, write.frame.opcode ≠ serialOpcodeCmdProvScanStart) :
    ScansFirst log ↔ ∀ write ∈ log, write.frame.Plain := by
  constructor
  · rintro ⟨causal, noDfu⟩ write member
    refine ⟨fun provision => ?_, noDfu write member⟩
    obtain ⟨before, after, split⟩ := List.append_of_mem member
    obtain ⟨scan, earlier, _, opcode⟩ := causal before write after split provision
    have written : scan ∈ log := by
      rw [split]
      exact List.mem_append_left _ earlier
    exact never scan written opcode
  · intro plain
    refine ⟨?_, fun write member => (plain write member).2⟩
    intro before write after split provision
    have member : write ∈ log := by simp [split]
    exact absurd provision (plain write member).1

/-- The scan start is not among the frames of any run. -/
theorem GatewayStep.not_scanStart {g : Gateway} {input : Input} {globals : Globals} {writes : List Write}
    (step : GatewayStep uECC_shared_secret g input globals writes) :
    ∀ frame ∈ writtenFrames writes, frame.opcode ≠ serialOpcodeCmdProvScanStart := by
  cases step with
  | command step =>
    rw [writtenFrames_handled]
    intro frame member
    rcases step.opcode_plain member with plain | ⟨provision, _⟩
    · exact (plainOpcodes_plain plain).1
    · rw [provision]
      decide
  | key step =>
    rw [writtenFrames_operated]
    intro frame member
    rcases step.opcode_plain member with plain | ⟨rfl, _⟩
    · exact (plainOpcodes_plain plain).1
    · decide

theorem gateway_not_scanStart (g : Gateway) (word : List Input) :
    ∀ frame ∈ writtenFrames ((gatewayMachine uECC_shared_secret).outputs g word),
      frame.opcode ≠ serialOpcodeCmdProvScanStart := by
  induction word generalizing g with
  | nil => exact fun _ member => absurd member List.not_mem_nil
  | cons input rest ih =>
    rw [Mealy.Machine.outputs_cons, writtenFrames_append]
    intro frame member
    rcases List.mem_append.mp member with now | later
    · exact (gatewayMachine_step uECC_shared_secret g input).not_scanStart frame now
    · exact ih _ frame later

/-- In state NEW the scan inputs are those answered by a frame that is not plain. -/
theorem gateway_plain_step {g : Gateway} (new : g.globals.state = .new) (input : Input) :
    (∀ frame ∈ writtenFrames ((gatewayMachine uECC_shared_secret).step g input).2, frame.Plain) ↔
      ¬input.Scans := by
  cases input with
  | frame f =>
    rw [gatewayMachine_writtenFrames]
    constructor
    · intro plain event
      rw [bleProcessCommand_beacon uECC_shared_secret (g.localParser.cmd.receive f) event new] at plain
      exact (plain _ (List.mem_singleton_self _)).1 rfl
    · intro quiet frame member
      have step := bleProcessCommand_step uECC_shared_secret (g.localParser.cmd.receive f) g.globals
      rcases step.opcode_plain member with plain | ⟨_, event, _⟩
      · exact (plainOpcodes_plain plain).2
      · exact absurd event quiet
  | key c =>
    rw [gatewayMachine_writtenFrames_key]
    constructor
    · rintro plain rfl
      have scan : bleScanStart ∈ (mainKey '1' g.globals).2 := List.mem_singleton_self _
      exact (plain bleScanStart scan).2 ⟨by decide, by decide⟩
    · intro quiet frame member
      have step := mainKey_step c g.globals
      rcases step.opcode_plain member with plain | ⟨_, key⟩
      · exact (plainOpcodes_plain plain).2
      · exact absurd key quiet

theorem gateway_stays_new {g : Gateway} (new : g.globals.state = .new) {input : Input}
    (quiet : ¬input.Scans) : ((gatewayMachine uECC_shared_secret).step g input).1.globals.state = .new := by
  have step := gatewayMachine_step uECC_shared_secret g input
  generalize ((gatewayMachine uECC_shared_secret).step g input).1.globals = globals at step ⊢
  generalize ((gatewayMachine uECC_shared_secret).step g input).2 = writes at step
  cases step with
  | command step => exact step.stays_new new quiet
  | key step =>
    cases step with
    | scanStart key => exact absurd key quiet
    | send => exact new

/-- From state NEW a run writes plain frames only exactly if it has no scan input: up to the first one
it stays in NEW. -/
theorem gateway_plain_run {g : Gateway} (new : g.globals.state = .new) (word : List Input) :
    (∀ frame ∈ writtenFrames ((gatewayMachine uECC_shared_secret).outputs g word), frame.Plain) ↔
      ∀ input ∈ word, ¬input.Scans := by
  induction word generalizing g with
  | nil => simp [writtenFrames]
  | cons input rest ih =>
    rw [Mealy.Machine.outputs_cons, writtenFrames_append, List.forall_mem_append, List.forall_mem_cons,
      gateway_plain_step new input]
    exact and_congr_right fun quiet => ih (gateway_stays_new new quiet)

/-- The frames of the log: the reset of `ble_start`, then those of the run. -/
theorem wireLog_frames (uECC_shared_secret : UECCSharedSecret) (word : List Input) :
    (wireLog uECC_shared_secret word).map (·.frame) =
      bleRadioReset :: writtenFrames ((gatewayMachine uECC_shared_secret).outputs .init word) := by
  rw [← Mealy.Machine.answers_outputs, wireLog, writtenFrames]
  simp [Function.comp_def]

theorem wireLog_forall {P : SerialFrame → Prop} {uECC_shared_secret : UECCSharedSecret} {word : List Input} :
    (∀ write ∈ wireLog uECC_shared_secret word, P write.frame) ↔ P bleRadioReset ∧
      ∀ frame ∈ writtenFrames ((gatewayMachine uECC_shared_secret).outputs .init word), P frame := by
  rw [← List.forall_mem_cons, ← wireLog_frames, List.forall_mem_map]

/-- Over every run, devices are provisioned after a scan start only, and no firmware-update command is
written, exactly if no scan is asked for and no device found. -/
theorem scansFirst_iff (uECC_shared_secret : UECCSharedSecret) (word : List Input) :
    ScansFirst (wireLog uECC_shared_secret word) ↔ ∀ input ∈ word, ¬input.Scans := by
  have never : ∀ write ∈ wireLog uECC_shared_secret word,
      write.frame.opcode ≠ serialOpcodeCmdProvScanStart :=
    wireLog_forall.mpr ⟨by decide, gateway_not_scanStart .init word⟩
  have reset : bleRadioReset.Plain := ⟨by decide, fun range => absurd range.1 (by decide)⟩
  rw [scansFirst_iff_plain never, wireLog_forall, and_iff_right reset]
  exact gateway_plain_run rfl word

/-- The operator asks for a scan, and a device is found. -/
theorem scanned_not_scansFirst :
    ¬ScansFirst (wireLog echoPrivate [.key '1', .frame beaconFrame]) := by
  rintro ⟨_, noDfu⟩
  have written : (⟨some (.key '1'), bleScanStart⟩ : WireWrite) ∈
      wireLog echoPrivate [.key '1', .frame beaconFrame] :=
    List.mem_cons_of_mem _ (List.mem_cons_self ..)
  exact noDfu _ written ⟨by decide, by decide⟩

end BleGateway
