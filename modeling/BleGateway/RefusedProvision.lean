import BleGateway.Addresses

namespace BleGateway

/-- A command response that refuses a provision command. -/
structure RefusesProvision (f : SerialFrame) : Prop where
  event : f.opcode = serialOpcodeEvtCmdRsp
  long : 2 ≤ f.payload.length
  opcode : f.byte 0 = serialOpcodeCmdProvProvision
  status : f.byte 1 ≠ serialStatusSuccess

/-- The events a session reacts to while it waits for an answer to its provision frame. -/
def provisioningEvents : List UInt8 := [serialOpcodeEvtProvCapsReceived, serialOpcodeEvtProvLinkClosed]

variable (uECC_shared_secret : UECCSharedSecret)

/-- The program after a beacon, some other frames and a refusal. -/
def afterRefusal (g : Gateway) (beacon : SerialFrame) (between : List SerialFrame) (refusal : SerialFrame) :
    Gateway :=
  (gatewayMachine uECC_shared_secret).final g ((beacon :: between ++ [refusal]).map .frame)

/-- The refused attempt leaves no trace: the session is back in NEW with the earlier `dev_addr`, and
the next beacon is answered with a provision frame under the same address. -/
structure RefusalUndone (g : Gateway) (beacon : SerialFrame) (between : List SerialFrame)
    (refusal next : SerialFrame) : Prop where
  state : (afterRefusal uECC_shared_secret g beacon between refusal).globals.state = .new
  devAddr : (afterRefusal uECC_shared_secret g beacon between refusal).globals.devAddr = g.globals.devAddr
  retried : ∃ frame, provisionFrames ((gatewayMachine uECC_shared_secret).step
      (afterRefusal uECC_shared_secret g beacon between refusal) (.frame next)).2 = [frame] ∧
    frame.word 39 = g.globals.devAddr + 1

/-- While a session waits for an answer to its provision frame, only its own events change it. -/
theorem step_provision {g : Gateway} {f : SerialFrame} (state : g.globals.state = .provision)
    (other : f.opcode ∉ provisioningEvents) :
    ((gatewayMachine uECC_shared_secret).step g (.frame f)).1.globals.state = .provision ∧
      ((gatewayMachine uECC_shared_secret).step g (.frame f)).1.globals.devAddr = g.globals.devAddr := by
  have step := gatewayMachine_step uECC_shared_secret g (.frame f)
  generalize ((gatewayMachine uECC_shared_secret).step g (.frame f)).1.globals = globals at step ⊢
  generalize ((gatewayMachine uECC_shared_secret).step g (.frame f)).2 = writes at step
  cases step with
  | command command =>
    cases command with
    | quiet => exact ⟨state, rfl⟩
    | abort event | oobUse event =>
      exact absurd event fun event => other (by simp [provisioningEvents, show f.opcode = _ from event])
    | subnetHandle _ _ _ before | devkeyHandle _ _ _ before | dstAddrHandle _ _ _ before | modelAppBind _ _ before
    | publicationSet _ _ before | finish _ _ before | provision _ before | ecdhSecret _ before
    | authData _ before | complete _ before | compositionData _ before | appkeyAdd _ before =>
      cases state.symm.trans before

theorem final_provision {g : Gateway} (frames : List SerialFrame) (state : g.globals.state = .provision)
    (others : ∀ f ∈ frames, f.opcode ∉ provisioningEvents) :
    ((gatewayMachine uECC_shared_secret).final g (frames.map .frame)).globals.state = .provision ∧
      ((gatewayMachine uECC_shared_secret).final g (frames.map .frame)).globals.devAddr = g.globals.devAddr := by
  induction frames generalizing g with
  | nil => exact ⟨state, rfl⟩
  | cons f frames ih =>
    obtain ⟨state', devAddr⟩ := step_provision uECC_shared_secret state
      (others f (List.mem_cons_self ..))
    obtain ⟨final, same⟩ := ih state' fun later member => others later (List.mem_cons_of_mem _ member)
    exact ⟨final, same.trans devAddr⟩

/-- A refused attempt always leaves its trace: the session stays in PROVISION with the next address
taken, and the next beacon is ignored. -/
theorem refusal_leaves_trace (uECC_shared_secret : UECCSharedSecret) {g : Gateway}
    (state : g.globals.state = .new) {beacon : SerialFrame}
    (event : beacon.opcode = serialOpcodeEvtProvUnprovisionedReceived) {between : List SerialFrame}
    (others : ∀ f ∈ between, f.opcode ∉ provisioningEvents) {refusal : SerialFrame}
    (refuses : RefusesProvision refusal) {next : SerialFrame}
    (again : next.opcode = serialOpcodeEvtProvUnprovisionedReceived) :
    ¬RefusalUndone uECC_shared_secret g beacon between refusal next ∧
      (afterRefusal uECC_shared_secret g beacon between refusal).globals.state = .provision ∧
      (afterRefusal uECC_shared_secret g beacon between refusal).globals.devAddr = g.globals.devAddr + 1 ∧
      ((gatewayMachine uECC_shared_secret).step
        (afterRefusal uECC_shared_secret g beacon between refusal) (.frame next)).2 = [] := by
  have attempt : AcceptsBeacon g (.frame beacon) := ⟨event, state⟩
  have started := (step_beacon uECC_shared_secret attempt).2
  have ignored : ∀ f ∈ between ++ [refusal], f.opcode ∉ provisioningEvents := by
    intro f member
    rcases List.mem_append.mp member with other | last
    · exact others f other
    · rw [List.mem_singleton.mp last, refuses.event]
      decide
  have attempted : ((gatewayMachine uECC_shared_secret).step g (.frame beacon)).1.globals.state = .provision := by
    rw [started]
    rfl
  obtain ⟨waiting, devAddr⟩ := final_provision uECC_shared_secret _ attempted ignored
  have waits : (afterRefusal uECC_shared_secret g beacon between refusal).globals.state = .provision := waiting
  refine ⟨?_, waits, ?_, ?_⟩
  · intro undone
    cases waits.symm.trans undone.state
  · rw [started] at devAddr
    exact devAddr
  · have processed := bleProcessCommand_beacon_of_ne uECC_shared_secret
      ((afterRefusal uECC_shared_secret g beacon between refusal).localParser.cmd.receive next) again
      (fun new => by cases waits.symm.trans new)
    rw [gatewayMachine_frame processed, List.map_nil]

def refusedProvision : SerialFrame where
  opcode := serialOpcodeEvtCmdRsp
  payload := [0x63, 0x87]
  bound := by decide

theorem refusedProvision_refuses : RefusesProvision refusedProvision :=
  ⟨rfl, le_rfl, rfl, by simp [refusedProvision, SerialFrame.byte, serialStatusSuccess]⟩

theorem refusedProvision_not_undone :
    ¬RefusalUndone echoPrivate .init beaconFrame [] refusedProvision beaconFrame := by
  intro undone
  cases undone.state

theorem refusal_leaves_trace_at_start :
    ¬RefusalUndone echoPrivate .init beaconFrame [] refusedProvision beaconFrame ∧
      (afterRefusal echoPrivate .init beaconFrame [] refusedProvision).globals.state = .provision ∧
      (afterRefusal echoPrivate .init beaconFrame [] refusedProvision).globals.devAddr =
        Gateway.init.globals.devAddr + 1 ∧
      ((gatewayMachine echoPrivate).step
        (afterRefusal echoPrivate .init beaconFrame [] refusedProvision) (.frame beaconFrame)).2 = [] :=
  refusal_leaves_trace echoPrivate rfl rfl (fun _ member => absurd member List.not_mem_nil)
    refusedProvision_refuses rfl

end BleGateway
