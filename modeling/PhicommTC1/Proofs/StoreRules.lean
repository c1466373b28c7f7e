import PhicommTC1.Device
import PhicommTC1.Proofs.CommandWrites

/-! Invariants of the firmware from its stores. What each single store keeps is kept by a command,
by a scan pass, by every step and along every run. -/

namespace PhicommTC1.Proofs.StoreRules
open CText PhicommTC1 CommandWrites
variable {property : State → Prop} {root : CJson} {state next : State}

/-- What a step can do to the state. -/
inductive Stepped (state next : State) : Event → Prop where
  | command {root reply : CJson} (accepted : isAccepted root state = true)
      (commanded : runCommand root state = .ok (next, reply)) : Stepped state next (.command (some root))
  | switchPage {url : CStr} {slot : Plug → CStr} {send : Members} (found : httpdArgFind url = some slot)
      (looped : (List.finRange 6).foldlM (jsonPlugAnalysis (switchRoot slot)) (state, []) = .ok (next, send)) :
      Stepped state next (.switchPage url)
  | ignored {event : Event} (unasked : event.request state = none)
      (message : event ≠ .keyPress ∧ ∀ tm, event ≠ .scan tm) (same : next = state) : Stepped state next event
  | keyPress (same : next = keyShortPress state) : Stepped state next .keyPress
  | scan {tm : Tm} (same : next = scanTasks tm state) : Stepped state next (.scan tm)

theorem step_cases {event : Event} (stepped : step state event = .ok next) : Stepped state next event := by
  cases event with
  | command pJsonRoot =>
    obtain ⟨outcome, ran, stepped⟩ := Runs.bind_ok.mp stepped
    cases stepped
    cases pJsonRoot with
    | none => cases ran; exact .ignored rfl ⟨nofun, fun _ => nofun⟩ rfl
    | some root =>
      by_cases accepted : isAccepted root state = true
      · obtain ⟨reply, commanded, -⟩ := accepted_ran accepted ran
        exact .command accepted commanded
      · have refused : isAccepted root state = false := by simpa using accepted
        exact .ignored (by simp [Event.request, refused]) ⟨nofun, fun _ => nofun⟩ (refused_state refused ran).1
  | switchPage url =>
    obtain ⟨⟨last, rsp⟩, ran, stepped⟩ := Runs.bind_ok.mp stepped
    cases stepped
    cases found : httpdArgFind url with
    | none =>
      simp only [switchCbk, found] at ran
      cases ran
      exact .ignored (by simp [Event.request, found]) ⟨nofun, fun _ => nofun⟩ rfl
    | some slot =>
      simp only [switchCbk, found] at ran
      obtain ⟨work, looped, ran⟩ := Runs.bind_ok.mp ran
      cases ran
      exact .switchPage found looped
  | keyPress => exact .keyPress (Except.ok.inj stepped).symm
  | scan tm => exact .scan (Except.ok.inj stepped).symm

/-- The property is kept by what the firmware writes of its own accord: relays, and the tasks it disarms. -/
structure Internal (property : State → Prop) : Prop where
  relay : ∀ state (i : Plug) y, property state → property (userRelaySet i.val y state)
  task : ∀ state x y task, property state → property { state with uConfig := state.uConfig.setTask x y task }

namespace Internal
variable (rules : Internal property)
include rules

theorem keyShortPress (holds : property state) : property (keyShortPress state) := by
  have all (y : UInt8) : property (userRelaySetAll y state) :=
    IndexedLoop.foldl_keeps property (fun current i kept => rules.relay current i y kept) holds
  unfold PhicommTC1.keyShortPress
  split
  · exact all 0
  · exact all 1

theorem visit {tm : Tm} {scan : Scan} (holds : property scan.state) (i : Plug) (j : Slot) :
    property (scan.visit tm i j).state := by
  have switched : property (scan.switchTo i ((scan.state.uConfig.plug i).task j).action).state := by
    unfold Scan.switchTo
    split
    · exact rules.relay _ i _ holds
    · exact holds
  unfold Scan.visit
  dsimp only
  split
  · split
    · exact rules.task _ i j _ switched
    · exact switched
  · exact holds

theorem scanPass {tm : Tm} {scan : Scan} (holds : property scan.state) : property (scanPass tm scan).state := by
  have plug (scan : Scan) (i : Plug) (kept : property scan.state) : property (scan.scanPlug tm i).state :=
    IndexedLoop.foldl_keeps (fun scan : Scan => property scan.state) (fun _ j kept => rules.visit kept i j) kept
  exact IndexedLoop.foldl_keeps (fun scan : Scan => property scan.state) plug holds

theorem scanTasks {tm : Tm} (holds : property state) : property (scanTasks tm state) := by
  rw [scanTasks_eq]
  apply rules.scanPass
  exact holds

end Internal

/-- The property is kept by every way in which the firmware writes to its state. -/
structure Preserved (property : State → Prop) : Prop extends Internal property where
  deviceid : ∀ format state next, property state → sprintfDeviceid format state = .ok next → property next
  text : ∀ field format state next, property state → sprintfField field format state = .ok next → property next
  mqttPort : ∀ state port, property state →
    property { state with uConfig := { state.uConfig with mqttPort := port } }

namespace Preserved
variable (rules : Preserved property)
include rules

theorem write {register : Register} (holds : property state) (write : Write root state register next) :
    property next := by
  cases write with
  | unasked => exact holds
  | relay => exact rules.relay _ _ _ holds
  | task => exact rules.task _ _ _ _ holds
  | text asked stored => exact rules.text _ _ _ _ holds stored
  | deviceid asked stored => exact rules.deviceid _ _ _ holds stored
  | mqttPort => exact rules.mqttPort _ _ holds

theorem writes {registers : List Register} (holds : property state) (writes : Writes root registers state next) :
    property next :=
  writes.keeps (fun _ _ _ _ kept write => rules.write kept write) holds

theorem step {event : Event} (holds : property state) (stepped : step state event = .ok next) : property next := by
  cases step_cases stepped with
  | command accepted commanded => exact rules.writes holds (runCommand_writes commanded)
  | switchPage found looped => exact rules.writes holds (plugs_writes looped)
  | ignored unasked message same => rw [same]; exact holds
  | keyPress same => rw [same]; exact rules.toInternal.keyShortPress holds
  | scan same => rw [same]; exact rules.toInternal.scanTasks holds

theorem run {events : List Event} (holds : property state)
    (reached : Runs.run PhicommTC1.step state events = .ok next) : property next := by
  have along : Runs.Along PhicommTC1.step property state events := by
    apply Runs.always property holds
    intro current event next kept stepped
    exact rules.step kept stepped
  exact along.final reached

end Preserved

end PhicommTC1.Proofs.StoreRules
