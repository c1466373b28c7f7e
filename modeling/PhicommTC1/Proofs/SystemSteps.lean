import PhicommTC1.Proofs.DeviceSteps
import PhicommTC1.System

/-! The firmware with its clock takes the steps of the firmware without it. -/

namespace PhicommTC1.Proofs.SystemSteps
open PhicommTC1 ScanPass DeviceSteps
variable {system next : System} {occurrence : SystemEvent}

private theorem visit_same_state {tm : Tm} (i : Plug) (first second : Scan) (j : Slot)
    (same : first.state = second.state) : (first.visit tm i j).state = (second.visit tm i j).state := by
  cases first
  cases second
  cases same
  simp only [Scan.visit, Scan.switchTo, Scan.expire]
  split_ifs <;> rfl

/-- Markers and flags of a pass are written and never read. -/
theorem scanPass_state (tm : Tm) (state : State) (taskFlag : Plug → UInt8) :
    (scanPass tm (.start state taskFlag)).state = scanTasks tm state := by
  have plug (first second : Scan) (i : Plug) (same : first.state = second.state) :
      (first.scanPlug tm i).state = (second.scanPlug tm i).state :=
    IndexedLoop.foldl_related (fun first second => Scan.state first = Scan.state second)
      (visit_same_state i) same
  rw [scanTasks_eq]
  exact IndexedLoop.foldl_related (fun first second => Scan.state first = Scan.state second) plug rfl

theorem thread_sync {answer : Int32} (waiting : system.scanning = false) :
    system.thread answer = { system with clock := syncStep answer system.clock, scanning := true } := by
  simp [System.thread, waiting]

theorem thread_scan {answer : Int32} (scanning : system.scanning = true) : system.thread answer =
    ⟨scanTasks system.clock.userTime system.device, system.clock, system.pass.reported, false⟩ := by
  simp only [System.thread, scanning, if_true]
  rw [System.pass, scanPass_state]

theorem event_fits {event : Event} (fits : occurrence.Fits) (occurred : occurrence.event system = some event) :
    event.Fits := by
  cases occurrence with
  | tick => cases occurred
  | thread answer =>
    simp only [SystemEvent.event, Option.ite_none_right_eq_some] at occurred
    cases occurred.2
    trivial
  | command pJsonRoot =>
    cases occurred
    cases pJsonRoot <;> exact fits
  | switchPage url => cases occurred; trivial
  | keyPress => cases occurred; trivial

inductive Effect (system : System) (occurrence : SystemEvent) (next : System) : Prop where
  | tick (occurred : occurrence = .tick)
      (same : next = { system with clock := rtctimeTimeoutHandler system.clock })
  | sync {answer : Int32} (occurred : occurrence = .thread answer) (waiting : system.scanning = false)
      (same : next = { system with clock := syncStep answer system.clock, scanning := true })
  | scan {answer : Int32} (occurred : occurrence = .thread answer) (scanning : system.scanning = true)
      (same : next =
        ⟨scanTasks system.clock.userTime system.device, system.clock, system.pass.reported, false⟩)
  | input {event : Event} (occurred : occurrence.event system = some event) (passive : ∀ tm, event ≠ .scan tm)
      (external : occurrence ≠ .tick ∧ ∀ answer, occurrence ≠ .thread answer)
      (stepped : step system.device event = .ok next.device) (clock : next.clock = system.clock)
      (scanning : next.scanning = system.scanning)

theorem step_effect (stepped : system.step occurrence = .ok next) : Effect system occurrence next := by
  have input {event : Event} (occurred : occurrence.event system = some event) (passive : ∀ tm, event ≠ .scan tm)
      (external : occurrence ≠ .tick ∧ ∀ answer, occurrence ≠ .thread answer)
      (ran : system.input event = .ok next) : Effect system occurrence next := by
    obtain ⟨device, served, same⟩ := Runs.bind_ok.mp ran
    cases same
    exact .input occurred passive external served rfl rfl
  cases occurrence with
  | tick => exact .tick rfl (Except.ok.inj stepped).symm
  | thread answer =>
    have same := (Except.ok.inj stepped).symm
    cases scanning : system.scanning with
    | true => exact .scan rfl scanning (same.trans (thread_scan scanning))
    | false => exact .sync rfl scanning (same.trans (thread_sync scanning))
  | command pJsonRoot => exact input rfl (fun _ => nofun) ⟨nofun, fun _ => nofun⟩ stepped
  | switchPage url => exact input rfl (fun _ => nofun) ⟨nofun, fun _ => nofun⟩ stepped
  | keyPress => exact input rfl (fun _ => nofun) ⟨nofun, fun _ => nofun⟩ stepped

/-- The count and the time the clock shows after so many ticks from its start. -/
def startRtctimes (ticks : Nat) : Int32 := Int32.ofNat ticks

def startUserTime (ticks : Nat) : Tm :=
  if ticks = 0 then gmtime startTime else gmtime (startRtctimes ticks + 8 * 3600).toInt

theorem tick_startUserTime {clock : Clock} {ticks : Nat} (count : clock.rtctimes = startRtctimes ticks) :
    (rtctimeTimeoutHandler clock).rtctimes = startRtctimes (ticks + 1) ∧
      (rtctimeTimeoutHandler clock).userTime = startUserTime (ticks + 1) := by
  have counted : clock.rtctimes + 1 = startRtctimes (ticks + 1) := by
    rw [count, startRtctimes, startRtctimes, Int32.ofNat_add]
    rfl
  exact ⟨counted, by simp only [rtctimeTimeoutHandler, counted, startUserTime, Nat.add_one_ne_zero, if_false]⟩

theorem syncStep_userTime (answer : Int32) (clock : Clock) : (syncStep answer clock).userTime = clock.userTime := by
  simp only [syncStep, updateRtctime]
  split_ifs <;> rfl

theorem syncStep_fails {answer : Int32} {clock : Clock} (negative : answer < 0)
    (asleep : clock.ntptimeSucceed = false) :
    syncStep answer clock = clock := by
  simp only [syncStep, updateRtctime, negative, if_true, asleep, Bool.false_eq_true, if_false]
  split_ifs <;> simp [← asleep]

end PhicommTC1.Proofs.SystemSteps
