import PhicommTC1.Proofs.RepeatedPass
import PhicommTC1.Proofs.SystemSteps

/-! What the scheduler does before the clock has been set. There is no gate: until the first
successful `update_rtctime` the clock runs freely from its start, and tasks fire by it. -/

namespace PhicommTC1.Proofs.UnsynchronisedClock
open CText PhicommTC1 ScanPass SystemSteps RepeatedPass

/-- What an observer keeps of a run: whether an `update_rtctime` call has succeeded, and the ticks. -/
structure History where
  synced : Bool
  ticks : Nat

namespace History

def empty : History := ⟨false, 0⟩

/-- The sync step calls `update_rtctime` in a minute divisible by ten, unless it has succeeded there. -/
def succeeds (answer : Int32) (clock : Clock) : Bool :=
  clock.userTime.tmMin % 10 == 0 && !clock.ntptimeSucceed && (updateRtctime answer clock).1

def take (system : System) (history : History) (occurrence : SystemEvent) (_ : System) : History :=
  match occurrence with
  | .tick => { history with ticks := history.ticks + 1 }
  | .thread answer => { history with synced := history.synced || (!system.scanning && succeeds answer system.clock) }
  | _ => history

end History

abbrev chronicle : System × History → SystemEvent → Exec (System × History) :=
  Runs.observed System.step History.take

/-- As long as no call has succeeded the clock runs freely from its start. -/
def FreeRunning (current : System × History) : Prop :=
  current.2.synced = false →
    current.1.clock.rtctimes = startRtctimes current.2.ticks ∧ current.1.clock.userTime = startUserTime current.2.ticks

variable {system next : System} {history : History} {occurrence : SystemEvent}

theorem syncStep_rtctimes {answer : Int32} {clock : Clock} (failed : History.succeeds answer clock = false) :
    (syncStep answer clock).rtctimes = clock.rtctimes := by
  simp only [syncStep, updateRtctime, History.succeeds] at failed ⊢
  split_ifs at failed ⊢ <;> first | rfl | simp_all

theorem step_freeRunning (free : FreeRunning (system, history)) (stepped : system.step occurrence = .ok next) :
    FreeRunning (next, history.take system occurrence next) := by
  intro unsynced
  cases step_effect stepped with
  | tick occurred same =>
    subst occurred same
    obtain ⟨count, -⟩ := free unsynced
    exact tick_startUserTime count
  | @sync answer occurred waiting same =>
    subst occurred same
    simp only [History.take, waiting, Bool.or_eq_false_iff, Bool.not_false, Bool.true_and] at unsynced
    obtain ⟨count, time⟩ := free unsynced.1
    exact ⟨(syncStep_rtctimes unsynced.2).trans count, (syncStep_userTime answer system.clock).trans time⟩
  | @scan answer occurred scanning same =>
    subst occurred same
    simp only [History.take, scanning, Bool.or_eq_false_iff] at unsynced
    exact free unsynced.1
  | input occurred passive external served clock scanning =>
    have kept : history.take system occurrence next = history := by
      cases occurrence with
      | tick => exact absurd rfl external.1
      | thread answer => exact absurd rfl (external.2 answer)
      | _ => rfl
    rw [kept] at unsynced ⊢
    simpa only [FreeRunning, clock] using free unsynced

theorem run_freeRunning {strMac strIp : CStr} {occurrences : List SystemEvent}
    (completed : Runs.run chronicle (.boot strMac strIp, .empty) occurrences = .ok (system, history)) :
    FreeRunning (system, history) := by
  have along : Runs.Along chronicle FreeRunning (.boot strMac strIp, .empty) occurrences := by
    apply Runs.always
    · intro unsynced
      exact ⟨rfl, rfl⟩
    · intro current occurrence reached free stepped
      obtain ⟨ran, taken⟩ := Runs.observed_ok.mp stepped
      rw [FreeRunning, taken]
      exact step_freeRunning free ran
  exact along.final completed

section Pass
variable (tm : Tm) (state : State)

/-- During a pass over `state` every slot is as it was or disarmed, and every call so far was made
for a due slot of its plug. -/
structure Explained (scan : Scan) : Prop where
  slots : ∀ i j, (scan.state.uConfig.plug i).task j = (state.uConfig.plug i).task j ∨
    (scan.state.uConfig.plug i).task j = ((state.uConfig.plug i).task j).disarmed
  calls : ∀ call ∈ scan.relaySet, ∃ j, ((state.uConfig.plug call.1).task j).due tm = true ∧
    ((state.uConfig.plug call.1).task j).action = call.2

variable {tm state}

theorem visit_task (tm : Tm) (scan : Scan) (i x : Plug) (j y : Slot) :
    ((scan.visit tm i j).state.uConfig.plug x).task y = (scan.state.uConfig.plug x).task y ∨
      ((scan.visit tm i j).state.uConfig.plug x).task y = ((scan.state.uConfig.plug x).task y).disarmed := by
  by_cases here : x = i
  · subst here
    have visited := congrFun (congrArg PlugView.task (visit_view tm x scan j)) y
    rw [view_task] at visited
    rw [visited]
    by_cases same : y = j
    · subst same
      simp only [PlugView.visit, Function.update_self, view_task]
      exact scanned_cases tm _
    · exact .inl (by simp [PlugView.visit, same, view_task])
  · exact .inl (congrFun (congrArg PlugView.task (visit_view_other tm i scan j here)) y)

theorem visit_relaySet (tm : Tm) (scan : Scan) (i : Plug) (j : Slot) :
    (scan.visit tm i j).relaySet = scan.relaySet ∨
      ((scan.state.uConfig.plug i).task j).due tm = true ∧
        (scan.visit tm i j).relaySet = scan.relaySet ++ [(i, ((scan.state.uConfig.plug i).task j).action)] := by
  by_cases due : ((scan.state.uConfig.plug i).task j).due tm = true
  · simp only [Scan.visit, due, if_true, Scan.switchTo, Scan.expire]
    split_ifs <;> simp
  · simp [Scan.visit, due]

theorem visit_explained {scan : Scan} (explained : Explained tm state scan) (i : Plug) (j : Slot) :
    Explained tm state (scan.visit tm i j) where
  slots x y := by
    rcases visit_task tm scan i x j y with same | off <;> rcases explained.slots x y with before | before
    · exact .inl (same.trans before)
    · exact .inr (same.trans before)
    · exact .inr (off.trans (congrArg _ before))
    · exact .inr (off.trans (by rw [before]; rfl))
  calls call member := by
    rcases visit_relaySet tm scan i j with same | ⟨due, called⟩
    · rw [same] at member
      exact explained.calls call member
    · rw [called, List.mem_append, List.mem_singleton] at member
      rcases member with earlier | rfl
      · exact explained.calls call earlier
      · rcases explained.slots i j with original | disarmed
        · exact ⟨j, by rw [← original]; exact due, by rw [original]⟩
        · rw [disarmed, disarmed_not_due] at due
          cases due

theorem scanPass_explained (tm : Tm) (state : State) (taskFlag : Plug → UInt8) :
    Explained tm state (scanPass tm (.start state taskFlag)) := by
  have plug (scan : Scan) (i : Plug) (explained : Explained tm state scan) :
      Explained tm state (scan.scanPlug tm i) :=
    IndexedLoop.foldl_keeps (Explained tm state) (fun _ j kept => visit_explained kept i j) explained
  apply IndexedLoop.foldl_keeps (Explained tm state) plug
  constructor
  · intro i j
    exact .inl rfl
  · intro call none
    cases none

theorem scanPass_disarms {taskFlag : Plug → UInt8} {i : Plug} {j : Slot}
    (enabled : ((state.uConfig.plug i).task j).on ≠ 0)
    (off : (((scanPass tm (.start state taskFlag)).state.uConfig.plug i).task j).on = 0) :
    ((state.uConfig.plug i).task j).due tm = true := by
  rw [scanPass_task, scanned] at off
  split at off
  next fired => exact ((Bool.and_eq_true _ _).mp fired).1
  next => exact absurd off enabled

end Pass

def Matches (tm : Tm) (task : UserPlugTaskConfig) : Prop :=
  tm.tmSec = 0 ∧ tm.tmMin = task.minute.toNat ∧ tm.tmHour = task.hour.toNat

theorem due_matches {tm : Tm} {task : UserPlugTaskConfig} (due : task.due tm = true) : Matches tm task := by
  simp only [UserPlugTaskConfig.due, Bool.and_eq_true, beq_iff_eq] at due
  exact ⟨due.2.1.1.1, due.2.1.1.2, due.2.1.2⟩

/-- In every run a pass acts only for slots that match the time it sees, and that time was set by a
successful `update_rtctime` call or is that of the clock running freely from its start. -/
theorem passes_act_by_the_clock {strMac strIp : CStr} {occurrences : List SystemEvent}
    (completed : Runs.run chronicle (.boot strMac strIp, .empty) occurrences = .ok (system, history)) :
    (history.synced = true ∨ system.clock.userTime = startUserTime history.ticks) ∧
      (∀ call ∈ system.pass.relaySet, ∃ j, Matches system.clock.userTime (system.task call.1 j) ∧
        (system.task call.1 j).action = call.2) ∧
      ∀ i j, (system.task i j).on ≠ 0 → ((system.pass.state.uConfig.plug i).task j).on = 0 →
        Matches system.clock.userTime (system.task i j) := by
  refine ⟨?_, ?_, ?_⟩
  · cases synced : history.synced with
    | true => exact .inl rfl
    | false => exact .inr (run_freeRunning completed synced).2
  · intro call member
    rw [System.pass] at member
    obtain ⟨j, due, action⟩ := (scanPass_explained _ _ _).calls call member
    exact ⟨j, due_matches due, action⟩
  · intro i j enabled off
    rw [System.pass] at off
    exact due_matches (scanPass_disarms enabled off)

def powerReturns : List SystemEvent := [.command (some (exampleTask ⟨16, 0, 0, 1, 1⟩)), .thread (-1)]

theorem powerReturns_run : ∃ current,
    Runs.run chronicle (.boot exampleMac (.ofString "192.168.1.20"), .empty) powerReturns = .ok current ∧
      (current.2.synced, current.1.scanning, current.1.pass.relaySet) = (false, true, [(0, 1)]) :=
  Runs.map_ok.mp (by decide +kernel)

theorem passes_act_by_the_clock_powerReturns : ∃ (system : System) (history : History),
    history.synced = false ∧ system.pass.relaySet = [(0, 1)] ∧
      (history.synced = true ∨ system.clock.userTime = startUserTime history.ticks) ∧
      (∀ call ∈ system.pass.relaySet, ∃ j, Matches system.clock.userTime (system.task call.1 j) ∧
        (system.task call.1 j).action = call.2) ∧
      ∀ i j, (system.task i j).on ≠ 0 → ((system.pass.state.uConfig.plug i).task j).on = 0 →
        Matches system.clock.userTime (system.task i j) := by
  obtain ⟨⟨system, history⟩, completed, outcome⟩ := powerReturns_run
  obtain ⟨unsynced, -, calls⟩ := by simpa only [Prod.mk.injEq] using outcome
  exact ⟨system, history, unsynced, calls, passes_act_by_the_clock completed⟩

/-- The next pass switches the relay although no `update_rtctime` call has succeeded. -/
theorem task_fires_unsynchronised :
    ¬ ∀ (strMac strIp : CStr) (occurrences : List SystemEvent) (system : System) (history : History),
      Runs.run chronicle (.boot strMac strIp, .empty) occurrences = .ok (system, history) →
      system.scanning = true → system.pass.relaySet ≠ [] → history.synced = true := by
  intro assumed
  obtain ⟨⟨system, history⟩, completed, outcome⟩ := powerReturns_run
  obtain ⟨unsynced, scanning, calls⟩ := by simpa only [Prod.mk.injEq] using outcome
  have synced := assumed _ _ _ system history completed scanning (by rw [calls]; simp)
  rw [unsynced] at synced
  cases synced

end PhicommTC1.Proofs.UnsynchronisedClock
