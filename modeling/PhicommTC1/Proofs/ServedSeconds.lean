import PhicommTC1.Proofs.SystemSteps

/-! Whether the scheduler gets to a task in the one second that matches it. A scan pass in that
second is enough; that an iteration starts in it is not, because its scan may come a tick later. -/

namespace PhicommTC1.Proofs.ServedSeconds
open CText PhicommTC1 ScanPass SystemSteps
variable {system next entered left : System} {occurrence : SystemEvent} {during : List SystemEvent}
  {i : Plug} {j : Slot}

/-- Enabled, to run once, and for the time shown. -/
def ArmedFor (tm : Tm) (task : UserPlugTaskConfig) : Prop :=
  task.on ≠ 0 ∧ task.repeats = 0 ∧ tm.tmSec = 0 ∧ tm.tmMin = task.minute.toNat ∧ tm.tmHour = task.hour.toNat

def IsScan (system : System) (occurrence : SystemEvent) : Prop :=
  system.scanning = true ∧ ∃ answer, occurrence = .thread answer

def Treats (i : Plug) (j : Slot) (system : System) (occurrence : SystemEvent) : Prop :=
  IsScan system occurrence ∧ (system.task i j).due system.clock.userTime = true

/-- An event from outside leaves the slot as it is. -/
def Untouched (i : Plug) (j : Slot) (system : System) (occurrence : SystemEvent) : Prop :=
  occurrence ≠ .tick → (∀ answer, occurrence ≠ .thread answer) →
    ∀ next, system.step occurrence = .ok next → next.task i j = system.task i j

theorem armedFor_due {tm : Tm} {task : UserPlugTaskConfig} (armed : ArmedFor tm task) : task.due tm = true := by
  obtain ⟨on, once, second, minute, hour⟩ := armed
  simp [UserPlugTaskConfig.due, on, once, second, minute, hour]

/-- Between two ticks only a scan pass moves the slot, and the time shown stays. -/
theorem step_slot (still : occurrence ≠ .tick) (untouched : Untouched i j system occurrence)
    (stepped : system.step occurrence = .ok next) :
    next.clock.userTime = system.clock.userTime ∧
      (IsScan system occurrence ∧ next.task i j = scanned system.clock.userTime (system.task i j) ∨
        ¬ IsScan system occurrence ∧ next.task i j = system.task i j) := by
  cases step_effect stepped with
  | tick occurred same => exact absurd occurred still
  | @sync answer occurred waiting same =>
    subst same
    refine ⟨syncStep_userTime answer system.clock, .inr ⟨?_, rfl⟩⟩
    intro scan
    have impossible := waiting.symm.trans scan.1
    cases impossible
  | @scan answer occurred scanning same =>
    have slot : next.task i j = scanned system.clock.userTime (system.task i j) := by
      simp only [System.task, same]
      exact scanTasks_task _ _ i j
    have clock : next.clock = system.clock := by rw [same]
    exact ⟨congrArg Clock.userTime clock, .inl ⟨⟨scanning, answer, occurred⟩, slot⟩⟩
  | input occurred passive external served clock scanning =>
    refine ⟨congrArg Clock.userTime clock, .inr ⟨?_, untouched external.1 external.2 next stepped⟩⟩
    intro scan
    obtain ⟨-, answer, thread⟩ := scan
    exact external.2 answer thread

theorem disarmed_stays (still : ∀ occurrence ∈ during, occurrence ≠ .tick)
    (untouched : Runs.Meets System.step (Untouched i j) system during) (off : (system.task i j).on = 0)
    (ran : Runs.run System.step system during = .ok left) : (left.task i j).on = 0 := by
  induction during generalizing system with
  | nil => cases ran; exact off
  | cons occurrence during ih =>
    obtain ⟨stillHere, stillLater⟩ := List.forall_mem_cons.mp still
    obtain ⟨next, stepped, ran⟩ := Runs.run_cons.mp ran
    refine ih stillLater (untouched.2 next stepped) ?_ ran
    rcases (step_slot stillHere untouched.1 stepped).2 with ⟨-, slot⟩ | ⟨-, slot⟩
    · rw [slot]
      rcases scanned_cases system.clock.userTime (system.task i j) with same | disarmed
      · rw [same]; exact off
      · rw [disarmed]; rfl
    · rw [slot]; exact off

/-- A task that runs once and matches the second the clock has entered is treated as due and
disarmed before the clock leaves it, if a scan pass is made in that second. -/
theorem armed_slot_served (armed : ArmedFor entered.clock.userTime (entered.task i j))
    (still : ∀ occurrence ∈ during, occurrence ≠ .tick)
    (untouched : Runs.Meets System.step (Untouched i j) entered during)
    (scans : Runs.Occurs System.step IsScan entered during)
    (ran : Runs.run System.step entered during = .ok left) :
    Runs.Occurs System.step (Treats i j) entered during ∧ (left.task i j).on = 0 := by
  induction during generalizing entered with
  | nil => cases scans
  | cons occurrence during ih =>
    obtain ⟨stillHere, stillLater⟩ := List.forall_mem_cons.mp still
    obtain ⟨next, stepped, ran⟩ := Runs.run_cons.mp ran
    obtain ⟨time, ⟨scan, slot⟩ | ⟨noScan, slot⟩⟩ := step_slot stillHere untouched.1 stepped
    · have due := armedFor_due armed
      refine ⟨.inl ⟨scan, due⟩, disarmed_stays stillLater (untouched.2 next stepped) ?_ ran⟩
      rw [slot, scanned, due, armed.2.1]
      rfl
    · obtain ⟨other, again, later⟩ := scans.resolve_left noScan
      cases stepped.symm.trans again
      have armedNext : ArmedFor next.clock.userTime (next.task i j) := by rw [time, slot]; exact armed
      obtain ⟨treated, off⟩ := ih armedNext stillLater (untouched.2 next stepped) later ran
      exact ⟨.inr ⟨next, stepped, treated⟩, off⟩

theorem armed_slot_served_at_start : ∃ entered left : System,
    Runs.run System.step entered [.thread (-1), .thread (-1)] = .ok left ∧
      Runs.Occurs System.step (Treats 0 0) entered [.thread (-1), .thread (-1)] ∧ (left.task 0 0).on = 0 := by
  obtain ⟨entered, -, outcome⟩ : ∃ entered, Runs.run System.step (.boot exampleMac (.ofString "192.168.1.20"))
      [.command (some (exampleTask ⟨16, 0, 0, 1, 1⟩))] = .ok entered ∧
      (entered.scanning, entered.clock.userTime, entered.task 0 0) = (false, ⟨0, 0, 16, 1⟩, ⟨16, 0, 0, 1, 1⟩) :=
    Runs.map_ok.mp (by decide +kernel)
  simp only [Prod.mk.injEq] at outcome
  obtain ⟨between, time, task⟩ := outcome
  have synced : (entered.thread (-1)).scanning = true := by rw [thread_sync between]
  refine ⟨entered, _, rfl, armed_slot_served ?_ (by simp) ?_ ?_ rfl⟩
  · rw [time, task]
    exact ⟨by decide, rfl, rfl, rfl, rfl⟩
  · have thread (system : System) : Untouched 0 0 system (.thread (-1)) := fun _ other => absurd rfl (other (-1))
    exact ⟨thread _, fun _ _ => ⟨thread _, fun _ _ => trivial⟩⟩
  · exact .inr ⟨_, rfl, .inl ⟨synced, -1, rfl⟩⟩

def started (system : System) (sofar : Bool) (occurrence : SystemEvent) (_ : System) : Bool :=
  match occurrence with
  | .tick => false
  | .thread _ => sofar || !system.scanning
  | _ => sofar

/-- No second ends before an iteration has started in it. -/
def StartsEverySecond (system : System) (occurrences : List SystemEvent) : Prop :=
  Runs.Meets (Runs.observed System.step started) (fun current occurrence => occurrence = .tick → current.2 = true)
    (system, false) occurrences

def Unanswered (occurrences : List SystemEvent) : Prop :=
  ∀ occurrence ∈ occurrences, ∀ answer, occurrence = .thread answer → answer < 0

def idleSecond : List SystemEvent := [.tick, .thread (-1), .thread (-1)]

/-- The system after so many ticks in which nothing happened, waiting for a task at 08:10. -/
structure Waiting (ticks : Nat) (scanning : Bool) (system : System) : Prop where
  rtctimes : system.clock.rtctimes = startRtctimes ticks
  userTime : system.clock.userTime = startUserTime ticks
  asleep : system.clock.ntptimeSucceed = false
  scanning : system.scanning = scanning
  task : ∀ i j, system.task i j = if i = 0 ∧ j = 0 then ⟨8, 10, 0, 1, 1⟩ else defaultTask

namespace Waiting
variable {ticks : Nat}

theorem minutes_before_ten : ∀ ticks : Fin 600, (startUserTime ticks.val).tmMin ≠ 10 := by decide +kernel

theorem nothing_due (early : ticks < 600) {scanning : Bool} (waiting : Waiting ticks scanning system) (i : Plug)
    (j : Slot) : (system.task i j).due system.clock.userTime = false := by
  have minute := minutes_before_ten ⟨ticks, early⟩
  rw [waiting.task, waiting.userTime]
  split
  · simp [UserPlugTaskConfig.due, minute]
  · rfl

theorem tick (waiting : Waiting ticks false system) :
    Waiting (ticks + 1) false { system with clock := rtctimeTimeoutHandler system.clock } where
  rtctimes := (tick_startUserTime waiting.rtctimes).1
  userTime := (tick_startUserTime waiting.rtctimes).2
  asleep := waiting.asleep
  scanning := waiting.scanning
  task := waiting.task

theorem sync (waiting : Waiting ticks false system) : Waiting ticks true (system.thread (-1)) := by
  rw [thread_sync waiting.scanning, syncStep_fails (by decide) waiting.asleep]
  exact ⟨waiting.rtctimes, waiting.userTime, waiting.asleep, rfl, waiting.task⟩

theorem scan (early : ticks < 600) (waiting : Waiting ticks true system) :
    Waiting ticks false (system.thread (-1)) := by
  rw [thread_scan waiting.scanning]
  refine ⟨waiting.rtctimes, waiting.userTime, waiting.asleep, rfl, ?_⟩
  intro i j
  have slot := scanTasks_task system.clock.userTime system.device i j
  rw [scanned, nothing_due early waiting i j] at slot
  exact slot.trans (waiting.task i j)

end Waiting

abbrev watched : System × Bool → SystemEvent → Exec (System × Bool) := Runs.observed System.step started

abbrev Conforms : System × Bool → List SystemEvent → Prop :=
  Runs.Meets watched fun current occurrence => occurrence = .tick → current.2 = true

theorem idle_second {ticks : Nat} (early : ticks + 1 < 600) (waiting : Waiting ticks false system) :
    ∃ next, Runs.run watched (system, true) idleSecond = .ok (next, true) ∧ Conforms (system, true) idleSecond ∧
      Waiting (ticks + 1) false next := by
  have begun : true = (false || !system.scanning) := by rw [waiting.scanning]; rfl
  refine ⟨_, ?_, ?_, waiting.tick.sync.scan early⟩
  · exact Runs.run_cons.mpr ⟨_, Runs.observed_ok.mpr ⟨rfl, rfl⟩, Runs.run_cons.mpr ⟨_,
      Runs.observed_ok.mpr ⟨rfl, begun⟩, Runs.run_cons.mpr ⟨_, Runs.observed_ok.mpr ⟨rfl, rfl⟩, rfl⟩⟩⟩
  · exact ⟨fun _ => rfl, fun _ _ => ⟨nofun, fun _ _ => ⟨nofun, fun _ _ => trivial⟩⟩⟩

theorem idle_seconds (count : Nat) {ticks : Nat} (early : ticks + count < 600) (waiting : Waiting ticks false system) :
    ∃ next, Runs.run watched (system, true) (List.replicate count idleSecond).flatten = .ok (next, true) ∧
      Conforms (system, true) (List.replicate count idleSecond).flatten ∧ Waiting (ticks + count) false next := by
  induction count generalizing ticks system with
  | zero => exact ⟨system, rfl, trivial, waiting⟩
  | succ count ih =>
    obtain ⟨middle, first, conforms, waiting⟩ := idle_second (by omega) waiting
    obtain ⟨next, rest, conformsRest, waiting⟩ := ih (by omega) waiting
    rw [List.replicate_succ, List.flatten_cons]
    refine ⟨next, Runs.run_append.mpr ⟨_, first, rest⟩, Runs.meets_append.mpr ⟨conforms, ?_⟩, ?_⟩
    · intro other reached
      cases first.symm.trans reached
      exact conformsRest
    · rw [show ticks + (count + 1) = ticks + 1 + count by omega]
      exact waiting

/-- The task is stored and the thread goes round in the second in which it starts. -/
def firstSecond : List SystemEvent :=
  [.command (some (exampleTask ⟨8, 10, 0, 1, 1⟩)), .thread (-1), .thread (-1)]

/-- Idle seconds up to 08:09:59. -/
def past : List SystemEvent := firstSecond ++ (List.replicate 599 idleSecond).flatten

theorem first_second : ∃ next,
    Runs.run watched (.boot exampleMac (.ofString "192.168.1.20"), false) firstSecond = .ok (next, true) ∧
      Waiting 0 false next := by
  obtain ⟨⟨next, begun⟩, ran, outcome⟩ : ∃ current : System × Bool,
      Runs.run watched (.boot exampleMac (.ofString "192.168.1.20"), false) firstSecond = .ok current ∧
      (current.2, current.1.clock.rtctimes, current.1.clock.userTime, current.1.clock.ntptimeSucceed,
        current.1.scanning,
        decide (∀ i j, current.1.task i j = if i = 0 ∧ j = 0 then ⟨8, 10, 0, 1, 1⟩ else defaultTask)) =
      (true, startRtctimes 0, startUserTime 0, false, false, true) := Runs.map_ok.mp (by decide +kernel)
  simp only [Prod.mk.injEq, decide_eq_true_eq] at outcome
  obtain ⟨rfl, rtctimes, userTime, asleep, scanning, task⟩ := outcome
  exact ⟨next, ran, rtctimes, userTime, asleep, scanning, task⟩

theorem past_run : ∃ next,
    Runs.run watched (.boot exampleMac (.ofString "192.168.1.20"), false) past = .ok (next, true) ∧
      Conforms (.boot exampleMac (.ofString "192.168.1.20"), false) past ∧ Waiting 599 false next := by
  obtain ⟨begun, first, waiting⟩ := first_second
  obtain ⟨next, rest, conforms, waiting⟩ := idle_seconds 599 (by omega) waiting
  refine ⟨next, Runs.run_append.mpr ⟨_, first, rest⟩, Runs.meets_append.mpr ⟨?_, ?_⟩, ?_⟩
  · exact ⟨nofun, fun _ _ => ⟨nofun, fun _ _ => ⟨nofun, fun _ _ => trivial⟩⟩⟩
  · intro other reached
    cases first.symm.trans reached
    exact conforms
  · rw [Nat.zero_add] at waiting
    exact waiting

theorem past_unanswered : Unanswered (past ++ .tick :: ([.thread (-1)] ++ [.tick])) := by
  have negative : (-1 : Int32) < 0 := by decide
  have idle : Unanswered idleSecond := by simp [Unanswered, idleSecond, negative]
  have first : Unanswered firstSecond := by simp [Unanswered, firstSecond, negative]
  have last : Unanswered (.tick :: ([.thread (-1)] ++ [.tick])) := by simp [Unanswered, negative]
  refine List.forall_mem_append.mpr ⟨List.forall_mem_append.mpr ⟨first, ?_⟩, last⟩
  intro occurrence member
  obtain ⟨second, member, inside⟩ := List.mem_flatten.mp member
  obtain ⟨-, rfl⟩ := List.mem_replicate.mp member
  exact idle occurrence inside

/-- A tick between the sync step and the scan pass of the iteration that started at 08:10:00. -/
theorem tick_before_scan_loses_task :
    ¬ ∀ (strMac strIp : CStr) (past during : List SystemEvent) (entered left : System) (i : Plug) (j : Slot),
      Unanswered (past ++ .tick :: (during ++ [.tick])) →
      StartsEverySecond (.boot strMac strIp) (past ++ .tick :: (during ++ [.tick])) →
      (∀ occurrence ∈ during, occurrence ≠ .tick) →
      Runs.run System.step (.boot strMac strIp) (past ++ [.tick]) = .ok entered →
      ArmedFor entered.clock.userTime (entered.task i j) →
      Runs.Meets System.step (Untouched i j) entered during →
      Runs.run System.step entered during = .ok left →
      Runs.Occurs System.step (Treats i j) entered during ∧ (left.task i j).on = 0 := by
  intro assumed
  obtain ⟨last, reached, conforms, waiting⟩ := past_run
  let entered : System := { last with clock := rtctimeTimeoutHandler last.clock }
  have time : entered.clock.userTime = startUserTime 600 := waiting.tick.userTime
  have task : entered.task 0 0 = ⟨8, 10, 0, 1, 1⟩ := waiting.task 0 0
  have armed : ArmedFor entered.clock.userTime (entered.task 0 0) := by
    rw [time, task]
    exact ⟨by decide, rfl, by decide, by decide, by decide⟩
  have begun : (false || !entered.scanning) = true := by rw [waiting.tick.scanning]; rfl
  have starts : StartsEverySecond (.boot exampleMac (.ofString "192.168.1.20"))
      (past ++ .tick :: ([.thread (-1)] ++ [.tick])) := by
    refine Runs.meets_append.mpr ⟨conforms, ?_⟩
    intro current again
    cases reached.symm.trans again
    refine ⟨fun _ => rfl, ?_⟩
    intro current ticked
    cases ticked
    refine ⟨nofun, ?_⟩
    intro current synced
    cases synced
    exact ⟨fun _ => begun, fun _ _ => trivial⟩
  have entering : Runs.run System.step (.boot exampleMac (.ofString "192.168.1.20")) (past ++ [.tick]) = .ok entered :=
    Runs.run_append.mpr ⟨last, Runs.run_of_observed reached, rfl⟩
  obtain ⟨-, off⟩ := assumed exampleMac (.ofString "192.168.1.20") past [.thread (-1)] entered (entered.thread (-1)) 0 0
    past_unanswered starts (by simp) entering armed ⟨fun _ other => absurd rfl (other (-1)), fun _ _ => trivial⟩ rfl
  rw [System.thread, if_neg (by rw [waiting.tick.scanning]; decide)] at off
  change (entered.task 0 0).on = 0 at off
  rw [task] at off
  cases off

end PhicommTC1.Proofs.ServedSeconds
