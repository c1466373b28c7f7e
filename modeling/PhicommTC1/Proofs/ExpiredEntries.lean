import PhicommTC1.Proofs.ReportEntries

/-! Which expired tasks a scheduler report shows. A plug has one marker, so of the tasks that expire
on it in one pass the report shows the last. -/

namespace PhicommTC1.Proofs.ExpiredEntries
open CText PhicommTC1 ScanPass DeviceSteps RepeatedPass ReportEntries
variable {beyond : Plug → Nat → UserPlugTaskConfig} {pass : Pass} {taskFlag : Plug → UInt8} {i : Plug} {j k : Slot}

/-- The pass finds the slot armed and leaves it disarmed. -/
def Disarms (taskFlag : Plug → UInt8) (pass : Pass) (i : Plug) (j : Slot) : Prop :=
  ((pass.state.uConfig.plug i).task j).on ≠ 0 ∧ (((pass.scan taskFlag).state.uConfig.plug i).task j).on = 0

theorem pass_task (pass : Pass) (taskFlag : Plug → UInt8) (i : Plug) (j : Slot) :
    ((pass.scan taskFlag).state.uConfig.plug i).task j = scanned pass.tm ((pass.state.uConfig.plug i).task j) := by
  rw [Pass.scan, scanPass_task, Scan.start]

theorem scanned_fires {tm : Tm} {task : UserPlugTaskConfig} (fired : fires tm task = true) :
    scanned tm task = task.disarmed := if_pos fired

theorem scanned_idle {tm : Tm} {task : UserPlugTaskConfig} (idle : ¬ fires tm task = true) :
    scanned tm task = task := if_neg idle

theorem disarms_iff : Disarms taskFlag pass i j ↔ fires pass.tm ((pass.state.uConfig.plug i).task j) = true := by
  rw [Disarms, pass_task]
  constructor
  · intro disarms
    obtain ⟨armed, off⟩ := disarms
    by_contra idle
    rw [scanned_idle idle] at off
    exact armed off
  · intro fired
    have due : ((pass.state.uConfig.plug i).task j).due pass.tm = true := (Bool.and_eq_true_iff.mp fired).1
    simp only [UserPlugTaskConfig.due, Bool.and_eq_true, bne_iff_ne] at due
    rw [scanned_fires fired]
    exact ⟨due.1, rfl⟩

/-- A pass that disarms a slot has something to report. -/
theorem disarms_sends (disarms : Disarms taskFlag pass i j) : Sends pass := by
  rw [disarms_iff, fires, Bool.and_eq_true, beq_iff_eq] at disarms
  refine ⟨i, j, ?_⟩
  intro quiet
  exact (quiet disarms.1).1 disarms.2

/-- `plug_i.on` in the report. -/
def Report.on (report : Report) (i : Plug) : Option CJson :=
  ((CJson.object report.jsonSend).getObjectItem (plugStr i)).bind (CJson.getObjectItem · (.ofString "on"))

/-- `plug_i.setting.task_j` in the report. -/
def Report.task (report : Report) (i : Plug) (j : Slot) : Option CJson :=
  (Report.setting report i).bind (CJson.getObjectItem · (plugTaskStr j))

theorem build_on (scan : Scan) (i : Plug) : Report.on (.build beyond scan) i =
    some (.number (Int32.ofNat (scan.state.uConfig.plug i).on.toNat)) := by
  rw [Report.on, build_eq]
  dsimp only
  rw [getObjectItem_skip (mac_plug i),
    plugs_getObjectItem (fun i => plugEntry beyond scan.state.uConfig i (scan.taskFlag i)), Option.bind_some]
  rfl

private theorem taskStr_same : ∀ j k : Slot,
    sameIgnoringCase (plugTaskStr k).bytes (plugTaskStr j).bytes = decide (k = j) := by decide

/-- A plug on which a task expired shows the last of them. -/
theorem build_task (fired : lastFired pass.tm (pass.state.uConfig.plug i).task = some k) (j : Slot) :
    Report.task (.build beyond (pass.scan taskFlag)) i j =
      if k = j then some (echoTask (((pass.scan taskFlag).state.uConfig.plug i).task k)) else none := by
  have marker : (pass.scan taskFlag).taskFlag i = slotMarker k := by
    rw [pass_taskFlag, fired]
    rfl
  rw [Report.task, build_setting, marker, slotMarker_text, taskAt_slot, Option.bind_some, CJson.getObjectItem]
  by_cases same : k = j <;> simp [taskStr_same, same]

/-- A pass that disarms a slot sends a report, and what it sends shows each slot it disarmed, as it
was but off, and where each relay is recorded now. -/
def ReportsExpired (beyond : Plug → Nat → UserPlugTaskConfig) (taskFlag : Plug → UInt8) (pass : Pass) : Prop :=
  ((∃ i j, Disarms taskFlag pass i j) → ∃ report, (pass.scan taskFlag).report beyond = some report) ∧
    ∀ report, (pass.scan taskFlag).report beyond = some report →
      (∀ i j, Disarms taskFlag pass i j →
        Report.task report i j = some (echoTask ((pass.state.uConfig.plug i).task j).disarmed)) ∧
      ∀ i, Report.on report i = some (.number (Int32.ofNat ((pass.scan taskFlag).state.uConfig.plug i).on.toNat))

theorem report_sent (sends : Sends pass) :
    (pass.scan taskFlag).report beyond = some (.build beyond (pass.scan taskFlag)) :=
  if_pos ((sends_iff pass taskFlag).mpr sends)

/-- The report has room for one expired task of a plug. -/
theorem reports_alone {i : Plug} {j k : Slot} (reports : ReportsExpired beyond taskFlag pass)
    (first : fires pass.tm ((pass.state.uConfig.plug i).task j) = true)
    (second : fires pass.tm ((pass.state.uConfig.plug i).task k) = true) : j = k := by
  have last {j : Slot} (fired : fires pass.tm ((pass.state.uConfig.plug i).task j) = true) :
      lastFired pass.tm (pass.state.uConfig.plug i).task = some j := by
    obtain ⟨k, final⟩ := lastFired_exists fired
    have disarms : Disarms taskFlag pass i j := disarms_iff.mpr fired
    have shown := (reports.2 _ (report_sent (disarms_sends disarms))).1 i j disarms
    rw [build_task final] at shown
    split at shown
    next same => rw [final, same]
    next => cases shown
  exact Option.some.inj ((last first).symm.trans (last second))

/-- The report leaves out no expired task exactly when no two one-shot tasks of one plug are due. -/
theorem reports_expired_iff (beyond : Plug → Nat → UserPlugTaskConfig) (taskFlag : Plug → UInt8) (pass : Pass) :
    ReportsExpired beyond taskFlag pass ↔
      ∀ i j k, fires pass.tm ((pass.state.uConfig.plug i).task j) = true →
        fires pass.tm ((pass.state.uConfig.plug i).task k) = true → j = k := by
  constructor
  · intro reports i j k first second
    exact reports_alone reports first second
  · intro alone
    constructor
    · intro some
      obtain ⟨i, j, disarms⟩ := some
      exact ⟨_, report_sent (disarms_sends disarms)⟩
    · intro report sent
      unfold Scan.report at sent
      split at sent
      next =>
        cases sent
        refine ⟨?_, build_on _⟩
        intro i j disarms
        have fired := disarms_iff.mp disarms
        obtain ⟨k, final⟩ := lastFired_exists fired
        have same : k = j := alone i k j (lastFired_fires final) fired
        rw [build_task final, if_pos same, same, pass_task, scanned_fires fired]
      next => cases sent

/-- 16:00 comes with a one-shot task in each of two slots of plug 0. -/
def twoTasks (i : Plug) (j k : Slot) : Pass :=
  ⟨gmtime startTime, { exampleBoot with
    uConfig := (exampleBoot.uConfig.setTask i j ⟨16, 0, 0, 1, 1⟩).setTask i k ⟨16, 0, 0, 1, 1⟩ }⟩

theorem report_leaves_out_task :
    ¬ ∀ (beyond : Plug → Nat → UserPlugTaskConfig) (taskFlag : Plug → UInt8) (pass : Pass),
      ReportsExpired beyond taskFlag pass := by
  intro assumed
  have same : (0 : Slot) = 1 :=
    reports_alone (assumed (fun _ _ => defaultTask) initialTaskFlag (twoTasks 0 0 1)) (i := 0) (by decide) (by decide)
  cases same

end PhicommTC1.Proofs.ExpiredEntries
