import PhicommTC1.SchedulerReport
import PhicommTC1.Proofs.DeviceSteps
import PhicommTC1.Proofs.RepeatedPass

/-! Which tasks a scheduler report names. A marker is never negative, so every plug gets an entry,
and only a plug whose task fired in the pass has a marker that is a slot. -/

namespace PhicommTC1.Proofs.ReportEntries
open CText PhicommTC1 ScanPass DeviceSteps RepeatedPass
variable {beyond : Plug → Nat → UserPlugTaskConfig} {tm : Tm} {scan : Scan} {pass : Pass} {taskFlag : Plug → UInt8}

/-- A one-shot task that is due, which the pass runs and disarms. -/
def fires (tm : Tm) (task : UserPlugTaskConfig) : Bool := task.due tm && task.repeats == 0

theorem switchTo_taskFlag (scan : Scan) (i : Plug) (action : UInt8) :
    (scan.switchTo i action).taskFlag = scan.taskFlag := by
  unfold Scan.switchTo
  split <;> rfl

theorem visit_taskFlag (scan : Scan) (i : Plug) (j : Slot) :
    (scan.visit tm i j).taskFlag =
      if fires tm ((scan.state.uConfig.plug i).task j) then Function.update scan.taskFlag i (UInt8.ofNat j.val)
      else scan.taskFlag := by
  unfold Scan.visit fires
  dsimp only
  by_cases due : ((scan.state.uConfig.plug i).task j).due tm = true
  · rw [if_pos due, due, Bool.true_and]
    split
    · simp only [Scan.expire, switchTo_taskFlag]
    · exact switchTo_taskFlag scan i _
  · rw [if_neg due, if_neg (by simp [due])]

theorem visit_taskFlag_other (scan : Scan) {i other : Plug} (different : other ≠ i) (j : Slot) :
    (scan.visit tm i j).taskFlag other = scan.taskFlag other := by
  rw [visit_taskFlag]
  split
  · exact Function.update_of_ne different _ _
  · rfl

def slotMarker (j : Slot) : UInt8 := UInt8.ofNat j.val

theorem visits_taskFlag (i : Plug) {slots : List Slot} (once : slots.Nodup) (scan : Scan) :
    (slots.foldl (Scan.visit tm i) scan).taskFlag i =
      ((slots.filter fun j => fires tm ((scan.state.uConfig.plug i).task j)).getLast?.map slotMarker).getD
        (scan.taskFlag i) := by
  induction slots generalizing scan with
  | nil => rfl
  | cons j slots ih =>
    obtain ⟨fresh, once⟩ := List.nodup_cons.mp once
    have later : ∀ k ∈ slots,
        ((scan.visit tm i j).state.uConfig.plug i).task k = (scan.state.uConfig.plug i).task k := by
      intro k member
      have different : k ≠ j := fun same => fresh (same ▸ member)
      rw [← view_task, visit_view, PlugView.visit]
      exact Function.update_of_ne different _ _
    have sameFires : (slots.filter fun k => fires tm (((scan.visit tm i j).state.uConfig.plug i).task k)) =
        slots.filter fun k => fires tm ((scan.state.uConfig.plug i).task k) :=
      List.filter_congr fun k member => by rw [later k member]
    rw [List.foldl_cons, ih once, sameFires, List.filter_cons, visit_taskFlag]
    cases final : (slots.filter fun k => fires tm ((scan.state.uConfig.plug i).task k)).getLast? with
    | some k => split <;> simp [List.getLast?_cons, final]
    | none => split <;> simp [List.getLast?_cons, final, slotMarker]

def lastFired (tm : Tm) (task : Slot → UserPlugTaskConfig) : Option Slot :=
  ((List.finRange 5).filter fun j => fires tm (task j)).getLast?

/-- The marker of a plug and the slots it depends on. -/
def marked (i : Plug) (scan : Scan) : UInt8 × (Slot → UserPlugTaskConfig) := (scan.taskFlag i, (view i scan).task)

def markedAfter (tm : Tm) (before : UInt8 × (Slot → UserPlugTaskConfig)) : UInt8 × (Slot → UserPlugTaskConfig) :=
  (((lastFired tm before.2).map slotMarker).getD before.1, fun j => scanned tm (before.2 j))

theorem scanPlug_taskFlag (scan : Scan) (i : Plug) : (scan.scanPlug tm i).taskFlag i =
    ((lastFired tm (view i scan).task).map slotMarker).getD (scan.taskFlag i) := by
  rw [Scan.scanPlug, visits_taskFlag i (List.nodup_finRange 5), lastFired, view_task]

theorem scanPlug_taskFlag_other (scan : Scan) (i other : Plug) (different : other ≠ i) :
    (scan.scanPlug tm i).taskFlag other = scan.taskFlag other := by
  rw [Scan.scanPlug]
  apply IndexedLoop.foldl_same (fun scan : Scan => scan.taskFlag other)
  intro scan j
  exact visit_taskFlag_other scan different j

theorem scanPlug_marked (scan : Scan) (i : Plug) : marked i (scan.scanPlug tm i) = markedAfter tm (marked i scan) := by
  simp only [marked, markedAfter, scanPlug_taskFlag, scanPlug_view, Prod.mk.injEq, true_and]
  funext j
  exact visits_task tm (view i scan) j

theorem scanPlug_marked_other (scan : Scan) (i other : Plug) (different : other ≠ i) :
    marked other (scan.scanPlug tm i) = marked other scan := by
  simp only [marked, scanPlug_taskFlag_other scan i other different, scanPlug_view_other tm scan i other different]

theorem scanPass_marked (scan : Scan) (i : Plug) : marked i (scanPass tm scan) = markedAfter tm (marked i scan) :=
  IndexedLoop.foldl_view marked (fun _ => markedAfter tm) scanPlug_marked scanPlug_marked_other
    (List.nodup_finRange 6) (List.mem_finRange i)

theorem marked_fst (i : Plug) (scan : Scan) : (marked i scan).1 = scan.taskFlag i := rfl

theorem pass_taskFlag (pass : Pass) (taskFlag : Plug → UInt8) (i : Plug) :
    (pass.scan taskFlag).taskFlag i =
      ((lastFired pass.tm (pass.state.uConfig.plug i).task).map slotMarker).getD (taskFlag i) := by
  rw [Pass.scan, ← marked_fst, scanPass_marked]
  rfl

theorem lastFired_fires {task : Slot → UserPlugTaskConfig} {j : Slot} (last : lastFired tm task = some j) :
    fires tm (task j) = true := by
  simpa using (List.mem_filter.mp (List.mem_of_getLast? last)).2

theorem lastFired_exists {task : Slot → UserPlugTaskConfig} {j : Slot} (fired : fires tm (task j) = true) :
    ∃ k, lastFired tm task = some k := by
  cases last : lastFired tm task with
  | some k => exact ⟨k, rfl⟩
  | none =>
    rw [lastFired, List.getLast?_eq_none_iff] at last
    have member : j ∈ (List.finRange 5).filter fun j => fires tm (task j) :=
      List.mem_filter.mpr ⟨List.mem_finRange j, fired⟩
    rw [last] at member
    cases member

/-- The entry of one plug. -/
def plugEntry (beyond : Plug → Nat → UserPlugTaskConfig) (config : UConfig) (i : Plug) (marker : UInt8) : CJson :=
  .object ((Members.addByte [] (.ofString "on") (config.plug i).on).addItem (.ofString "setting")
    (.object (Members.addItem [] (strTemp2 marker) (echoTask (taskAt beyond config i marker.toNat)))))

/-- No marker is negative, so each plug gets its entry and its marker is taken back. -/
theorem addPlugs (config : UConfig) {plugs : List Plug} (once : plugs.Nodup) (report : Report) :
    plugs.foldl (Report.addPlug beyond config) report =
      { jsonSend := report.jsonSend ++ plugs.map fun i => (plugStr i, plugEntry beyond config i (report.taskFlag i))
        taskFlag := fun i => if i ∈ plugs then noTask else report.taskFlag i
        indices := report.indices ++ plugs.map fun i => (i, (report.taskFlag i).toNat) } := by
  induction plugs generalizing report with
  | nil => simp
  | cons i plugs ih =>
    obtain ⟨fresh, once⟩ := List.nodup_cons.mp once
    have others : ∀ k ∈ plugs, Function.update report.taskFlag i noTask k = report.taskFlag k := by
      intro k member
      exact Function.update_of_ne (fun same : k = i => fresh (same ▸ member)) _ _
    have step : Report.addPlug beyond config report i =
        ⟨report.jsonSend ++ [(plugStr i, plugEntry beyond config i (report.taskFlag i))],
          Function.update report.taskFlag i noTask, report.indices ++ [(i, (report.taskFlag i).toNat)]⟩ := by
      rw [Report.addPlug, if_pos UInt8.zero_le]
      rfl
    rw [List.foldl_cons, step, ih once]
    simp only [Report.mk.injEq, List.map_cons, List.append_assoc, List.singleton_append]
    refine ⟨?_, ?_, ?_⟩
    · rw [List.map_congr_left fun k member => by rw [others k member]]
    · funext k
      by_cases same : k = i
      · simp [same]
      · simp [same]
    · rw [List.map_congr_left fun k member => by rw [others k member]]

theorem build_eq (beyond : Plug → Nat → UserPlugTaskConfig) (scan : Scan) : Report.build beyond scan =
    { jsonSend := (.ofString "mac", .string scan.state.strMac) :: (List.finRange 6).map fun i =>
        (plugStr i, plugEntry beyond scan.state.uConfig i (scan.taskFlag i))
      taskFlag := fun _ => noTask
      indices := (List.finRange 6).map fun i => (i, (scan.taskFlag i).toNat) } := by
  rw [Report.build, addPlugs _ (List.nodup_finRange 6)]
  simp [Report.start, Members.addItem]

/-- `plug_i.setting` in the report. -/
def Report.setting (report : Report) (i : Plug) : Option CJson :=
  ((CJson.object report.jsonSend).getObjectItem (plugStr i)).bind (CJson.getObjectItem · (.ofString "setting"))

theorem plugEntry_setting (config : UConfig) (i : Plug) (marker : UInt8) :
    (plugEntry beyond config i marker).getObjectItem (.ofString "setting") =
      some (.object [(strTemp2 marker, echoTask (taskAt beyond config i marker.toNat))]) := rfl

theorem build_setting (scan : Scan) (i : Plug) : Report.setting (.build beyond scan) i =
    some (.object [(strTemp2 (scan.taskFlag i),
      echoTask (taskAt beyond scan.state.uConfig i (scan.taskFlag i).toNat))]) := by
  rw [Report.setting, build_eq]
  dsimp only
  rw [getObjectItem_skip (mac_plug i),
    plugs_getObjectItem (fun i => plugEntry beyond scan.state.uConfig i (scan.taskFlag i)), Option.bind_some,
    plugEntry_setting]

/-- If the pass sends a report, each `setting` entry is the slot of a task that fired in the pass,
and no index leaves the task array. -/
def NamesFired (beyond : Plug → Nat → UserPlugTaskConfig) (taskFlag : Plug → UInt8) (pass : Pass) : Prop :=
  ∀ report, (pass.scan taskFlag).report beyond = some report →
    (∀ i setting, Report.setting report i = some setting →
      ∃ j, fires pass.tm ((pass.state.uConfig.plug i).task j) = true ∧
        setting = .object [(plugTaskStr j, echoTask (((pass.scan taskFlag).state.uConfig.plug i).task j))]) ∧
      ∀ i j, (i, j) ∈ report.indices → j < 5

theorem slotMarker_text : ∀ j : Slot, strTemp2 (slotMarker j) = plugTaskStr j := by decide

private theorem slotMarker_toNat : ∀ j : Slot, (slotMarker j).toNat = j.val := by decide

theorem taskAt_slot (config : UConfig) (i : Plug) (j : Slot) :
    taskAt beyond config i (slotMarker j).toNat = (config.plug i).task j := by
  rw [slotMarker_toNat, taskAt, dif_pos j.isLt]

/-- The pass sends a report: some due slot is one-shot or differs from the record of its plug. -/
def Sends (pass : Pass) : Prop := ∃ i j, ¬ Quiet pass.tm pass.state i j

theorem sends_iff (pass : Pass) (taskFlag : Plug → UInt8) :
    (pass.scan taskFlag).updateUserConfigFlag = true ↔ Sends pass := by
  have idle := scanPass_idle_iff pass.tm (.start pass.state taskFlag) rfl
  rw [Sends, ← Bool.not_eq_false, Pass.scan, idle]
  simp only [not_forall]
  rfl

theorem namesFired_iff (pass : Pass) (taskFlag : Plug → UInt8) :
    NamesFired beyond taskFlag pass ↔
      (Sends pass → ∀ i, ∃ j, fires pass.tm ((pass.state.uConfig.plug i).task j) = true) := by
  constructor
  · intro names sends i
    have built := names (.build beyond (pass.scan taskFlag)) (if_pos ((sends_iff pass taskFlag).mpr sends))
    obtain ⟨j, fired, -⟩ := built.1 i _ (build_setting (pass.scan taskFlag) i)
    exact ⟨j, fired⟩
  · intro fired report reported
    unfold Scan.report at reported
    split at reported
    next flagged =>
      cases reported
      have every := fired ((sends_iff pass taskFlag).mp flagged)
      have marker (i : Plug) : ∃ j, fires pass.tm ((pass.state.uConfig.plug i).task j) = true ∧
          (pass.scan taskFlag).taskFlag i = slotMarker j := by
        obtain ⟨some, fired⟩ := every i
        obtain ⟨j, last⟩ := lastFired_exists fired
        refine ⟨j, lastFired_fires last, ?_⟩
        rw [pass_taskFlag, last]
        rfl
      constructor
      · intro i setting named
        obtain ⟨j, fired, same⟩ := marker i
        rw [build_setting, same, slotMarker_text, taskAt_slot] at named
        exact ⟨j, fired, (Option.some.inj named).symm⟩
      · intro i j read
        rw [build_eq] at read
        obtain ⟨k, -, same⟩ := List.mem_map.mp read
        obtain ⟨rfl, rfl⟩ := Prod.mk.injEq .. ▸ same
        obtain ⟨j, -, same⟩ := marker k
        rw [same, slotMarker_toNat]
        exact j.isLt
    next => cases reported

/-- From thread start on, the reports name only tasks that fired exactly when every pass that sends one
fires a one-shot task on each of the six plugs. -/
theorem reports_name_fired_iff (beyond : Plug → Nat → UserPlugTaskConfig) (passes : List Pass) :
    Runs.Meets (Pass.step beyond) (NamesFired beyond) initialTaskFlag passes ↔
      ∀ pass ∈ passes, Sends pass → ∀ i, ∃ j, fires pass.tm ((pass.state.uConfig.plug i).task j) = true := by
  constructor
  · intro names pass member
    obtain ⟨first, rest, split⟩ := List.append_of_mem member
    obtain ⟨middle, reached, -⟩ : ∃ middle, Runs.run (Pass.step beyond) initialTaskFlag first = .ok middle ∧ True := by
      apply Runs.completes (fun _ => True) trivial
      intro taskFlag pass member holds
      unfold Pass.step
      split <;> exact ⟨_, rfl, trivial⟩
    exact (namesFired_iff pass middle).mp (Runs.meets_iff.mp names first pass rest middle split reached)
  · intro fired
    apply Runs.Meets.of_events
    intro taskFlag pass member
    exact (namesFired_iff pass taskFlag).mpr (fired pass member)

/-- The first pass after boot, with a one-shot task in one slot and its time come. -/
def firstTask (i : Plug) (j : Slot) : Pass :=
  ⟨gmtime startTime, { exampleBoot with uConfig := exampleBoot.uConfig.setTask i j ⟨16, 0, 0, 1, 1⟩ }⟩

/-- The report names a task for plugs on which nothing fired: the sixth marker starts as slot 0, and
a marker of -1 is 255 here. -/
theorem report_names_idle_plugs :
    ¬ ∀ (beyond : Plug → Nat → UserPlugTaskConfig) (passes : List Pass),
      Runs.Meets (Pass.step beyond) (NamesFired beyond) initialTaskFlag passes := by
  intro assumed
  have names := (assumed (fun _ _ => defaultTask) [firstTask 0 0]).1
  have sends : Sends (firstTask 0 0) := ⟨0, 0, by unfold Quiet; decide⟩
  obtain ⟨j, fired⟩ := (namesFired_iff (firstTask 0 0) initialTaskFlag).mp names sends 5
  revert j
  decide

/-- What it says of the last plug and of the second. -/
example : (Report.build (fun _ _ => defaultTask) ((firstTask 0 0).scan initialTaskFlag)).indices =
    [(0, 0), (1, 255), (2, 255), (3, 255), (4, 255), (5, 0)] := by decide +kernel

end PhicommTC1.Proofs.ReportEntries
