import Mathlib.Data.List.FinRange
import PhicommTC1.UserRtc

/-! What a scan pass does. The two loops treat the plugs one by one and the slots of a plug one
after the other, so a pass is understood plug by plug, and the last due slot has the last word. -/

namespace PhicommTC1.Proofs.ScanPass
open PhicommTC1
variable (tm : Tm)

/-- The part of the state that the slots of one plug read and write. -/
@[ext] structure PlugView where
  switch : Switch
  task : Slot → UserPlugTaskConfig

def view (i : Plug) (scan : Scan) : PlugView := ⟨scan.state.switch i, (scan.state.uConfig.plug i).task⟩

theorem view_switch (i : Plug) (scan : Scan) : (view i scan).switch = scan.state.switch i := rfl

theorem switch_record (state : State) (i : Plug) : (state.switch i).record = (state.uConfig.plug i).on := rfl

theorem view_task (i : Plug) (scan : Scan) : (view i scan).task = (scan.state.uConfig.plug i).task := rfl

/-- What a pass leaves of a slot. -/
def scanned (tm : Tm) (task : UserPlugTaskConfig) : UserPlugTaskConfig :=
  if task.due tm && task.repeats == 0 then task.disarmed else task

theorem scanned_cases (task : UserPlugTaskConfig) :
    scanned tm task = task ∨ scanned tm task = task.disarmed := by
  unfold scanned
  split
  · exact .inr rfl
  · exact .inl rfl

theorem disarmed_not_due (task : UserPlugTaskConfig) (tm : Tm) : task.disarmed.due tm = false := by
  simp [UserPlugTaskConfig.due, UserPlugTaskConfig.disarmed]

def PlugView.visit (tm : Tm) (view : PlugView) (j : Slot) : PlugView where
  switch :=
    if (view.task j).due tm && view.switch.record != (view.task j).action then .driven (view.task j).action
    else view.switch
  task := Function.update view.task j (scanned tm (view.task j))

/-- The last slot of a plug that is due, which is the one treated last. -/
def lastDue (tm : Tm) (task : Slot → UserPlugTaskConfig) : Option Slot :=
  ((List.finRange 5).filter fun j => (task j).due tm).getLast?

def lastAction (tm : Tm) (task : Slot → UserPlugTaskConfig) : Option UInt8 :=
  (lastDue tm task).map fun j => (task j).action

theorem lastDue_eq_some {tm : Tm} {task : Slot → UserPlugTaskConfig} {k : Slot} :
    lastDue tm task = some k ↔ (task k).due tm = true ∧ ∀ j, (task j).due tm = true → j ≤ k := by
  have increasing := (List.pairwise_lt_finRange 5).filter fun j => (task j).due tm
  rw [lastDue, IndexedLoop.getLast_iff_greatest increasing]
  simp

theorem lastDue_eq_none {tm : Tm} {task : Slot → UserPlugTaskConfig} :
    lastDue tm task = none ↔ ∀ j, (task j).due tm = false := by
  simp [lastDue]

section Visit
variable (i : Plug) (scan : Scan) (j : Slot)

theorem switchTo_switch (action : UInt8) : (scan.switchTo i action).state.switch i =
    if (scan.state.switch i).record != action then .driven action else scan.state.switch i := by
  unfold Scan.switchTo
  change (if (scan.state.switch i).record != action then _ else scan).state.switch i = _
  split
  · exact userRelaySet_switch i action scan.state
  · rfl

theorem switchTo_switch_other {other : Plug} (different : other ≠ i) (action : UInt8) :
    (scan.switchTo i action).state.switch other = scan.state.switch other := by
  unfold Scan.switchTo
  split
  · exact userRelaySet_switch_other different action scan.state
  · rfl

theorem switchTo_task (other : Plug) (action : UInt8) :
    ((scan.switchTo i action).state.uConfig.plug other).task = (scan.state.uConfig.plug other).task := by
  unfold Scan.switchTo
  split
  · by_cases same : other = i <;> simp [UConfig.setOn, same]
  · rfl

theorem expire_switch (other : Plug) : (scan.expire i j).state.switch other = scan.state.switch other := by
  by_cases same : other = i <;> simp [Scan.expire, State.switch, same]

theorem expire_task_other {other : Plug} (different : other ≠ i) :
    ((scan.expire i j).state.uConfig.plug other).task = (scan.state.uConfig.plug other).task := by
  simp [Scan.expire, different]

theorem visit_view : view i (scan.visit tm i j) = (view i scan).visit tm j := by
  unfold Scan.visit
  by_cases due : ((scan.state.uConfig.plug i).task j).due tm = true
  · have switched := switchTo_switch i scan ((scan.state.uConfig.plug i).task j).action
    have tasks := switchTo_task i scan i ((scan.state.uConfig.plug i).task j).action
    by_cases once : ((scan.state.uConfig.plug i).task j).repeats = 0
    · ext1
      · simp [view, PlugView.visit, due, once, expire_switch, switched]
      · simp [view, PlugView.visit, scanned, due, once, Scan.expire, tasks]
    · ext1
      · simp [view, PlugView.visit, due, once, switched]
      · simp [view, PlugView.visit, scanned, due, once, tasks]
  · simp [view, PlugView.visit, scanned, due]

theorem visit_view_other {other : Plug} (different : other ≠ i) :
    view other (scan.visit tm i j) = view other scan := by
  unfold Scan.visit
  have switched := switchTo_switch_other i scan different ((scan.state.uConfig.plug i).task j).action
  have tasks := switchTo_task i scan other ((scan.state.uConfig.plug i).task j).action
  dsimp only
  split
  · split
    · simp [view, expire_switch, switched, expire_task_other, tasks, different]
    · simp [view, switched, tasks]
  · rfl

end Visit

theorem visits_task (start : PlugView) (j : Slot) :
    ((List.finRange 5).foldl (PlugView.visit tm) start).task j = scanned tm (start.task j) :=
  IndexedLoop.foldl_view (fun j view => PlugView.task view j) (fun _ => scanned tm)
    (fun view j => by simp [PlugView.visit])
    (fun view j other different => by simp [PlugView.visit, different])
    (List.nodup_finRange 5) (List.mem_finRange j)

theorem visits_record {slots : List Slot} (once : slots.Nodup) (start : PlugView) :
    (slots.foldl (PlugView.visit tm) start).switch.record =
      ((slots.filter fun j => (start.task j).due tm).getLast?.map fun j => (start.task j).action).getD
        start.switch.record := by
  induction slots generalizing start with
  | nil => rfl
  | cons j slots ih =>
    obtain ⟨fresh, once⟩ := List.nodup_cons.mp once
    have later : ∀ k ∈ slots, (start.visit tm j).task k = start.task k := by
      intro k member
      have different : k ≠ j := fun same => fresh (same ▸ member)
      simp [PlugView.visit, different]
    have sameDue : (slots.filter fun k => ((start.visit tm j).task k).due tm) =
        slots.filter fun k => (start.task k).due tm :=
      List.filter_congr fun k member => by rw [later k member]
    rw [List.foldl_cons, ih once, sameDue, List.filter_cons]
    cases final : (slots.filter fun k => (start.task k).due tm).getLast? with
    | some k =>
      have member := (List.mem_filter.mp (List.mem_of_getLast? final)).1
      split <;> simp [List.getLast?_cons, final, later k member]
    | none =>
      by_cases due : (start.task j).due tm = true
      · by_cases same : start.switch.record = (start.task j).action <;>
          simp [List.getLast?_cons, final, due, PlugView.visit, same, Switch.driven]
      · simp [final, due, PlugView.visit]

theorem visits_lastAction (start : PlugView) :
    ((List.finRange 5).foldl (PlugView.visit tm) start).switch.record =
      (lastAction tm start.task).getD start.switch.record := by
  rw [visits_record tm (List.nodup_finRange 5), lastAction, lastDue]

theorem visits_switch (property : Switch → Prop) (driven : ∀ y, property (.driven y)) {start : PlugView}
    (holds : property start.switch) {slots : List Slot} :
    property (slots.foldl (PlugView.visit tm) start).switch := by
  refine IndexedLoop.foldl_keeps (fun view => property (PlugView.switch view)) ?_ holds
  intro view j kept
  simp only [PlugView.visit]
  split
  · exact driven _
  · exact kept

theorem scanPlug_view (scan : Scan) (i : Plug) :
    view i (scan.scanPlug tm i) = (List.finRange 5).foldl (PlugView.visit tm) (view i scan) :=
  (List.foldl_hom (view i) fun scan j => (visit_view tm i scan j).symm).symm

theorem scanPlug_view_other (scan : Scan) (i other : Plug) (different : other ≠ i) :
    view other (scan.scanPlug tm i) = view other scan :=
  IndexedLoop.foldl_same (view other) fun scan j => visit_view_other tm i scan j different

theorem scanPass_view (scan : Scan) (i : Plug) :
    view i (scanPass tm scan) = (List.finRange 5).foldl (PlugView.visit tm) (view i scan) :=
  IndexedLoop.foldl_view view (fun _ start => (List.finRange 5).foldl (PlugView.visit tm) start)
    (scanPlug_view tm) (scanPlug_view_other tm) (List.nodup_finRange 6) (List.mem_finRange i)

theorem scanPass_task (scan : Scan) (i : Plug) (j : Slot) :
    ((scanPass tm scan).state.uConfig.plug i).task j = scanned tm ((scan.state.uConfig.plug i).task j) := by
  rw [← view_task, scanPass_view, visits_task, view_task]

/-- The last due slot decides the record of its plug; without one the record stays. -/
theorem scanPass_record (scan : Scan) (i : Plug) :
    ((scanPass tm scan).state.switch i).record =
      (lastAction tm (scan.state.uConfig.plug i).task).getD (scan.state.switch i).record := by
  rw [← view_switch, scanPass_view, visits_lastAction, view_switch, view_task]

theorem scanPass_switch (property : Switch → Prop) (driven : ∀ y, property (.driven y)) {scan : Scan} {i : Plug}
    (holds : property (scan.state.switch i)) : property ((scanPass tm scan).state.switch i) := by
  rw [← view_switch, scanPass_view]
  exact visits_switch tm property driven holds

section State
variable (state : State) (i : Plug) (j : Slot)

theorem scanTasks_task :
    ((scanTasks tm state).uConfig.plug i).task j = scanned tm ((state.uConfig.plug i).task j) := by
  rw [scanTasks_eq, scanPass_task, Scan.start]

theorem scanTasks_record : ((scanTasks tm state).switch i).record =
    (lastAction tm (state.uConfig.plug i).task).getD (state.switch i).record := by
  rw [scanTasks_eq, scanPass_record, Scan.start]

theorem scanTasks_on : ((scanTasks tm state).uConfig.plug i).on =
    (lastAction tm (state.uConfig.plug i).task).getD (state.uConfig.plug i).on := by
  rw [← switch_record, scanTasks_record, switch_record]

theorem scanTasks_switch (property : Switch → Prop) (driven : ∀ y, property (.driven y))
    (holds : property (state.switch i)) : property ((scanTasks tm state).switch i) := by
  rw [scanTasks_eq]
  exact scanPass_switch tm property driven holds

end State

end PhicommTC1.Proofs.ScanPass
