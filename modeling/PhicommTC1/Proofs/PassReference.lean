import PhicommTC1.Proofs.RelayRecords
import PhicommTC1.Proofs.RepeatedPass

/-! A scan pass against its reference meaning, in which every due slot sets its relay whatever the
record says. They agree where record and pin agree, which every run keeps up. -/

namespace PhicommTC1.Proofs.PassReference
open CText PhicommTC1 ScanPass DeviceSteps RelayRecords RepeatedPass
variable {tm : Tm} {scan : Scan} {state start last : State} {events : List Event}

/-- The pass as it comes to the slot. -/
def reach (tm : Tm) (scan : Scan) (i : Plug) (j : Slot) : Scan :=
  ((List.finRange 5).take j.val).foldl (Scan.visit tm i) (((List.finRange 6).take i.val).foldl (Scan.scanPlug tm) scan)

/-- The slot as it is when it is visited. -/
def visited (tm : Tm) (scan : Scan) (i : Plug) (j : Slot) : UserPlugTaskConfig :=
  ((reach tm scan i j).state.uConfig.plug i).task j

/-- The due slots of a plug in increasing order set its relay, each unconditionally. -/
def reference (tm : Tm) (scan : Scan) (i : Plug) : State :=
  (((List.finRange 5).filter fun j => (visited tm scan i j).due tm).map fun j => (visited tm scan i j).action).foldl
    (fun state action => userRelaySet i.val action state) scan.state

/-- The visit of the slot changes the record of its plug. -/
def Rewrites (tm : Tm) (scan : Scan) (i : Plug) (j : Slot) : Prop :=
  (((reach tm scan i j).visit tm i j).state.switch i).record ≠ ((reach tm scan i j).state.switch i).record

theorem take_fresh {n : Nat} (index : Fin n) : index ∉ (List.finRange n).take index.val := by
  intro member
  obtain ⟨position, inside, same⟩ := List.mem_iff_getElem.mp member
  simp only [List.length_take, List.length_finRange, List.getElem_take, List.getElem_finRange] at inside same
  have equal := congrArg Fin.val same
  simp only [Fin.cast_mk] at equal
  omega

theorem reach_view (scan : Scan) (i : Plug) (j : Slot) : view i (reach tm scan i j) =
    ((List.finRange 5).take j.val).foldl (PlugView.visit tm) (view i scan) := by
  have plugs : view i (((List.finRange 6).take i.val).foldl (Scan.scanPlug tm) scan) = view i scan :=
    IndexedLoop.foldl_view_other view (scanPlug_view_other tm) (take_fresh i)
  rw [reach, ← plugs]
  exact (List.foldl_hom (view i) fun scan j => (visit_view tm i scan j).symm).symm

theorem visits_task_other {slots : List Slot} {j : Slot} (absent : j ∉ slots) (start : PlugView) :
    (slots.foldl (PlugView.visit tm) start).task j = start.task j :=
  IndexedLoop.foldl_view_other (fun j view => PlugView.task view j)
    (fun view j other different => by simp [PlugView.visit, different]) absent

theorem visited_eq (scan : Scan) (i : Plug) (j : Slot) : visited tm scan i j = (scan.state.uConfig.plug i).task j := by
  rw [visited, ← view_task, reach_view, visits_task_other (take_fresh j), view_task]

theorem reference_switch (i : Plug) (actions : List UInt8) (state : State) :
    (actions.foldl (fun state action => userRelaySet i.val action state) state).switch i =
      (actions.getLast?.map Switch.driven).getD (state.switch i) := by
  induction actions using List.reverseRecOn with
  | nil => rfl
  | append_singleton actions action ih =>
    rw [List.foldl_append, List.foldl_cons, List.foldl_nil, userRelaySet_switch]
    simp

theorem dueActions (tm : Tm) (scan : Scan) (i : Plug) :
    (((List.finRange 5).filter fun j => (visited tm scan i j).due tm).map fun j =>
      (visited tm scan i j).action).getLast? = lastAction tm (scan.state.uConfig.plug i).task := by
  simp only [visited_eq, List.getLast?_map, lastAction, lastDue]

/-- Where record and pin agree the pass leaves each relay where the reference does. -/
theorem pass_switch (settled : Settled scan.state) (i : Plug) :
    (scanPass tm scan).state.switch i = (reference tm scan i).switch i := by
  have pin : (scanPass tm scan).state.switch i = .driven ((scanPass tm scan).state.switch i).record :=
    scanPass_switch tm (fun switch => switch = .driven switch.record) (fun _ => rfl) (settled i)
  rw [pin, scanPass_record, reference, reference_switch, dueActions]
  cases lastAction tm (scan.state.uConfig.plug i).task with
  | none => exact (settled i).symm
  | some action => rfl

/-- The settings without the relay records and the tasks. -/
def others (config : UConfig) : UConfig :=
  { config with plug := fun i => { config.plug i with on := 0, task := fun _ => defaultTask } }

theorem others_setPlug (config : UConfig) (i : Plug) (plug : UserPlugConfig)
    (name : plug.name = (config.plug i).name) : others (config.setPlug i plug) = others config := by
  have plugs : (fun k => { (config.setPlug i plug).plug k with on := 0, task := fun _ => defaultTask }) =
      fun k => ({ config.plug k with on := 0, task := fun _ => defaultTask } : UserPlugConfig) := by
    funext k
    by_cases same : k = i
    · simp [same, name]
    · simp [same]
  rw [others, plugs]
  rfl

theorem expire_others (scan : Scan) (i : Plug) (j : Slot) :
    others (scan.expire i j).state.uConfig = others scan.state.uConfig := by
  unfold Scan.expire
  apply others_setPlug
  rfl

theorem visit_others (scan : Scan) (i : Plug) (j : Slot) :
    others (scan.visit tm i j).state.uConfig = others scan.state.uConfig := by
  have switched (action : UInt8) : others (scan.switchTo i action).state.uConfig = others scan.state.uConfig := by
    unfold Scan.switchTo
    split
    · rw [userRelaySet_uConfig]
      exact others_setPlug _ _ _ rfl
    · rfl
  unfold Scan.visit
  dsimp only
  split
  · split
    · exact (expire_others _ i j).trans (switched _)
    · exact switched _
  · rfl

theorem pass_others (tm : Tm) (scan : Scan) : others (scanPass tm scan).state.uConfig = others scan.state.uConfig := by
  apply IndexedLoop.foldl_same (fun scan : Scan => others scan.state.uConfig)
  intro scan i
  apply IndexedLoop.foldl_same (fun scan : Scan => others scan.state.uConfig)
  intro scan j
  exact visit_others scan i j

theorem config_eq {after before : UConfig} (same : others after = others before)
    {record : Plug → UInt8} {task : Plug → Slot → UserPlugTaskConfig}
    (records : ∀ i, (after.plug i).on = record i) (tasks : ∀ i j, (after.plug i).task j = task i j) :
    after = { before with plug := fun i => { before.plug i with on := record i, task := task i } } := by
  simp only [others, UConfig.mk.injEq] at same
  obtain ⟨ip, port, user, password, deviceId, version, plugs, padding⟩ := same
  have plug : after.plug = fun i => { before.plug i with on := record i, task := task i } := by
    funext i
    have name : (after.plug i).name = (before.plug i).name := (UserPlugConfig.mk.inj (congrFun plugs i)).1
    exact UserPlugConfig.ext name (records i) (funext (tasks i))
  exact UConfig.ext ip port user password deviceId version plug padding

theorem reach_quiet (quiet : ∀ i j, Quiet tm scan.state i j) (i : Plug) (j : Slot) : reach tm scan i j = scan := by
  have plug (k : Plug) : scan.scanPlug tm k = scan :=
    IndexedLoop.foldl_fixed fun j _ => visit_quiet (quiet k j)
  rw [reach, IndexedLoop.foldl_fixed fun k _ => plug k]
  exact IndexedLoop.foldl_fixed fun j _ => visit_quiet (quiet i j)

theorem reach_succ (scan : Scan) (i : Plug) (n : Nat) (inside : n + 1 < 5) :
    reach tm scan i ⟨n + 1, inside⟩ = (reach tm scan i ⟨n, by omega⟩).visit tm i ⟨n, by omega⟩ := by
  have length : n < (List.finRange 5).length := by
    rw [List.length_finRange]
    omega
  rw [reach, List.take_succ_eq_append_getElem length, List.foldl_append, List.getElem_finRange]
  rfl

theorem reach_record_kept (still : ∀ i j, ¬ Rewrites tm scan i j) (i : Plug) (j : Slot) :
    ((reach tm scan i j).state.switch i).record = (scan.state.switch i).record := by
  obtain ⟨n, inside⟩ := j
  induction n with
  | zero => exact congrArg (fun view => view.switch.record) (reach_view scan i ⟨0, inside⟩)
  | succ n ih =>
    rw [reach_succ]
    exact (not_not.mp (still i ⟨n, by omega⟩)).trans (ih (by omega))

theorem visit_record (scan : Scan) (i : Plug) (j : Slot)
    (due : ((scan.state.uConfig.plug i).task j).due tm = true) :
    ((scan.visit tm i j).state.switch i).record = ((scan.state.uConfig.plug i).task j).action := by
  rw [← view_switch, visit_view, PlugView.visit]
  dsimp only
  split
  next => rfl
  next same =>
    simp only [view_task, due, Bool.true_and, bne_iff_ne, ne_eq, not_not] at same
    exact same

/-- The flag is set exactly when a record was rewritten or a one-shot slot was due. -/
theorem flag_iff (state : State) (taskFlag : Plug → UInt8) :
    (scanPass tm (.start state taskFlag)).updateUserConfigFlag = true ↔
      (∃ i j, Rewrites tm (.start state taskFlag) i j) ∨
        ∃ i j, (visited tm (.start state taskFlag) i j).due tm = true ∧
          (visited tm (.start state taskFlag) i j).repeats = 0 := by
  have idle := scanPass_idle_iff tm (.start state taskFlag) rfl
  constructor
  · intro flagged
    by_contra neither
    obtain ⟨still, repeating⟩ := not_or.mp neither
    simp only [not_exists] at still repeating
    suffices quiet : ∀ i j, Quiet tm state i j by
      rw [idle.mpr quiet] at flagged
      cases flagged
    intro i j due
    have shown : visited tm (.start state taskFlag) i j = (state.uConfig.plug i).task j :=
      visited_eq (.start state taskFlag) i j
    refine ⟨fun once => repeating i j ⟨shown ▸ due, shown ▸ once⟩, ?_⟩
    have kept := reach_record_kept still i j
    have treated := visit_record (reach tm (.start state taskFlag) i j) i j (by rw [← visited, shown]; exact due)
    rw [← visited, shown] at treated
    have same := not_not.mp (still i j)
    rw [treated, kept] at same
    exact same.symm
  · intro some
    by_contra down
    have quiet := idle.mp (Bool.eq_false_iff.mpr down)
    rcases some with ⟨i, j, rewrites⟩ | ⟨i, j, due, once⟩
    · rw [Rewrites, reach_quiet quiet, visit_quiet (quiet i j)] at rewrites
      exact rewrites rfl
    · rw [visited_eq] at due once
      exact (quiet i j due).1 once

/-- What the reference says of a pass. Whether a slot is due is asked of it as it is when visited. -/
structure MeetsReference (tm : Tm) (before after : Scan) : Prop where
  record : ∀ i, (after.state.uConfig.plug i).on = ((reference tm before i).uConfig.plug i).on
  pin : ∀ i, after.state.relay i = (reference tm before i).relay i
  highest : ∀ i j, (visited tm before i j).due tm = true → (∀ k, (visited tm before i k).due tm = true → k ≤ j) →
    (after.state.uConfig.plug i).on = (visited tm before i j).action
  undue : ∀ i, (∀ j, (visited tm before i j).due tm = false) →
    (after.state.uConfig.plug i).on = (before.state.uConfig.plug i).on ∧ after.state.relay i = before.state.relay i
  disarmed : ∀ i j, (visited tm before i j).due tm = true → (visited tm before i j).repeats = 0 →
    ((after.state.uConfig.plug i).task j).on = 0
  others : after.state.uConfig = { before.state.uConfig with
    plug := fun i => { before.state.uConfig.plug i with
      on := (after.state.uConfig.plug i).on
      task := fun j =>
        if (visited tm before i j).due tm = true ∧ (visited tm before i j).repeats = 0 then
          { (before.state.uConfig.plug i).task j with on := 0 }
        else (before.state.uConfig.plug i).task j } }
  flag : after.updateUserConfigFlag = true ↔ (∃ i j, Rewrites tm before i j) ∨
    ∃ i j, (visited tm before i j).due tm = true ∧ (visited tm before i j).repeats = 0

theorem switch_pin (state : State) (i : Plug) : (state.switch i).pin = state.relay i := rfl

theorem scanned_eq (task : UserPlugTaskConfig) :
    scanned tm task = if task.due tm = true ∧ task.repeats = 0 then { task with on := 0 } else task := by
  simp only [scanned, Bool.and_eq_true, beq_iff_eq]
  rfl

theorem pass_meets_reference (settled : Settled state) (tm : Tm) (taskFlag : Plug → UInt8) :
    MeetsReference tm (.start state taskFlag) (scanPass tm (.start state taskFlag)) := by
  have switches (i) : (scanPass tm (.start state taskFlag)).state.switch i =
      (reference tm (.start state taskFlag) i).switch i := pass_switch settled i
  have records := scanPass_record tm (.start state taskFlag)
  have tasks := scanPass_task tm (.start state taskFlag)
  constructor
  case record =>
    intro i
    rw [← switch_record, switches i, switch_record]
  case pin =>
    intro i
    rw [← switch_pin, switches i, switch_pin]
  case highest =>
    intro i j due greatest
    simp only [visited_eq] at due greatest ⊢
    rw [← switch_record, records, lastAction, lastDue_eq_some.mpr ⟨due, greatest⟩]
    rfl
  case undue =>
    intro i idle
    simp only [visited_eq] at idle
    have same : (scanPass tm (.start state taskFlag)).state.switch i = state.switch i := by
      rw [switches i, reference, reference_switch, dueActions, lastAction, lastDue_eq_none.mpr idle]
      rfl
    constructor
    · rw [← switch_record, same, switch_record]
      rfl
    · rw [← switch_pin, same, switch_pin]
      rfl
  case disarmed =>
    intro i j due once
    rw [visited_eq] at due once
    rw [tasks, scanned_eq, if_pos ⟨due, once⟩]
  case others =>
    apply config_eq (pass_others tm (.start state taskFlag)) fun _ => rfl
    intro i j
    rw [tasks, scanned_eq]
    simp only [visited_eq]
  case flag => exact flag_iff state taskFlag

/-- In every reachable state a scan pass has its reference meaning. -/
theorem pass_equals_reference (low : ∀ i, start.relay i = false) (fits : ∀ event ∈ events, event.Fits)
    (reached : Runs.run step (appRestoreDefault start) events = .ok last) (tm : Tm) (taskFlag : Plug → UInt8) :
    MeetsReference tm (.start last taskFlag) (scanPass tm (.start last taskFlag)) := by
  have settled : Settled (appRestoreDefault start) := by
    intro i
    simp [appRestoreDefault, State.switch, Switch.driven, low]
  exact pass_meets_reference (run_switch (fun switch => switch = .driven switch.record) (fun _ => rfl) settled fits
    reached) tm taskFlag

/-- Right after a one-shot task for 16:00 was set, at 16:00. -/
theorem pass_equals_reference_once :
    ∃ last, Runs.run step exampleBoot [.command (some (exampleTask ⟨16, 0, 0, 1, 1⟩))] = .ok last ∧
      MeetsReference (gmtime startTime) (.start last initialTaskFlag)
        (scanPass (gmtime startTime) (.start last initialTaskFlag)) := by
  have fits : ∀ event ∈ [Event.command (some (exampleTask ⟨16, 0, 0, 1, 1⟩))], event.Fits := by
    intro event member
    rw [List.mem_singleton.mp member]
    exact exampleTask_fits _
  obtain ⟨last, reached, -⟩ : ∃ last, Runs.run step exampleBoot [.command (some (exampleTask ⟨16, 0, 0, 1, 1⟩))] =
      .ok last ∧ ((last.uConfig.plug 0).task 0).on = 1 := Runs.map_ok.mp (by decide +kernel)
  exact ⟨last, reached, pass_equals_reference (fun _ => rfl) fits reached _ _⟩

end PhicommTC1.Proofs.PassReference
