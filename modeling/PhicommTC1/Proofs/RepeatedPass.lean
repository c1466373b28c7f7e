import PhicommTC1.Device
import PhicommTC1.Proofs.ScanPass

/-! A second scan pass in the same second. A pass reports whatever it does on one flag, so it is
idle exactly when no slot gives it anything to do. -/

namespace PhicommTC1.Proofs.RepeatedPass
open PhicommTC1 ScanPass
variable {tm : Tm} {scan : Scan} {i : Plug} {j : Slot}

/-- A visit has nothing to do: the slot is not due, or it repeats and the plug is where it should be. -/
def Quiet (tm : Tm) (state : State) (i : Plug) (j : Slot) : Prop :=
  let task := (state.uConfig.plug i).task j
  task.due tm = true → task.repeats ≠ 0 ∧ (state.uConfig.plug i).on = task.action

theorem visit_quiet (quiet : Quiet tm scan.state i j) : scan.visit tm i j = scan := by
  unfold Scan.visit
  dsimp only
  split
  next due =>
    obtain ⟨repeating, same⟩ := quiet due
    simp [Scan.switchTo, repeating, same]
  next => rfl

theorem visit_busy (busy : ¬ Quiet tm scan.state i j) : (scan.visit tm i j).updateUserConfigFlag = true := by
  simp only [Quiet, Classical.not_imp, not_and_or, not_not] at busy
  obtain ⟨due, once | different⟩ := busy
  · simp [Scan.visit, due, once, Scan.expire]
  · simp only [Scan.visit, due, if_true]
    have switched : (scan.switchTo i ((scan.state.uConfig.plug i).task j).action).updateUserConfigFlag = true := by
      simp [Scan.switchTo, different]
    split
    · rfl
    · exact switched

theorem visit_flagged (scan : Scan) (j : Slot) (flagged : scan.updateUserConfigFlag = true) :
    (scan.visit tm i j).updateUserConfigFlag = true := by
  by_cases quiet : Quiet tm scan.state i j
  · rw [visit_quiet quiet]; exact flagged
  · exact visit_busy quiet

theorem visit_reported (scan : Scan) (j : Slot) (changed : scan.visit tm i j ≠ scan) :
    (scan.visit tm i j).updateUserConfigFlag = true :=
  visit_busy fun quiet => changed (visit_quiet quiet)

theorem scanPlug_idle_iff (down : scan.updateUserConfigFlag = false) :
    (scan.scanPlug tm i).updateUserConfigFlag = false ↔ ∀ j, scan.visit tm i j = scan :=
  (IndexedLoop.foldl_idle_iff visit_flagged visit_reported down).trans (by simp)

theorem scanPlug_flagged (scan : Scan) (i : Plug) (flagged : scan.updateUserConfigFlag = true) :
    (scan.scanPlug tm i).updateUserConfigFlag = true :=
  IndexedLoop.foldl_flagged visit_flagged flagged

theorem scanPlug_reported (scan : Scan) (i : Plug) (changed : scan.scanPlug tm i ≠ scan) :
    (scan.scanPlug tm i).updateUserConfigFlag = true := by
  cases flagged : scan.updateUserConfigFlag with
  | true => exact scanPlug_flagged scan i flagged
  | false =>
    by_contra idle
    have fixed := (scanPlug_idle_iff flagged).mp (Bool.eq_false_iff.mpr idle)
    exact changed (IndexedLoop.foldl_fixed fun j _ => fixed j)

theorem scanPass_idle_iff (tm : Tm) (scan : Scan) (down : scan.updateUserConfigFlag = false) :
    (scanPass tm scan).updateUserConfigFlag = false ↔ ∀ i j, Quiet tm scan.state i j := by
  refine (IndexedLoop.foldl_idle_iff scanPlug_flagged scanPlug_reported down).trans ?_
  constructor
  · intro fixed i j
    have still : scan.scanPlug tm i = scan := fixed i (List.mem_finRange i)
    have visited := (scanPlug_idle_iff down).mp (still.symm ▸ down) j
    by_contra busy
    have raised := visit_busy busy
    rw [visited, down] at raised
    cases raised
  · intro quiet i _
    exact IndexedLoop.foldl_fixed fun j _ => visit_quiet (quiet i j)

theorem scanPass_quiet (quiet : ∀ i j, Quiet tm scan.state i j) : scanPass tm scan = scan :=
  IndexedLoop.foldl_fixed fun i _ => IndexedLoop.foldl_fixed fun j _ => visit_quiet (quiet i j)

/-- No call of `user_relay_set`, no report, and no field of `u_config` changed. -/
def Idle (before : State) (after : Scan) : Prop :=
  after.relaySet = [] ∧ after.updateUserConfigFlag = false ∧ after.state.uConfig = before.uConfig

theorem idle_iff (tm : Tm) (state : State) (taskFlag : Plug → UInt8) :
    Idle state (scanPass tm (.start state taskFlag)) ↔ ∀ i j, Quiet tm state i j := by
  have flag := scanPass_idle_iff tm (.start state taskFlag) rfl
  constructor
  · intro idle
    exact flag.mp idle.2.1
  · intro quiet
    rw [Idle, scanPass_quiet quiet]
    exact ⟨rfl, rfl, rfl⟩

theorem scanned_due (task : UserPlugTaskConfig) :
    (scanned tm task).due tm = true ↔ task.due tm = true ∧ task.repeats ≠ 0 := by
  unfold scanned
  split
  next fired =>
    obtain ⟨due, once⟩ := (Bool.and_eq_true _ _).mp fired
    simp [disarmed_not_due, eq_of_beq once]
  next other =>
    refine ⟨fun due => ⟨due, fun once => other ?_⟩, And.left⟩
    rw [due, once]
    rfl

theorem scanned_repeating {task : UserPlugTaskConfig} (repeating : task.repeats ≠ 0) : scanned tm task = task := by
  simp [scanned, repeating]

/-- The pass is made again at the same time, after the report of the first one. -/
def again (tm : Tm) (state : State) (taskFlag : Plug → UInt8) : Scan :=
  let first := scanPass tm (.start state taskFlag)
  scanPass tm (.start first.state first.reported)

/-- A second pass is idle exactly when every due slot that repeats has the action of the last
due slot of its plug. -/
theorem again_idle_iff (tm : Tm) (state : State) (taskFlag : Plug → UInt8) :
    Idle (scanPass tm (.start state taskFlag)).state (again tm state taskFlag) ↔
      ∀ i j k, let task := (state.uConfig.plug i).task
        (task j).due tm = true → (task j).repeats ≠ 0 → lastDue tm task = some k →
          (task j).action = (task k).action := by
  rw [again, idle_iff]
  apply forall_congr'
  intro i
  apply forall_congr'
  intro j
  have tasks := scanPass_task tm (.start state taskFlag) i j
  have record := scanPass_record tm (.start state taskFlag) i
  have started : (Scan.start state taskFlag).state = state := rfl
  rw [started] at tasks record
  rw [switch_record, switch_record] at record
  simp only [Quiet, tasks, scanned_due]
  constructor
  · intro quiet k due repeating final
    have reached := (quiet ⟨due, repeating⟩).2
    rw [scanned_repeating repeating] at reached
    rw [lastAction, final] at record
    exact reached.symm.trans record
  · intro agree still
    obtain ⟨due, repeating⟩ := still
    rw [scanned_repeating repeating]
    refine ⟨repeating, ?_⟩
    cases final : lastDue tm (state.uConfig.plug i).task with
    | none => rw [lastDue_eq_none.mp final j] at due; cases due
    | some k =>
      rw [lastAction, final] at record
      exact record.trans (agree k due repeating final).symm

/-- Two tasks of one plug, both every Monday at 16:00, one on and one off. -/
def opposed (i : Plug) (on off : Slot) : State :=
  { exampleBoot with uConfig :=
    (exampleBoot.uConfig.setTask i on ⟨16, 0, 1, 1, 1⟩).setTask i off ⟨16, 0, 1, 0, 1⟩ }

/-- Opposite actions in one minute make the relay chatter. -/
theorem opposed_chatters : ¬ ∀ (tm : Tm) (state : State) (taskFlag : Plug → UInt8),
    Idle (scanPass tm (.start state taskFlag)).state (again tm state taskFlag) := by
  intro assumed
  have calls : (again (gmtime startTime) (opposed 0 0 1) initialTaskFlag).relaySet = [(0, 1), (0, 0)] := by
    decide +kernel
  have quiet := (assumed (gmtime startTime) (opposed 0 0 1) initialTaskFlag).1
  rw [calls] at quiet
  cases quiet

end PhicommTC1.Proofs.RepeatedPass
