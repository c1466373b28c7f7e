import PhicommTC1.Proofs.DeviceSteps

/-! Tasks that run once fire at most once for each time they were armed, whatever order clock
readings and commands come in. A slot that is armed is the credit for its next firing. -/

namespace PhicommTC1.Proofs.OneShotTasks
open PhicommTC1 LastWriter CommandEffect ScanPass DeviceSteps
variable {state next last start : State} {events : List Event}

def Armed (task : UserPlugTaskConfig) : Prop := task.on ≠ 0 ∧ task.repeats = 0

instance (task : UserPlugTaskConfig) : Decidable (Armed task) := inferInstanceAs (Decidable (_ ∧ _))

section Slot
variable (i : Plug) (j : Slot)

def fires (state : State) : Event → Nat
  | .scan tm =>
    let task := (state.uConfig.plug i).task j
    if task.due tm = true ∧ task.repeats = 0 then 1 else 0
  | _ => 0

/-- One for a request that stores the slot with `on` nonzero and `repeat` zero. -/
def arms (state : State) (event : Event) : Nat :=
  match (event.request state).bind (Request.task · i j) with
  | some task => if Armed task then 1 else 0
  | none => 0

def credit (state : State) : Nat := if Armed ((state.uConfig.plug i).task j) then 1 else 0

end Slot

theorem due_enabled {task : UserPlugTaskConfig} {tm : Tm} (due : task.due tm = true) : task.on ≠ 0 := by
  simp only [UserPlugTaskConfig.due, Bool.and_eq_true, bne_iff_ne] at due
  exact due.1

theorem keyShortPress_task (state : State) (i : Plug) (j : Slot) :
    ((keyShortPress state).uConfig.plug i).task j = (state.uConfig.plug i).task j := by
  have each (y : UInt8) (state : State) (x : Plug) :
      (userRelaySet x.val y state).registers (.task i j) = state.registers (.task i j) := by
    rw [userRelaySet_registers, Function.update_of_ne (by simp)]
  have all (y : UInt8) : (userRelaySetAll y state).registers (.task i j) = state.registers (.task i j) := by
    unfold userRelaySetAll
    exact IndexedLoop.foldl_same (fun state => State.registers state (.task i j)) (each y)
  unfold keyShortPress
  split
  · exact all 0
  · exact all 1

/-- A firing uses up the credit of the slot, and only a request that arms it gives new credit. -/
theorem step_balance (i : Plug) (j : Slot) {event : Event} (fits : event.Fits) (stepped : step state event = .ok next) :
    fires i j state event + credit i j next ≤ arms i j state event + credit i j state := by
  cases step_effect fits stepped with
  | @request root asked registers kept =>
    have quiet : fires i j state event = 0 := by cases event <;> first | rfl | cases asked
    have stored : (next.uConfig.plug i).task j = (Request.task root i j).getD ((state.uConfig.plug i).task j) :=
      congrFun registers (.task i j)
    simp only [quiet, arms, asked, Option.bind_some, credit, stored]
    cases Request.task root i j with
    | none => simp
    | some task => simp
  | idle unasked message same =>
    have quiet : fires i j state event = 0 := by
      cases event <;> first | rfl | exact absurd rfl (message.2 _)
    rw [quiet, same]
    omega
  | keyPress event_eq same =>
    simp only [event_eq, fires, credit, same, keyShortPress_task]
    omega
  | @scan tm event_eq same =>
    have left : (next.uConfig.plug i).task j = scanned tm ((state.uConfig.plug i).task j) := by
      rw [same, scanTasks_task]
    subst event_eq
    simp only [fires, credit, left]
    by_cases fired : ((state.uConfig.plug i).task j).due tm = true ∧ ((state.uConfig.plug i).task j).repeats = 0
    · have armed : Armed ((state.uConfig.plug i).task j) := ⟨due_enabled fired.1, fired.2⟩
      have after : scanned tm ((state.uConfig.plug i).task j) = ((state.uConfig.plug i).task j).disarmed := by
        simp [scanned, fired]
      have disarmed : ¬ Armed ((state.uConfig.plug i).task j).disarmed := fun still => still.1 rfl
      rw [after, if_pos fired, if_pos armed, if_neg disarmed]
      omega
    · have after : scanned tm ((state.uConfig.plug i).task j) = (state.uConfig.plug i).task j := by
        rw [scanned, if_neg (by simpa using fired)]
      rw [after, if_neg fired]
      omega

theorem fires_le_arms (i : Plug) (j : Slot) (fits : ∀ event ∈ events, event.Fits)
    (reached : Runs.run step (appRestoreDefault start) events = .ok last) :
    Runs.total step (fires i j) (appRestoreDefault start) events ≤
      Runs.total step (arms i j) (appRestoreDefault start) events := by
  have conforms : Runs.Meets step (fun _ event => event.Fits) (appRestoreDefault start) events :=
    Runs.Meets.of_events fun _ event member => fits event member
  have disarmed : credit i j (appRestoreDefault start) = 0 := rfl
  have balance := Runs.total_le_total (fires i j) (arms i j) (credit i j)
    (fun current event next fits stepped => step_balance i j fits stepped) conforms reached
  rw [disarmed] at balance
  omega

theorem scanned_fields (tm : Tm) (task : UserPlugTaskConfig) :
    (task.due tm = true → task.repeats = 0 → (scanned tm task).on = 0) ∧
      (task.repeats ≠ 0 → scanned tm task = task) ∧
      (scanned tm task).hour = task.hour ∧ (scanned tm task).minute = task.minute ∧
      (scanned tm task).repeats = task.repeats ∧ (scanned tm task).action = task.action := by
  unfold scanned
  refine ⟨?_, ?_, ?_⟩
  · intro due once
    simp [due, once, UserPlugTaskConfig.disarmed]
  · intro repeating
    simp [repeating]
  · split <;> exact ⟨rfl, rfl, rfl, rfl⟩

/-- Tasks that run once fire at most as often as they were armed, a firing disarms its slot, and
no pass changes a repeating slot or the schedule of any slot. -/
theorem tasks_fire_once_per_arming (fits : ∀ event ∈ events, event.Fits)
    (reached : Runs.run step (appRestoreDefault start) events = .ok last) (i : Plug) (j : Slot) :
    Runs.total step (fires i j) (appRestoreDefault start) events ≤
        Runs.total step (arms i j) (appRestoreDefault start) events ∧
      ∀ tm, let task := (last.uConfig.plug i).task j
        let after := ((scanTasks tm last).uConfig.plug i).task j
        (task.due tm = true → task.repeats = 0 → after.on = 0) ∧ (task.repeats ≠ 0 → after = task) ∧
          after.hour = task.hour ∧ after.minute = task.minute ∧ after.repeats = task.repeats ∧
          after.action = task.action := by
  refine ⟨fires_le_arms i j fits reached, ?_⟩
  intro tm
  dsimp only
  rw [scanTasks_task]
  exact scanned_fields tm _

theorem tasks_fire_once_per_arming_stored :
    ∃ last, Runs.run step exampleBoot [.command (some (exampleTask ⟨8, 10, 0, 1, 1⟩)), .scan ⟨0, 10, 8, 2⟩] = .ok last ∧
      Runs.total step (fires 0 0) exampleBoot
          [.command (some (exampleTask ⟨8, 10, 0, 1, 1⟩)), .scan ⟨0, 10, 8, 2⟩] ≤
        Runs.total step (arms 0 0) exampleBoot
          [.command (some (exampleTask ⟨8, 10, 0, 1, 1⟩)), .scan ⟨0, 10, 8, 2⟩] := by
  obtain ⟨last, reached, -⟩ : ∃ last, Runs.run step exampleBoot
      [.command (some (exampleTask ⟨8, 10, 0, 1, 1⟩)), .scan ⟨0, 10, 8, 2⟩] = .ok last ∧
      ((last.uConfig.plug 0).task 0).on = 0 := Runs.map_ok.mp (by decide +kernel)
  have fits := exampleTask_fits ⟨8, 10, 0, 1, 1⟩
  exact ⟨last, reached, (tasks_fire_once_per_arming (by simpa [Event.Fits] using fits) reached 0 0).1⟩

end PhicommTC1.Proofs.OneShotTasks
