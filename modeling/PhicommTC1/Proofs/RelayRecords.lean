import PhicommTC1.Proofs.DeviceSteps

/-! The relay records, their copies and the pins over whole runs of the firmware. -/

namespace PhicommTC1.Proofs.RelayRecords
open CText PhicommTC1 ScanPass DeviceSteps
variable {state start last : State} {events : List Event}

theorem restored_copies (start : State) (i : Plug) :
    ((appRestoreDefault start).switch i).copy = ((appRestoreDefault start).switch i).record := rfl

theorem copies_equal (fits : ∀ event ∈ events, event.Fits)
    (reached : Runs.run step (appRestoreDefault start) events = .ok last) (i : Plug) :
    (last.switch i).copy = (last.switch i).record :=
  run_switch (fun switch => switch.copy = switch.record) (fun _ => rfl) (restored_copies start) fits reached i

theorem relayOut_of_copies (copies : ∀ i, (state.switch i).copy = (state.switch i).record) :
    relayOut state = true ↔ ∃ i, (state.switch i).record ≠ 0 := by
  rw [relayOut_iff]
  simp only [copies, or_self]

theorem relayOut_keyShortPress (state : State) : relayOut (keyShortPress state) = !relayOut state := by
  cases on : relayOut state with
  | false =>
    refine (relayOut_iff _).mpr ⟨0, ?_⟩
    simp [keyShortPress_switch, on, Switch.driven]
  | true =>
    apply Bool.eq_false_iff.mpr
    intro still
    obtain ⟨i, nonzero⟩ := (relayOut_iff _).mp still
    simp [keyShortPress_switch, on, Switch.driven] at nonzero

theorem keyShortPress_thrice (state : State) (i : Plug) :
    (keyShortPress (keyShortPress (keyShortPress state))).switch i = (keyShortPress state).switch i := by
  simp only [keyShortPress_switch, relayOut_keyShortPress, Bool.not_not]

/-- The two copies of the records never drift, and the button acts on the true state. -/
theorem button_acts_on_records (fits : ∀ event ∈ events, event.Fits)
    (reached : Runs.run step (appRestoreDefault start) events = .ok last) :
    (∀ i, (last.userDefaultconfig.plug i).on = (last.uConfig.plug i).on) ∧
      (relayOut last = true ↔ ∃ i, (last.uConfig.plug i).on ≠ 0) ∧
      ((∃ i, (last.uConfig.plug i).on ≠ 0) → ∀ i, (keyShortPress last).switch i = .driven 0) ∧
      ((∀ i, (last.uConfig.plug i).on = 0) → ∀ i, (keyShortPress last).switch i = .driven 1) ∧
      ∀ i, (keyShortPress (keyShortPress (keyShortPress last))).switch i = (keyShortPress last).switch i := by
  have copies := copies_equal fits reached
  have shown : relayOut last = true ↔ ∃ i, (last.uConfig.plug i).on ≠ 0 := relayOut_of_copies copies
  refine ⟨copies, shown, ?_, ?_, keyShortPress_thrice last⟩
  · intro on i
    rw [keyShortPress_switch, shown.mpr on]
    rfl
  · intro off i
    have dark : relayOut last = false := by
      apply Bool.eq_false_iff.mpr
      intro lit
      obtain ⟨i, nonzero⟩ := shown.mp lit
      exact nonzero (off i)
    rw [keyShortPress_switch, dark]
    rfl

theorem exampleName_fits {name : CStr} (short : name.length < 32) :
    (Event.command (some (exampleName name))).Fits := by
  intro field format stored asked printed
  have same : format = name := by
    cases field with
    | plugName x => match x with
      | 0 => exact (Option.some.inj asked).symm
      | 1 | 2 | 3 | 4 | 5 => cases asked
    | _ => cases asked
  subst same
  exact Nat.lt_of_le_of_lt (sprintf_length printed).1 short

/-- A plug is named and the button pressed. -/
theorem button_acts_on_records_once :
    ∃ last, Runs.run step exampleBoot [.command (some (exampleName (.ofString "Lamp"))), .keyPress] = .ok last ∧
      (∀ i, (last.userDefaultconfig.plug i).on = (last.uConfig.plug i).on) ∧
      (relayOut last = true ↔ ∃ i, (last.uConfig.plug i).on ≠ 0) ∧
      ((∃ i, (last.uConfig.plug i).on ≠ 0) → ∀ i, (keyShortPress last).switch i = .driven 0) ∧
      ((∀ i, (last.uConfig.plug i).on = 0) → ∀ i, (keyShortPress last).switch i = .driven 1) ∧
      ∀ i, (keyShortPress (keyShortPress (keyShortPress last))).switch i = (keyShortPress last).switch i := by
  have fits : ∀ event ∈ [Event.command (some (exampleName (.ofString "Lamp"))), .keyPress], event.Fits := by
    intro event member
    rcases List.mem_cons.mp member with rfl | member
    · exact exampleName_fits (by decide)
    · rw [List.mem_singleton.mp member]
      exact trivial
  obtain ⟨last, reached, -⟩ : ∃ last,
      Runs.run step exampleBoot [.command (some (exampleName (.ofString "Lamp"))), .keyPress] = .ok last ∧
      (last.uConfig.plug 0).on = 1 := Runs.map_ok.mp (by decide +kernel)
  exact ⟨last, reached, button_acts_on_records fits reached⟩

def RelaysAgree (state : State) : Prop := ∀ i, state.relay i = true ↔ (state.uConfig.plug i).on ≠ 0

/-- Every record agrees with its copy and with what `user_relay_set` made of the pin. -/
def Settled (state : State) : Prop := ∀ i, state.switch i = .driven (state.switch i).record

/-- The event leaves no relay record other than 0 and 1: a request asks for 0 or 1 wherever it
switches a plug, and the slot a scan pass treats last on a plug has action 0 or 1. -/
def Binary (state : State) (event : Event) : Prop :=
  (∀ root i y, event.request state = some root → Request.on root i = some y → y ≤ 1) ∧
    ∀ tm i action, event = .scan tm → lastAction tm (state.uConfig.plug i).task = some action → action ≤ 1

/-- Page requests and the button only ever switch to 0 and 1. -/
theorem switchPage_binary (state : State) (url : CStr) : Binary state (.switchPage url) := by
  constructor
  · intro root i y asked switched
    obtain ⟨slot, found, rfl⟩ := Option.map_eq_some_iff.mp asked
    rcases switchRoot_asks found i with ⟨-, asks⟩ | ⟨-, asks⟩
    · cases asks.symm.trans switched; decide
    · cases asks.symm.trans switched; decide
  · intro tm i action scan
    cases scan

theorem keyPress_binary (state : State) : Binary state .keyPress := by
  constructor
  · intro root i y asked
    cases asked
  · intro tm i action scan
    cases scan

private theorem pin_iff_record (y : UInt8) : ((y == 1) = true ↔ y ≠ 0) ↔ y ≤ 1 := by
  rw [beq_iff_eq]
  constructor
  · intro agree
    by_cases off : y = 0
    · rw [off]; decide
    · rw [agree.mpr off]; decide
  · intro small
    have bound : y.toNat ≤ 1 := small
    rcases Nat.le_one_iff_eq_zero_or_eq_one.mp bound with zero | one
    · have off : y = 0 := UInt8.toNat_inj.mp zero
      rw [off]; decide
    · have on : y = 1 := UInt8.toNat_inj.mp one
      rw [on]; decide

theorem relaysAgree_iff (settled : Settled state) : RelaysAgree state ↔ ∀ i, (state.switch i).record ≤ 1 := by
  apply forall_congr'
  intro i
  have pin : state.relay i = ((state.switch i).record == 1) := congrArg Switch.pin (settled i)
  rw [pin]
  exact pin_iff_record _

theorem step_agrees_iff {event : Event} {next : State} (settled : Settled state) (agree : RelaysAgree state)
    (fits : event.Fits) (stepped : step state event = .ok next) : RelaysAgree next ↔ Binary state event := by
  have settledNext : Settled next :=
    step_switch (fun switch => switch = .driven switch.record) (fun _ => rfl) settled fits stepped
  rw [relaysAgree_iff settled] at agree
  rw [relaysAgree_iff settledNext]
  cases step_effect fits stepped with
  | @request root asked registers kept =>
    constructor
    · intro small
      constructor
      · intro other i y same switched
        cases asked.symm.trans same
        have bound := small i
        rw [request_switch registers, switched] at bound
        exact bound
      · intro tm i action scan
        subst scan
        cases asked
    · intro binary i
      rw [request_switch registers]
      cases switched : Request.on root i with
      | none => exact agree i
      | some y => exact binary.1 root i y asked switched
  | idle unasked message same =>
    subst same
    refine ⟨?_, fun _ => agree⟩
    intro small
    constructor
    · intro root i y asked
      rw [unasked] at asked
      cases asked
    · intro tm i action scan
      exact absurd scan (message.2 tm)
  | keyPress event_eq same =>
    subst event_eq same
    constructor
    · intro small
      exact keyPress_binary state
    · intro binary i
      rw [keyShortPress_switch]
      cases relayOut state <;> decide
  | @scan tm event_eq same =>
    subst event_eq
    have record (i : Plug) : (next.switch i).record = _ := same ▸ scanTasks_record tm state i
    constructor
    · intro small
      constructor
      · intro root i y asked
        cases asked
      · intro other i action scan treated
        cases scan
        have bound := small i
        rw [record, treated] at bound
        exact bound
    · intro binary i
      rw [record]
      cases treated : lastAction tm (state.uConfig.plug i).task with
      | none => exact agree i
      | some action => exact binary.2 tm i action rfl treated

/-- In a run from the default settings with all pins low, pins and records agree in every state
exactly when no step leaves a record other than 0 and 1. -/
theorem relays_agree_iff (low : ∀ i, start.relay i = false) (fits : ∀ event ∈ events, event.Fits)
    (completed : Runs.run step (appRestoreDefault start) events = .ok last) :
    Runs.Along step RelaysAgree (appRestoreDefault start) events ↔
      Runs.Meets step Binary (appRestoreDefault start) events := by
  have settled : Settled (appRestoreDefault start) := by
    intro i
    simp [appRestoreDefault, State.switch, Switch.driven, low]
  have agree : RelaysAgree (appRestoreDefault start) := by
    intro i
    simp [appRestoreDefault, low]
  apply Runs.along_iff_meets Settled completed settled agree
  · intro current event next valid holds member stepped
    exact step_switch (fun switch => switch = .driven switch.record) (fun _ => rfl) valid (fits event member) stepped
  · intro current event next valid holds member stepped
    exact step_agrees_iff valid holds (fits event member) stepped

def onTwo : CJson :=
  .object [(.ofString "mac", .string exampleMac), (.ofString "plug_0", .object [(.ofString "on", .number 2)])]

theorem onTwo_text (field : TextField) : Request.text onTwo field = none := by
  cases field with
  | plugName x => revert x; decide
  | _ => decide

theorem onTwo_fits : ∀ event ∈ [Event.command (some onTwo)], event.Fits := by
  intro event member
  rw [List.mem_singleton.mp member]
  intro field format stored asked
  rw [onTwo_text] at asked
  cases asked

theorem onTwo_run : ∃ last, Runs.run step exampleBoot [.command (some onTwo)] = .ok last ∧
    ((last.uConfig.plug 0).on, last.relay 0) = (2, false) :=
  Runs.map_ok.mp (by decide +kernel)

theorem relays_agree_iff_onTwo :
    Runs.Along step RelaysAgree exampleBoot [.command (some onTwo)] ↔
      Runs.Meets step Binary exampleBoot [.command (some onTwo)] := by
  obtain ⟨last, completed, -⟩ := onTwo_run
  exact relays_agree_iff (fun _ => rfl) onTwo_fits completed

/-- A switch position of 2 is on for every reader and off for the pin. -/
theorem on_two_leaves_pin_low :
    ¬ ∀ (start last : State) (events : List Event), (∀ i, start.relay i = false) → (∀ event ∈ events, event.Fits) →
      Runs.run step (appRestoreDefault start) events = .ok last → RelaysAgree last := by
  intro assumed
  obtain ⟨last, completed, outcome⟩ := onTwo_run
  obtain ⟨record, pin⟩ := Prod.ext_iff.mp outcome
  have agree := assumed (reset _ _) last _ (fun _ => rfl) onTwo_fits completed 0
  rw [show last.relay 0 = false from pin, show (last.uConfig.plug 0).on = 2 from record] at agree
  exact absurd (agree.mpr (by decide)) (by decide)

end PhicommTC1.Proofs.RelayRecords
