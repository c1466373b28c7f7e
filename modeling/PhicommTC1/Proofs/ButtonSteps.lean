import PhicommTC1.Button
import PhicommTC1.Proofs.DeviceSteps

/-! What one step of the button does to its counter, to the LED and to the relays. -/

namespace PhicommTC1.Proofs.ButtonSteps
open CText PhicommTC1 Button CommandWrites CommandEffect CommandDefined DeviceSteps
variable {button next : Button} {state : State}

/-- The counter after one more tick of a hold. -/
def countUp (keyTime : UInt8) : UInt8 := if keyTime + 1 > 204 then 189 else keyTime + 1

def holdLed (keyTime : UInt8) (state : State) : State :=
  if keyTime = 180 then userLedSet 0 state
  else if keyTime = 190 then userLedSet 1 state
  else if keyTime = 203 then userLedSet 0 state
  else state

theorem deviceReport_refused (state : State) : isAccepted deviceReportCommand state = false := by
  have noName : deviceReportCommand.getObjectItem (.ofString "name") = none := by rfl
  have noMac : deviceReportCommand.getObjectItem (.ofString "mac") = none := by rfl
  simp [isAccepted, noName, noMac]

theorem deviceReport_state {outcome : Outcome}
    (ran : userFunctionCmdReceived (some deviceReportCommand) state = .ok outcome) : outcome.state = state :=
  (refused_state (deviceReport_refused state) ran).1

theorem deviceReport_defined (sound : Sound state) :
    ∃ outcome, userFunctionCmdReceived (some deviceReportCommand) state = .ok outcome := by
  obtain ⟨report, reported⟩ := reportSection_defined deviceReportCommand fun _ => sound.name_defined
  exact ⟨_, refused_served (deviceReport_refused state) reported⟩

theorem holdFeedback_effect {keyTime : UInt8} (shown : holdFeedback keyTime button = .ok next) :
    next = { button with
      state := holdLed keyTime button.state
      smtlkStarts := if keyTime = 203 then button.smtlkStarts + 1 else button.smtlkStarts } := by
  unfold holdFeedback at shown
  unfold holdLed
  split at shown
  next at180 =>
    obtain ⟨outcome, ran, shown⟩ := Runs.bind_ok.mp shown
    cases shown
    rw [deviceReport_state ran, if_pos at180, if_neg (by rw [at180]; decide)]
  next not180 =>
    split at shown
    next at190 =>
      cases shown
      rw [if_neg not180, if_pos at190, if_neg (by rw [at190]; decide)]
    next not190 =>
      split at shown
      next at203 =>
        obtain ⟨outcome, ran, shown⟩ := Runs.bind_ok.mp shown
        cases shown
        rw [deviceReport_state ran, if_neg not180, if_neg not190, if_pos at203, if_pos at203]
      next not203 =>
        cases shown
        rw [if_neg not180, if_neg not190, if_neg not203, if_neg not203]

theorem holdFeedback_defined (sound : Sound button.state) (keyTime : UInt8) :
    ∃ next, holdFeedback keyTime button = .ok next := by
  unfold holdFeedback
  split
  next =>
    obtain ⟨outcome, ran⟩ := deviceReport_defined sound
    exact ⟨_, Runs.bind_ok.mpr ⟨outcome, ran, rfl⟩⟩
  next =>
    split
    next => exact ⟨_, rfl⟩
    next =>
      split
      next =>
        have dark : Sound (userLedSet 0 button.state) := sound.of_same rfl rfl
        obtain ⟨outcome, ran⟩ := deviceReport_defined dark
        exact ⟨_, Runs.bind_ok.mpr ⟨outcome, ran, rfl⟩⟩
      next => exact ⟨_, rfl⟩

/-- A short press at an edge: KEY was held for two to nineteen ticks and is let go. -/
def ShortPress (button : Button) : Prop := button.high = false ∧ 2 ≤ button.keyTime ∧ button.keyTime < 20

theorem edge_step (stepped : button.step .edge = .ok next) :
    ShortPress button ∧ next = { button with
        state := keyShortPress button.state, keyTime := 0, high := true
        shortPresses := button.shortPresses + 1 } ∨
      ¬ ShortPress button ∧ next = { button with keyTime := 0, high := !button.high } := by
  cases stepped
  unfold ShortPress keyRisingIrqHandler
  dsimp only
  by_cases early : button.keyTime < 2
  · refine .inr ⟨?_, by rw [if_pos early]⟩
    intro short
    exact absurd short.2.1 (UInt8.not_le.mpr early)
  · rw [if_neg early]
    by_cases brief : button.keyTime < 20
    · rw [if_pos brief]
      cases level : button.high with
      | true => exact .inr ⟨by simp, by simp⟩
      | false => exact .inl ⟨⟨rfl, UInt8.not_lt.mp early, brief⟩, by simp⟩
    · rw [if_neg brief]
      exact .inr ⟨fun short => brief short.2.2, rfl⟩

theorem idle_tick (idle : button.high = true) (stepped : button.step .tick = .ok next) :
    next = { button with state := if relayOut button.state then button.state else userLedSet 0 button.state } := by
  simp only [Button.step, keyTimeoutHandler, idle, if_true] at stepped
  rw [idle]
  exact (Except.ok.inj stepped).symm

theorem held_tick (held : button.high = false) (stepped : button.step .tick = .ok next) :
    next = { button with
      state := holdLed (button.keyTime + 1) button.state
      keyTime := countUp button.keyTime
      smtlkStarts := if button.keyTime + 1 = 203 then button.smtlkStarts + 1 else button.smtlkStarts } := by
  simp only [Button.step, keyTimeoutHandler, held, Bool.false_eq_true, if_false] at stepped
  obtain ⟨shown, feedback, stepped⟩ := Runs.bind_ok.mp stepped
  cases stepped
  rw [holdFeedback_effect feedback]
  rfl

theorem device_step {event : Event} {notKey : event ≠ .keyPress}
    (stepped : button.step (.device event notKey) = .ok next) :
    ∃ state, PhicommTC1.step button.state event = .ok state ∧ next = { button with state := state } := by
  obtain ⟨state, ran, stepped⟩ := Runs.bind_ok.mp stepped
  exact ⟨state, ran, (Except.ok.inj stepped).symm⟩

/-- Edges and ticks have a defined result wherever the strings of the state have an end. -/
theorem contact_defined {event : ButtonEvent} (sound : Sound button.state) (contact : event = .edge ∨ event = .tick) :
    ∃ next, button.step event = .ok next ∧ Sound next.state := by
  rcases contact with rfl | rfl
  · refine ⟨_, rfl, ?_⟩
    rcases edge_step (rfl : button.step .edge = .ok _) with ⟨-, same⟩ | ⟨-, same⟩
    · rw [same]; exact soundStores.keyShortPress sound
    · rw [same]; exact sound
  · have led (x : UInt8) : Sound (userLedSet x button.state) := sound.of_same rfl rfl
    cases level : button.high with
    | true =>
      refine ⟨_, if_pos level, ?_⟩
      dsimp only
      split
      · exact sound
      · exact led 0
    | false =>
      obtain ⟨shown, feedback⟩ := holdFeedback_defined sound (button.keyTime + 1)
      have stepped : button.step .tick = .ok _ :=
        (if_neg (by simp [level])).trans (Runs.bind_ok.mpr ⟨shown, feedback, rfl⟩)
      refine ⟨_, stepped, ?_⟩
      rw [held_tick level stepped]
      dsimp only [holdLed]
      split_ifs
      · exact led 0
      · exact led 1
      · exact led 0
      · exact sound

end PhicommTC1.Proofs.ButtonSteps
