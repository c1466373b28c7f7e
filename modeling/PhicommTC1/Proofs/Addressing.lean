import PhicommTC1.Device
import PhicommTC1.Proofs.CommandDefined
import PhicommTC1.Proofs.CommandEffect

/-! Which messages the handler takes for its own. A `mac` is compared with this device's, a
`name` is not compared with anything. -/

namespace PhicommTC1.Proofs.Addressing
open CText PhicommTC1 CommandWrites CommandEffect CommandDefined SettingMemory
variable {pJsonRoot : Option CJson} {state : State} {outcome : Outcome}

def textMember (pJsonRoot : Option CJson) (key : CStr) : Option CStr :=
  (pJsonRoot.bind (·.getObjectItem key)).bind CJson.valuestring

def Addressed (pJsonRoot : Option CJson) (state : State) : Prop :=
  textMember pJsonRoot (.ofString "name") = some state.deviceid.text ∨
    textMember pJsonRoot (.ofString "mac") = some state.strMac

/-- The call changed no setting, copy, name, pin or LED, and queued no command reply. -/
def Unaffected (state : State) (outcome : Outcome) : Prop := outcome.state = state ∧ outcome.reply = none

theorem isAccepted_iff (root : CJson) : isAccepted root state = true ↔
    (∃ name, textMember (some root) (.ofString "name") = some name) ∨
      textMember (some root) (.ofString "mac") = some state.strMac := by
  simp only [isAccepted, textMember, Bool.or_eq_true, Option.isSome_iff_exists, beq_iff_eq, Option.bind_some]

theorem accepted_replies {root : CJson} (accepted : isAccepted root state = true)
    (ran : userFunctionCmdReceived (some root) state = .ok outcome) : outcome.reply ≠ none := by
  obtain ⟨reply, -, replied⟩ := accepted_ran accepted ran
  rw [replied]
  exact Option.some_ne_none reply

theorem refused_defined {root : CJson} (refused : isAccepted root state = false)
    (named : ∃ text, state.name = .ok text) : ∃ outcome, userFunctionCmdReceived (some root) state = .ok outcome := by
  obtain ⟨report, reported⟩ := reportSection_defined root fun _ => named
  exact ⟨_, refused_served refused reported⟩

theorem foreign_refused {root : CJson} (foreign : ¬ Addressed (some root) state)
    (unnamed : textMember (some root) (.ofString "name") = none) : isAccepted root state = false := by
  apply Bool.eq_false_iff.mpr
  intro accepted
  rcases (isAccepted_iff root).mp accepted with ⟨name, found⟩ | mac
  · rw [unnamed] at found; cases found
  · exact foreign (.inr mac)

/-- A message for another device has no effect exactly when its `name` is missing or no string,
and then the handler returns wherever `deviceid` holds a string. -/
theorem foreign_unaffected_iff (foreign : ¬ Addressed pJsonRoot state) :
    (∀ outcome, userFunctionCmdReceived pJsonRoot state = .ok outcome →
      (Unaffected state outcome ↔ textMember pJsonRoot (.ofString "name") = none)) ∧
    (textMember pJsonRoot (.ofString "name") = none → 0 ∈ List.ofFn state.deviceid →
      ∃ outcome, userFunctionCmdReceived pJsonRoot state = .ok outcome) := by
  cases pJsonRoot with
  | none =>
    constructor
    · intro outcome ran
      cases ran
      exact ⟨fun _ => rfl, fun _ => ⟨rfl, rfl⟩⟩
    · intro _ _
      exact ⟨_, rfl⟩
  | some root =>
    constructor
    · intro outcome ran
      constructor
      · intro unaffected
        apply Option.eq_none_iff_forall_ne_some.mpr
        intro name named
        exact accepted_replies ((isAccepted_iff root).mpr (.inl ⟨name, named⟩)) ran unaffected.2
      · intro unnamed
        exact refused_state (foreign_refused foreign unnamed) ran
    · intro unnamed ended
      exact refused_defined (foreign_refused foreign unnamed) ⟨_, readCStr_ok ended⟩

def otherDevice : CJson :=
  .object [(.ofString "name", .string (.ofString "TC2")), (.ofString "plug_0", .object [(.ofString "on", .number 1)])]

theorem otherDevice_foreign : ¬ Addressed (some otherDevice) exampleBoot := by
  have name : textMember (some otherDevice) (.ofString "name") ≠ some exampleBoot.deviceid.text := by decide
  have mac : textMember (some otherDevice) (.ofString "mac") ≠ some exampleBoot.strMac := by decide
  exact not_or.mpr ⟨name, mac⟩

theorem foreign_unaffected_iff_otherDevice :
    (∀ outcome, userFunctionCmdReceived (some otherDevice) exampleBoot = .ok outcome →
      (Unaffected exampleBoot outcome ↔ textMember (some otherDevice) (.ofString "name") = none)) ∧
    (textMember (some otherDevice) (.ofString "name") = none → 0 ∈ List.ofFn exampleBoot.deviceid →
      ∃ outcome, userFunctionCmdReceived (some otherDevice) exampleBoot = .ok outcome) :=
  foreign_unaffected_iff otherDevice_foreign

/-- A command for a device of another name switches this one's relay. -/
theorem otherDevice_switches :
    ¬ ∀ pJsonRoot state outcome, ¬ Addressed pJsonRoot state →
      userFunctionCmdReceived pJsonRoot state = .ok outcome → Unaffected state outcome := by
  intro assumed
  obtain ⟨outcome, ran, switched⟩ : ∃ outcome, userFunctionCmdReceived (some otherDevice) exampleBoot = .ok outcome ∧
      outcome.state.relay 0 = true := Runs.map_ok.mp (by decide +kernel)
  have unaffected := (assumed (some otherDevice) exampleBoot outcome otherDevice_foreign ran).1
  rw [unaffected] at switched
  cases switched

end PhicommTC1.Proofs.Addressing
