import PhicommTC1.Proofs.CommandWrites
import PhicommTC1.Proofs.SettingMemory

/-! What a command does to the settings. Each write of the handler sets the register it is
about and leaves every other one alone, so an accepted command delivers its requests at once. -/

namespace PhicommTC1.Proofs.CommandEffect
open CText LastWriter PhicommTC1 CommandWrites SettingMemory
variable {root : CJson} {state next : State}

/-- The step hands the listed registers what the message asks for and leaves the rest as it was. -/
def Delivers (root : CJson) (fields : List Register) (state next : State) : Prop :=
  next.registers = fields.foldl (assign (Request.printed root)) state.registers ∧ next.kept = state.kept

namespace Delivers

theorem refl (state : State) : Delivers root [] state state := ⟨rfl, rfl⟩

theorem trans {first second : List Register} {middle : State} (before : Delivers root first state middle)
    (after : Delivers root second middle next) : Delivers root (first ++ second) state next := by
  refine ⟨?_, after.2.trans before.2⟩
  rw [List.foldl_append, ← before.1]
  exact after.1

theorem asked {field : Register} (value : field.Value) (asked : Request.printed root field = some value)
    (updated : next.registers = Function.update state.registers field value) (kept : next.kept = state.kept) :
    Delivers root [field] state next := by
  refine ⟨?_, kept⟩
  rw [List.foldl_cons, List.foldl_nil, assign_some asked, updated]

theorem unasked {field : Register} (unasked : Request.printed root field = none) :
    Delivers root [field] state state := by
  refine ⟨?_, rfl⟩
  rw [List.foldl_cons, List.foldl_nil, assign_none unasked]

end Delivers

theorem userRelaySet_registers (x : Plug) (y : UInt8) :
    (userRelaySet x.val y state).registers = Function.update state.registers (.switch x) (Switch.driven y) := by
  refine Function.eq_update_iff.mpr ⟨userRelaySet_switch x y state, ?_⟩
  intro register different
  cases register with
  | switch z => exact userRelaySet_switch_other (fun same => different (congrArg _ same)) y state
  | task z slot => by_cases same : z = x <;> simp [State.registers, UConfig.setOn, same]
  | text field =>
    cases field with
    | plugName z => by_cases same : z = x <;> simp [State.registers, TextField.array, UConfig.setOn, same]
    | _ => simp [State.registers, TextField.array, UConfig.setOn]
  | deviceid => simp [State.registers]
  | mqttPort => simp [State.registers, UConfig.setOn]

theorem userRelaySet_kept (x : Plug) (y : UInt8) : (userRelaySet x.val y state).kept = state.kept := by
  have copies : (fun z => { (state.userDefaultconfig.setOn x y).plug z with on := 0 }) =
      fun z => { state.userDefaultconfig.plug z with on := 0 } := by
    funext z
    by_cases same : z = x <;> simp [UConfig.setOn, same]
  simp only [State.kept, userRelaySet_strMac, userRelaySet_strIp, userRelaySet_uConfig, userRelaySet_default, copies]
  rfl

theorem setTask_registers (x : Plug) (y : Slot) (task : UserPlugTaskConfig) :
    { state with uConfig := state.uConfig.setTask x y task }.registers =
      Function.update state.registers (.task x y) task := by
  refine Function.eq_update_iff.mpr ⟨by simp [State.registers, UConfig.setTask], ?_⟩
  intro register different
  cases register with
  | switch z => by_cases same : z = x <;> simp [State.registers, State.switch, UConfig.setTask, same]
  | task z slot =>
    by_cases same : z = x
    · have apart : slot ≠ y := fun equal => different (by rw [same, equal])
      simp [State.registers, UConfig.setTask, same, apart]
    · simp [State.registers, UConfig.setTask, same]
  | text field =>
    cases field with
    | plugName z => by_cases same : z = x <;> simp [State.registers, TextField.array, UConfig.setTask, same]
    | _ => rfl
  | _ => rfl

theorem setArray_registers (field : TextField) (value : Setting) :
    { state with uConfig := field.setArray state.uConfig value }.registers =
      Function.update state.registers (.text field) value.text := by
  apply Function.eq_update_iff.mpr
  constructor
  · exact congrArg CharArray.text (array_setArray field state.uConfig value)
  · intro register different
    cases field with
    | plugName x =>
      cases register with
      | switch z => by_cases same : z = x <;> simp [State.registers, State.switch, TextField.setArray, same]
      | task z slot => by_cases same : z = x <;> simp [State.registers, TextField.setArray, same]
      | text other =>
        cases other with
        | plugName z =>
          have apart : z ≠ x := fun equal => different (by rw [equal])
          simp [State.registers, TextField.array, TextField.setArray, apart]
        | _ => rfl
      | _ => rfl
    | _ =>
      cases register with
      | text other => cases other <;> first | rfl | exact absurd rfl different
      | _ => rfl

theorem printed_none {register : Register} (silent : Request.value root register = none) :
    Request.printed root register = none := by
  cases register with
  | text field => exact congrArg (·.bind CText.sprintf) silent
  | deviceid => exact congrArg (·.bind CText.sprintf) silent
  | _ => exact silent

theorem sprintfField_delivers {field : TextField} {format : CStr} (fits : Request.Fits root)
    (asked : Request.text root field = some format) (stored : sprintfField field format state = .ok next) :
    Delivers root [.text field] state next := by
  obtain ⟨config, written, stored⟩ := Runs.bind_ok.mp stored
  cases stored
  cases printed : CText.sprintf format with
  | none => simp only [TextField.sprintf, printed] at written; cases written
  | some text =>
    have short := fits field format text asked printed
    rw [sprintf_fits field state.uConfig printed short] at written
    cases written
    refine .asked text ?_ ?_ ?_
    · simp only [Request.printed, asked, Option.bind_some, printed]
    · rw [setArray_registers, CharArray.text_overwrite _ _ short]
    · cases field <;> rfl

theorem sprintfDeviceid_delivers {format : CStr} (asked : Request.deviceid root = some format)
    (stored : sprintfDeviceid format state = .ok next) : Delivers root [.deviceid] state next := by
  obtain ⟨text, printed, short, rfl⟩ := sprintfDeviceid_cases stored
  refine .asked text ?_ ?_ rfl
  · simp only [Request.printed, asked, Option.bind_some, printed]
  · refine Function.eq_update_iff.mpr ⟨CharArray.text_overwrite _ _ short, ?_⟩
    intro register different
    cases register <;> first | rfl | exact absurd rfl different

theorem write_delivers {register : Register} (fits : Request.Fits root) (write : Write root state register next) :
    Delivers root [register] state next := by
  cases write with
  | unasked silent => exact .unasked (printed_none silent)
  | @relay x value asked =>
    exact .asked _ (congrArg (Option.map Switch.driven) asked) (userRelaySet_registers x value)
      (userRelaySet_kept x value)
  | @task x y task asked => exact .asked _ asked (setTask_registers x y task) rfl
  | text asked stored => exact sprintfField_delivers fits asked stored
  | deviceid asked stored => exact sprintfDeviceid_delivers asked stored
  | mqttPort asked =>
    refine .asked _ asked (Function.eq_update_iff.mpr ⟨rfl, ?_⟩) rfl
    intro register different
    cases register <;> first | rfl | exact absurd rfl different

theorem writes_delivers {registers : List Register} (fits : Request.Fits root)
    (writes : Writes root registers state next) : Delivers root registers state next := by
  induction writes with
  | nil => exact .refl _
  | cons write _ ih => exact (write_delivers fits write).trans ih

/-- Once every register has had its turn the whole message is delivered. -/
theorem writes_registers (fits : Request.Fits root) (writes : Writes root allRegisters state next) :
    next.registers = deliver Request.printed state.registers root ∧ next.kept = state.kept := by
  obtain ⟨registers, kept⟩ := writes_delivers fits writes
  exact ⟨registers.trans (foldl_assign_complete mem_allRegisters _), kept⟩

/-- A command that runs gives every register what it asks for and leaves the others as they were. -/
theorem runCommand_registers {reply : CJson} (fits : Request.Fits root)
    (ran : runCommand root state = .ok (next, reply)) :
    next.registers = deliver Request.printed state.registers root ∧ next.kept = state.kept :=
  writes_registers fits (runCommand_writes ran)

end PhicommTC1.Proofs.CommandEffect
