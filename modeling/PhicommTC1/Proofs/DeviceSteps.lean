import PhicommTC1.Device
import PhicommTC1.Proofs.CommandDefined
import PhicommTC1.Proofs.CommandEffect
import PhicommTC1.Proofs.ScanPass

/-! What one step of the firmware does to a relay and to a task slot, whatever the event. -/

namespace PhicommTC1.Proofs.DeviceSteps
open CText LastWriter PhicommTC1 CommandWrites CommandEffect ScanPass
variable {root : CJson} {state next : State}

private theorem plugStr_same : ∀ k i : Plug, sameIgnoringCase (plugStr k).bytes (plugStr i).bytes = decide (k = i) := by
  decide

theorem mac_plug : ∀ i : Plug, sameIgnoringCase (CStr.ofString "mac").bytes (plugStr i).bytes = false := by decide

private theorem find_plug : ∀ i : Plug, (List.finRange 6).find? (fun k => decide (k = i)) = some i := by decide

/-- An object that lists the six plugs has the entry of each. -/
theorem plugs_getObjectItem (entry : Plug → CJson) (i : Plug) :
    (CJson.object ((List.finRange 6).map fun k => (plugStr k, entry k))).getObjectItem (plugStr i) =
      some (entry i) := by
  simp only [CJson.getObjectItem, List.find?_map, Function.comp_def, plugStr_same, find_plug, Option.map_some]

theorem getObjectItem_skip {key name : CStr} (other : sameIgnoringCase key.bytes name.bytes = false) (item : CJson)
    (members : Members) :
    (CJson.object ((key, item) :: members)).getObjectItem name = (CJson.object members).getObjectItem name := by
  simp [CJson.getObjectItem, other]

theorem switchRoot_plug (slot : Plug → CStr) (i : Plug) :
    (switchRoot slot).getObjectItem (plugStr i) =
      some (.object [(.ofString "on", .number (if slot i = one then 1 else 0))]) :=
  plugs_getObjectItem (fun k => .object [(.ofString "on", .number (if slot k = one then 1 else 0))]) i

theorem switchRoot_on (slot : Plug → CStr) (i : Plug) :
    Request.on (switchRoot slot) i = some (if slot i = one then 1 else 0) := by
  simp only [Request.on, switchRoot_plug]
  by_cases high : slot i = one
  · rw [if_pos high, if_pos high]; rfl
  · rw [if_neg high, if_neg high]; rfl

/-- A page request puts every plug where its text says. -/
theorem switchRoot_asks {url : CStr} {slot : Plug → CStr} (found : httpdArgFind url = some slot) (i : Plug) :
    slot i = zero ∧ Request.on (switchRoot slot) i = some 0 ∨
      slot i = one ∧ Request.on (switchRoot slot) i = some 1 := by
  rw [switchRoot_on]
  rcases httpdArgFind_binary found i with low | high
  · rw [low]
    exact .inl ⟨rfl, rfl⟩
  · rw [high]
    exact .inr ⟨rfl, rfl⟩

private theorem plugStr_setting : ∀ k : Plug,
    sameIgnoringCase (plugStr k).bytes (CStr.ofString "setting").bytes = false := by decide

theorem switchRoot_setting (slot : Plug → CStr) (key : CStr) : Request.setting (switchRoot slot) key = none := by
  have absent : (switchRoot slot).getObjectItem (.ofString "setting") = none := by
    simp [switchRoot, CJson.getObjectItem, List.find?_map, Function.comp_def, plugStr_setting]
  simp only [Request.setting, absent]
  rfl

theorem switchRoot_text (slot : Plug → CStr) (field : TextField) : Request.text (switchRoot slot) field = none := by
  cases field with
  | plugName x => simp only [Request.text, Request.plugName, switchRoot_plug]; rfl
  | _ => simp only [Request.text, switchRoot_setting]; rfl

theorem switchRoot_fits (slot : Plug → CStr) : Request.Fits (switchRoot slot) := by
  intro field format stored asked
  rw [switchRoot_text] at asked
  cases asked

theorem switchRoot_writes {slot : Plug → CStr} {send : Members}
    (looped : (List.finRange 6).foldlM (jsonPlugAnalysis (switchRoot slot)) (state, []) = .ok (next, send)) :
    Writes (switchRoot slot) allRegisters state next :=
  (settings_silent (switchRoot_setting slot)).append (plugs_writes looped)

theorem switchPlugs_registers {slot : Plug → CStr} {send : Members}
    (looped : (List.finRange 6).foldlM (jsonPlugAnalysis (switchRoot slot)) (state, []) = .ok (next, send)) :
    next.registers = deliver Request.printed state.registers (switchRoot slot) ∧ next.kept = state.kept :=
  writes_registers (switchRoot_fits slot) (switchRoot_writes looped)

inductive Effect (state : State) (event : Event) (next : State) : Prop where
  | request {root : CJson} (asked : event.request state = some root)
      (registers : next.registers = deliver Request.printed state.registers root) (kept : next.kept = state.kept)
  | idle (unasked : event.request state = none) (message : event ≠ .keyPress ∧ ∀ tm, event ≠ .scan tm)
      (same : next = state)
  | keyPress (event_eq : event = .keyPress) (same : next = keyShortPress state)
  | scan {tm : Tm} (event_eq : event = .scan tm) (same : next = scanTasks tm state)

theorem step_effect {event : Event} (fits : event.Fits) (stepped : step state event = .ok next) :
    Effect state event next := by
  cases StoreRules.step_cases stepped with
  | command accepted commanded =>
    obtain ⟨registers, kept⟩ := runCommand_registers fits commanded
    exact .request (by simp [Event.request, accepted]) registers kept
  | switchPage found looped =>
    obtain ⟨registers, kept⟩ := switchPlugs_registers looped
    exact .request (by simp [Event.request, found]) registers kept
  | ignored unasked message same => exact .idle unasked message same
  | keyPress same => exact .keyPress rfl same
  | scan same => exact .scan rfl same

theorem keyShortPress_switch (i : Plug) :
    (keyShortPress state).switch i = .driven (if relayOut state then 0 else 1) := by
  unfold keyShortPress
  split <;> exact userRelaySetAll_switch _ state i

theorem request_switch (registers : next.registers = deliver Request.printed state.registers root) (i : Plug) :
    next.switch i = ((Request.on root i).map Switch.driven).getD (state.switch i) :=
  congrFun registers (.switch i)

/-- What holds of every position `user_relay_set` leaves is kept by every step. -/
theorem step_switch (property : Switch → Prop) (driven : ∀ y, property (.driven y)) {event : Event}
    (holds : ∀ i, property (state.switch i)) (fits : event.Fits) (stepped : step state event = .ok next) :
    ∀ i, property (next.switch i) := by
  intro i
  cases step_effect fits stepped with
  | request asked registers kept =>
    rw [request_switch registers]
    cases Request.on _ i with
    | none => exact holds i
    | some y => exact driven y
  | idle unasked message same => rw [same]; exact holds i
  | keyPress event_eq same => rw [same, keyShortPress_switch]; exact driven _
  | scan event_eq same => rw [same]; exact scanTasks_switch _ _ i property driven (holds i)

theorem unasked_sets {event : Event} (unasked : event.request state = none) (other : event ≠ .keyPress) (i : Plug) :
    event.sets state i = none := by
  cases event <;> first | exact absurd rfl other | simp [Event.sets, unasked]

/-- Between scan passes a record is what the last event that sets it gave it. -/
theorem step_record {event : Event} (fits : event.Fits) (passive : ∀ tm, event ≠ .scan tm)
    (stepped : step state event = .ok next) (i : Plug) :
    (next.uConfig.plug i).on = (event.sets state i).getD (state.uConfig.plug i).on := by
  rw [← switch_record, ← switch_record]
  cases step_effect fits stepped with
  | @request root asked registers kept =>
    have sets : event.sets state i = Request.on root i := by
      cases event <;> first | cases asked | simp [Event.sets, asked]
    rw [request_switch registers, sets]
    cases Request.on root i <;> rfl
  | idle unasked message same =>
    rw [same, unasked_sets unasked message.1]
    rfl
  | keyPress event_eq same => rw [same, keyShortPress_switch, event_eq]; rfl
  | scan event_eq same => exact absurd event_eq (passive _)

theorem run_switch (property : Switch → Prop) (driven : ∀ y, property (.driven y)) {events : List Event}
    (holds : ∀ i, property (state.switch i)) (fits : ∀ event ∈ events, event.Fits)
    (reached : Runs.run step state events = .ok next) : ∀ i, property (next.switch i) := by
  have conforms : Runs.Meets step (fun _ event => event.Fits) state events :=
    Runs.Meets.of_events fun _ event member => fits event member
  have along : Runs.Along step (fun state => ∀ i, property (state.switch i)) state events := by
    apply conforms.along _ holds
    intro current event next kept fits stepped
    exact step_switch property driven kept fits stepped
  exact along.final reached

open CommandDefined

theorem boot_sound (strMac strIp : CStr) : Sound (boot strMac strIp) where
  config := rfl
  deviceid := by
    change (CharArray.overwrite (fun _ => 0) 0 ((CStr.ofString "TC1").bytes ++ [0]) : Setting) 31 = 0
    decide

theorem run_sound {strMac strIp : CStr} {events : List Event}
    (reached : Runs.run step (boot strMac strIp) events = .ok state) : Sound state :=
  soundStores.run (boot_sound strMac strIp) reached

theorem switchRoot_printable (slot : Plug → CStr) : Printable (switchRoot slot) where
  text field format asked := by cases (switchRoot_text slot field).symm.trans asked
  deviceid format asked := by
    rw [Request.deviceid, switchRoot_setting] at asked
    cases asked
  ota unreadable := by
    obtain ⟨ota, member, -⟩ := unreadable
    cases (switchRoot_setting slot _).symm.trans member

/-- A request that was served once is served in every sound state. -/
theorem request_printable {event : Event} (fits : event.Fits) (stepped : step state event = .ok next)
    (asked : event.request state = some root) : Printable root := by
  cases StoreRules.step_cases stepped with
  | command accepted commanded =>
    simp only [Event.request, Option.filter_some, accepted, if_true, Option.some.injEq] at asked
    subst asked
    exact .of_ran fits commanded
  | switchPage found looped =>
    rw [Event.request, found] at asked
    cases asked
    exact switchRoot_printable _
  | ignored unasked => cases unasked.symm.trans asked
  | keyPress | scan => cases asked

theorem step_defined {event : Event} (sound : Sound state)
    (printable : ∀ root, event.request state = some root → Printable root) : ∃ next, step state event = .ok next := by
  cases event with
  | command pJsonRoot =>
    cases pJsonRoot with
    | none => exact ⟨state, rfl⟩
    | some root =>
      by_cases accepted : isAccepted root state = true
      · obtain ⟨outcome, ran⟩ := sound.command_served (printable root (by simp [Event.request, accepted]))
        exact ⟨_, Runs.bind_ok.mpr ⟨outcome, ran, rfl⟩⟩
      · obtain ⟨report, reported⟩ := reportSection_defined root fun _ => sound.name_defined
        exact ⟨_, Runs.bind_ok.mpr ⟨_, refused_served (by simpa using accepted) reported, rfl⟩⟩
  | switchPage url =>
    cases found : httpdArgFind url with
    | none => exact ⟨state, by simp only [step, switchCbk, found]; rfl⟩
    | some slot =>
      have servable : Servable (switchRoot slot) (state, ([] : Members)).1 :=
        sound.servable_printable (switchRoot_printable slot)
      obtain ⟨after, looped⟩ := plugs_defined servable
      refine ⟨after.1, Runs.bind_ok.mpr ⟨(after.1, sendBuf slot), ?_, rfl⟩⟩
      simp only [switchCbk, found]
      exact Runs.bind_ok.mpr ⟨after, looped, rfl⟩
  | keyPress | scan => exact ⟨_, rfl⟩

theorem isAccepted_congr {other : State} (same : other.strMac = state.strMac) (message : CJson) :
    isAccepted message other = isAccepted message state := by
  simp only [isAccepted, same]

theorem request_congr {other : State} (mac : other.strMac = state.strMac) (event : Event) :
    event.request other = event.request state := by
  cases event with
  | command pJsonRoot => simp only [Event.request, isAccepted_congr mac]
  | _ => rfl

theorem exampleTask_text (task : UserPlugTaskConfig) (field : TextField) :
    Request.text (exampleTask task) field = none := by
  cases field with
  | plugName x => exact match x with | 0 | 1 | 2 | 3 | 4 | 5 => rfl
  | _ => rfl

theorem exampleTask_fits (task : UserPlugTaskConfig) : Event.Fits (.command (some (exampleTask task))) := by
  intro field format stored asked
  rw [exampleTask_text] at asked
  cases asked

end PhicommTC1.Proofs.DeviceSteps
