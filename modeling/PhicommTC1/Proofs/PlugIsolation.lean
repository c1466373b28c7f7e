import PhicommTC1.Proofs.RepeatedCommand

/-! Each plug is a machine of its own. It is moved by what the messages say to it, by the decisions of the button
and by the times of the scan passes, and by nothing that is said to another plug or to the device. -/

namespace PhicommTC1.Proofs.PlugIsolation
open CText PhicommTC1 CommandDefined DeviceSteps ScanPass RepeatedCommand
variable {root : CJson} {state next : State} {i : Plug}

/-- One plug: its relay with the two records, its tasks and its name. -/
@[ext] structure Outlet where
  switch : Switch
  task : Slot → UserPlugTaskConfig
  name : CStr

def outlet (i : Plug) (state : State) : Outlet :=
  ⟨state.registers (.switch i), fun j => state.registers (.task i j), state.registers (.text (.plugName i))⟩

/-- What one plug is shown of an event. -/
inductive Input where
  | message (on : Option UInt8) (task : Slot → Option UserPlugTaskConfig) (name : Option CStr)
  | press (on : UInt8)
  | time (tm : Tm)

def Outlet.step (outlet : Outlet) : Input → Outlet
  | .message on task name =>
    ⟨(on.map Switch.driven).getD outlet.switch, fun j => (task j).getD (outlet.task j),
      (name.bind CText.sprintf).getD outlet.name⟩
  | .press on => { outlet with switch := .driven on }
  | .time tm =>
    let after := (List.finRange 5).foldl (PlugView.visit tm) ⟨outlet.switch, outlet.task⟩
    { outlet with switch := after.switch, task := after.task }

/-- The part of a message that is about the plug. -/
def asked (i : Plug) (root : CJson) : Input :=
  .message (Request.on root i) (Request.task root i) (Request.text root (.plugName i))

/-- Of the rest of the device the plug sees no more than whether the button finds a relay on. -/
def shows (i : Plug) (state : State) : Event → Option Input
  | .keyPress => some (.press (if relayOut state then 0 else 1))
  | .scan tm => some (.time tm)
  | event => (event.request state).map (asked i)

theorem keyShortPress_registers (register : Register) (other : ∀ x, register ≠ .switch x) :
    (keyShortPress state).registers register = state.registers register := by
  have all (y : UInt8) : (userRelaySetAll y state).registers register = state.registers register := by
    refine IndexedLoop.foldl_same (fun current : State => current.registers register) fun current x => ?_
    rw [CommandEffect.userRelaySet_registers, Function.update_of_ne (other x)]
  unfold keyShortPress
  split
  · exact all 0
  · exact all 1

theorem scanTasks_view (tm : Tm) : (⟨(scanTasks tm state).switch i, ((scanTasks tm state).uConfig.plug i).task⟩ : PlugView) =
    view i (scanPass tm (.start state initialTaskFlag)) := by
  rw [scanTasks_eq]
  rfl

theorem scanTasks_name (tm : Tm) : ((scanTasks tm state).uConfig.plug i).name = (state.uConfig.plug i).name := by
  have kept : StoreRules.Internal fun current => (current.uConfig.plug i).name = (state.uConfig.plug i).name := by
    constructor
    · intro current x y same
      rw [userRelaySet_uConfig]
      exact (array_setOn (.plugName i) current.uConfig x y).trans same
    · intro current x y task same
      exact (array_setTask (.plugName i) current.uConfig x y task).trans same
  exact kept.scanTasks rfl

/-- What a step makes of a plug, it makes of what it shows it. -/
theorem step_outlet {event : Event} (fits : event.Fits) (stepped : step state event = .ok next) :
    outlet i next = (shows i state event).toList.foldl Outlet.step (outlet i state) := by
  cases step_effect fits stepped with
  | @request root requested registers kept =>
    have shown : shows i state event = some (asked i root) := by
      cases event <;> first | cases requested | simp [shows, requested]
    rw [shown, outlet, registers]
    rfl
  | idle unasked message same =>
    have shown : shows i state event = none := by
      cases event with
      | keyPress => exact absurd rfl message.1
      | scan tm => exact absurd rfl (message.2 tm)
      | _ => simp [shows, unasked]
    rw [shown, same]
    rfl
  | keyPress event_eq same =>
    rw [same, event_eq]
    apply Outlet.ext
    · exact keyShortPress_switch i
    · exact funext fun j => keyShortPress_registers (.task i j) nofun
    · exact keyShortPress_registers (.text (.plugName i)) nofun
  | @scan tm event_eq same =>
    have viewed := scanPass_view tm (.start state initialTaskFlag) i
    rw [← scanTasks_view] at viewed
    rw [same, event_eq]
    apply Outlet.ext
    · exact congrArg PlugView.switch viewed
    · exact congrArg PlugView.task viewed
    · exact congrArg CharArray.text (scanTasks_name tm)

/-- The members of a message that reach the plug: the two that have it accepted, and the plug's own. -/
def concerns (i : Plug) (key : CStr) : Bool :=
  sameIgnoringCase key.bytes (CStr.ofString "mac").bytes || sameIgnoringCase key.bytes (CStr.ofString "name").bytes ||
    sameIgnoringCase key.bytes (plugStr i).bytes

/-- The message without anything it says to others. -/
def forPlug (i : Plug) : CJson → CJson
  | .object members => .object (members.filter fun member => concerns i member.1)
  | other => other

/-- The events of a device to which nobody speaks but to the one plug. -/
def onlyPlug (i : Plug) : Event → Event
  | .command pJsonRoot => .command (pJsonRoot.map (forPlug i))
  | event => event

theorem concerns_congr {name key : CStr} (same : sameIgnoringCase name.bytes key.bytes = true) :
    concerns i name = concerns i key := by
  have each (other : List UInt8) : sameIgnoringCase name.bytes other = sameIgnoringCase key.bytes other := by
    rw [Bool.eq_iff_iff, sameIgnoringCase_iff, sameIgnoringCase_iff, sameIgnoringCase_iff.mp same]
  simp only [concerns, each]

theorem forPlug_getObjectItem (i : Plug) (root : CJson) (key : CStr) :
    (forPlug i root).getObjectItem key = if concerns i key then root.getObjectItem key else none := by
  cases root with
  | object members =>
    have sieved : (fun member : CStr × CJson => concerns i member.1 && sameIgnoringCase member.1.bytes key.bytes) =
        fun member => concerns i key && sameIgnoringCase member.1.bytes key.bytes := by
      funext member
      cases same : sameIgnoringCase member.1.bytes key.bytes with
      | false => simp
      | true => rw [concerns_congr same]
    simp only [forPlug, CJson.getObjectItem, List.find?_filter, Bool.decide_and, Bool.decide_eq_true, sieved]
    cases concerns i key <;> simp
  | _ => simp [forPlug, CJson.getObjectItem]

theorem concerns_own : ∀ i : Plug, concerns i (.ofString "mac") = true ∧ concerns i (.ofString "name") = true ∧
    concerns i (plugStr i) = true ∧ concerns i (.ofString "setting") = false := by
  decide

theorem concerns_other : ∀ i k : Plug, k ≠ i → concerns i (plugStr k) = false := by
  decide

theorem forPlug_accepted (i : Plug) (root : CJson) : isAccepted (forPlug i root) state = isAccepted root state := by
  obtain ⟨mac, name, -, -⟩ := concerns_own i
  simp only [isAccepted, forPlug_getObjectItem, mac, name, if_true]

theorem forPlug_asked (i : Plug) (root : CJson) : asked i (forPlug i root) = asked i root := by
  obtain ⟨-, -, own, -⟩ := concerns_own i
  have task : Request.task (forPlug i root) i = Request.task root i := by
    funext j
    simp only [Request.task, forPlug_getObjectItem, own, if_true]
  simp only [asked, task, Request.on, Request.text, Request.plugName, forPlug_getObjectItem, own, if_true]

theorem forPlug_setting (i : Plug) (root : CJson) (key : CStr) : Request.setting (forPlug i root) key = none := by
  simp only [Request.setting, forPlug_getObjectItem, (concerns_own i).2.2.2]
  rfl

theorem forPlug_text {field : TextField} {format : CStr} (given : Request.text (forPlug i root) field = some format) :
    Request.text root field = some format := by
  cases field with
  | plugName k =>
    by_cases same : k = i
    · subst same
      rw [← given]
      simp only [Request.text, Request.plugName, forPlug_getObjectItem, (concerns_own k).2.2.1, if_true]
    · simp only [Request.text, Request.plugName, forPlug_getObjectItem, concerns_other i k same] at given
      cases given
  | _ =>
    simp only [Request.text, forPlug_setting] at given
    cases given

theorem forPlug_fits (fits : Request.Fits root) : Request.Fits (forPlug i root) :=
  fun field format stored given => fits field format stored (forPlug_text given)

theorem forPlug_printable (printable : Printable root) : Printable (forPlug i root) where
  text field format given := printable.text field format (forPlug_text given)
  deviceid format given := by
    rw [Request.deviceid, forPlug_setting] at given
    cases given
  ota unreadable := by
    obtain ⟨ota, member, -⟩ := unreadable
    cases (forPlug_setting i root _).symm.trans member

theorem shows_onlyPlug (event : Event) : shows i state (onlyPlug i event) = shows i state event := by
  cases event with
  | command pJsonRoot =>
    cases pJsonRoot with
    | none => rfl
    | some root =>
      simp only [shows, onlyPlug, Event.request, Option.map_some, Option.filter_some, forPlug_accepted]
      split
      · exact congrArg some (forPlug_asked i root)
      · rfl
  | _ => rfl

theorem onlyPlug_fits {event : Event} (fits : event.Fits) : (onlyPlug i event).Fits := by
  cases event with
  | command pJsonRoot =>
    cases pJsonRoot with
    | none => trivial
    | some root => exact forPlug_fits fits
  | _ => trivial

theorem onlyPlug_printable {event : Event} (printable : ∀ root, event.request state = some root → Printable root) :
    ∀ root, (onlyPlug i event).request state = some root → Printable root := by
  cases event with
  | command pJsonRoot =>
    cases pJsonRoot with
    | none => exact printable
    | some root =>
      intro other given
      simp only [onlyPlug, Event.request, Option.map_some, Option.filter_some, forPlug_accepted] at given
      split at given
      next accepted =>
        cases given
        exact forPlug_printable (printable root (by simp [Event.request, accepted]))
      next => cases given
  | _ => exact printable

theorem macStores (mac : CStr) : StoreRules.Preserved fun current => current.strMac = mac where
  relay current x y same := (userRelaySet_strMac x y current).trans same
  task _ _ _ _ same := same
  deviceid _ _ _ same stored := by
    obtain ⟨text, -, -, rfl⟩ := CommandWrites.sprintfDeviceid_cases stored
    exact same
  text _ _ _ _ same stored := by
    obtain ⟨config, -, stored⟩ := Runs.bind_ok.mp stored
    cases stored
    exact same
  mqttPort _ _ same := same

theorem shows_congr {other : State} (mac : other.strMac = state.strMac) {event : Event} (unpressed : event ≠ .keyPress) :
    shows i other event = shows i state event := by
  have asked := request_congr mac event
  cases event with
  | keyPress => exact absurd rfl unpressed
  | scan tm => rfl
  | _ => simp only [shows, asked]

/-- A device to which nobody speaks but to the one plug keeps up with the whole one. -/
theorem alone_run {beside last : State} {events : List Event} (sound : Sound state ∧ Sound beside)
    (mac : beside.strMac = state.strMac) (same : outlet i beside = outlet i state)
    (fits : ∀ event ∈ events, event.Fits) (unpressed : .keyPress ∉ events)
    (reached : Runs.run step state events = .ok last) :
    ∃ alone, Runs.run step beside (events.map (onlyPlug i)) = .ok alone ∧ outlet i alone = outlet i last := by
  induction events generalizing state beside with
  | nil =>
    cases reached
    exact ⟨beside, rfl, same⟩
  | cons event events ih =>
    obtain ⟨next, stepped, reached⟩ := Runs.run_cons.mp reached
    have fitting := fits event (by simp)
    obtain ⟨middle, ahead⟩ := step_defined sound.2 (onlyPlug_printable fun root given =>
      request_printable fitting stepped ((request_congr mac event).symm.trans given))
    have shown : shows i beside (onlyPlug i event) = shows i state event :=
      (shows_onlyPlug event).trans (shows_congr mac fun press => unpressed (by simp [press]))
    have agree : outlet i middle = outlet i next := by
      rw [step_outlet (onlyPlug_fits fitting) ahead, step_outlet fitting stepped, shown, same]
    have macs : middle.strMac = next.strMac := by
      rw [(macStores _).step mac ahead, (macStores _).step rfl stepped]
    obtain ⟨alone, ran, final⟩ := ih ⟨soundStores.step sound.1 stepped, soundStores.step sound.2 ahead⟩ macs agree
      (fun other member => fits other (by simp [member])) (fun press => unpressed (by simp [press])) reached
    exact ⟨alone, Runs.run_cons.mpr ⟨middle, ahead, ran⟩, final⟩

/-- Whatever else the device is asked, a plug ends where it ends by itself on what it was shown. Without the button
that is no more than it is told, so it runs as if nobody spoke to anyone else. -/
theorem plug_runs_alone (i : Plug) {events : List Event} {last : State} (sound : Sound state)
    (fits : ∀ event ∈ events, event.Fits) (reached : Runs.run step state events = .ok last) :
    outlet i last = (Runs.shown step (shows i) state events).foldl Outlet.step (outlet i state) ∧
      (.keyPress ∉ events → ∃ alone, Runs.run step state (events.map (onlyPlug i)) = .ok alone ∧
        outlet i alone = outlet i last) := by
  have conforms : Runs.Meets step (fun _ event => event.Fits) state events :=
    Runs.Meets.of_events fun _ event member => fits event member
  constructor
  · exact Runs.view_run (outlet i) Outlet.step conforms (fun _ _ _ fits stepped => step_outlet fits stepped) reached
  · intro unpressed
    exact alone_run ⟨sound, sound⟩ rfl rfl fits unpressed reached

/-- `{"mac": …, "plug_0": {"on": 1}, "plug_1": {"on": 1, "setting": {"name": "Lamp"}}}` -/
def twoPlugs : CJson :=
  .object [(.ofString "mac", .string exampleMac), (.ofString "plug_0", .object [(.ofString "on", .number 1)]),
    (.ofString "plug_1", .object [(.ofString "on", .number 1),
      (.ofString "setting", .object [(.ofString "name", .string (.ofString "Lamp"))])])]

def evening : List Event :=
  [.command (some (exampleTask ⟨7, 30, 0, 0, 1⟩)), .command (some twoPlugs), .scan ⟨0, 30, 7, 1⟩]

theorem plug_runs_alone_evening : ∃ last, Runs.run step exampleBoot evening = .ok last ∧
    outlet 0 last = (Runs.shown step (shows 0) exampleBoot evening).foldl Outlet.step (outlet 0 exampleBoot) ∧
      ∃ alone, Runs.run step exampleBoot (evening.map (onlyPlug 0)) = .ok alone ∧ outlet 0 alone = outlet 0 last := by
  obtain ⟨last, reached, -⟩ : ∃ last, Runs.run step exampleBoot evening = .ok last ∧ relayOut last = true :=
    Runs.map_ok.mp (by decide +kernel)
  have named : Request.Fits twoPlugs := by
    intro field format stored asked printed
    have same : format = .ofString "Lamp" := by
      cases field with
      | plugName x => match x with
        | 1 => exact (Option.some.inj asked).symm
        | 0 | 2 | 3 | 4 | 5 => cases asked
      | _ => cases asked
    subst same
    exact Nat.lt_of_le_of_lt (sprintf_length printed).1 (by decide)
  have fits : ∀ event ∈ evening, event.Fits := by
    intro event member
    simp only [evening, List.mem_cons, List.not_mem_nil, or_false] at member
    rcases member with rfl | rfl | rfl
    · exact exampleTask_fits _
    · exact named
    · trivial
  obtain ⟨whole, alone⟩ := plug_runs_alone 0 (boot_sound exampleMac _) fits reached
  exact ⟨last, reached, whole, alone (by simp [evening])⟩

end PhicommTC1.Proofs.PlugIsolation
