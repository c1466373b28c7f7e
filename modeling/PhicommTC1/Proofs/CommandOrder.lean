import PhicommTC1.Proofs.LedFeedback
import PhicommTC1.Proofs.RepeatedCommand

/-! Messages that arrive in another order. A message finds the registers it speaks of as they were before any
message that does not speak of them, and leaves the others alone, so such messages may be exchanged. -/

namespace PhicommTC1.Proofs.CommandOrder
open CText PhicommTC1 CommandWrites CommandDefined DeviceSteps LedFeedback RepeatedCommand
variable {root : CJson} {register : Register} {state middle next : State} {event first second : Event}

abbrev Raw : Register → Type
  | .switch _ => Switch
  | .task _ _ => UserPlugTaskConfig
  | .text _ => Setting
  | .deviceid => Setting
  | .mqttPort => Int32

/-- A register as it lies in memory, a string with the bytes behind its end. -/
def raw (state : State) : (register : Register) → Raw register
  | .switch x => state.switch x
  | .task x y => (state.uConfig.plug x).task y
  | .text field => field.array state.uConfig
  | .deviceid => state.deviceid
  | .mqttPort => state.uConfig.mqttPort

theorem agree_iff : Agree register state next ↔ raw next register = raw state register := by
  cases register <;> exact Iff.rfl

/-- A string over the bytes that were there. -/
def overlaid (array : Setting) (text : Option CStr) : Setting :=
  (text.map fun text => array.overwrite 0 (text.bytes ++ [0])).getD array

/-- What a message leaves of a register that it finds so. -/
def put (root : CJson) : (register : Register) → Raw register → Raw register
  | .switch x, old => ((Request.on root x).map Switch.driven).getD old
  | .task x y, old => (Request.task root x y).getD old
  | .text field, old => overlaid old ((Request.text root field).bind CText.sprintf)
  | .deviceid, old => overlaid old ((Request.deviceid root).bind CText.sprintf)
  | .mqttPort, old => (Request.mqttPort root).getD old

theorem put_silent (silent : Request.value root register = none) (old : Raw register) : put root register old = old := by
  cases register with
  | switch x => exact congrArg (Option.getD · old) silent
  | task x y => exact congrArg (Option.getD · old) silent
  | text field => exact congrArg (fun asked : Option CStr => overlaid old (asked.bind CText.sprintf)) silent
  | deviceid => exact congrArg (fun asked : Option CStr => overlaid old (asked.bind CText.sprintf)) silent
  | mqttPort => exact congrArg (Option.getD · old) silent

theorem write_raw (fits : Request.Fits root) (write : Write root state register next) :
    raw next register = put root register (raw state register) := by
  cases write with
  | unasked silent => exact (put_silent silent _).symm
  | relay asked => simp [raw, put, asked, userRelaySet_switch]
  | task asked => simp [raw, put, asked, UConfig.setTask]
  | @text field format _ asked stored =>
    obtain ⟨text, printed, -, rfl⟩ := sprintfField_cases fits asked stored
    simp only [raw, put, overlaid, asked, Option.bind_some, printed, Option.map_some, Option.getD_some]
    exact SettingMemory.array_setArray _ _ _
  | deviceid asked stored =>
    obtain ⟨text, printed, -, rfl⟩ := sprintfDeviceid_cases stored
    simp [raw, put, overlaid, asked, printed]
  | mqttPort asked => simp [raw, put, asked]

/-- Before its turn a register is as the message found it, and after its turn it stays. -/
theorem writes_raw (fits : Request.Fits root) (writes : Writes root allRegisters state next) (register : Register) :
    raw next register = put root register (raw state register) := by
  obtain ⟨earlier, later, before, after, whole, ahead, here, behind⟩ := writes.split (mem_allRegisters register)
  have once := allRegisters_nodup
  rw [whole, List.nodup_append] at once
  obtain ⟨-, tail, apart⟩ := once
  have unsaid : register ∉ earlier := fun member => apart register member register (by simp) rfl
  calc
    raw next register = raw after register := agree_iff.mp (writes_agree fits behind (List.nodup_cons.mp tail).1)
    _ = put root register (raw before register) := write_raw fits here
    _ = put root register (raw state register) := by rw [agree_iff.mp (writes_agree fits ahead unsaid)]

theorem state_ext {one two : State} (same : ∀ register, raw one register = raw two register)
    (kept : one.kept = two.kept) (led : one.led = two.led) : one = two := by
  have switch (i : Plug) : one.switch i = two.switch i := same (.switch i)
  obtain ⟨ip, port, user, password, id, version, plugs, padding⟩ := UConfig.mk.inj (congrArg Kept.userDefaultconfig kept)
  have plug (i : Plug) : one.uConfig.plug i = two.uConfig.plug i :=
    UserPlugConfig.ext (same (.text (.plugName i))) (congrArg Switch.record (switch i))
      (funext fun j => same (.task i j))
  have default (i : Plug) : one.userDefaultconfig.plug i = two.userDefaultconfig.plug i := by
    obtain ⟨name, -, task⟩ := UserPlugConfig.mk.inj (congrFun plugs i)
    exact UserPlugConfig.ext name (congrArg Switch.copy (switch i)) task
  refine State.ext ?_ ?_ (same .deviceid) (congrArg Kept.strMac kept) (congrArg Kept.strIp kept)
    (funext fun i => congrArg Switch.pin (switch i)) led
  · exact UConfig.ext (same (.text .mqttIp)) (same .mqttPort) (same (.text .mqttUser)) (same (.text .mqttPassword))
      (congrArg Kept.mqttDeviceId kept) (congrArg Kept.version kept) (funext plug) (congrArg Kept.padding kept)
  · exact UConfig.ext ip port user password id version (funext default) padding

/-- A command or a page request. -/
def Message : Event → Prop
  | .command _ => True
  | .switchPage _ => True
  | _ => False

/-- What an event asks for where it is accepted. -/
def asks : Event → Option CJson
  | .command pJsonRoot => pJsonRoot
  | .switchPage url => (httpdArgFind url).map switchRoot
  | _ => none

theorem asks_of_request (asked : event.request state = some root) : asks event = some root := by
  cases event with
  | command pJsonRoot => exact (Option.filter_eq_some_iff.mp asked).1
  | switchPage url => exact asked
  | keyPress | scan => cases asked

/-- Two messages that speak of different settings. -/
structure Apart (first second : Event) : Prop where
  messages : Message first ∧ Message second
  silent : ∀ one two register, asks first = some one → asks second = some two →
    Request.value one register = none ∨ Request.value two register = none

def putAny (asked : Option CJson) (register : Register) (old : Raw register) : Raw register :=
  asked.elim old fun root => put root register old

theorem putAny_comm (apart : Apart first second) (register : Register) (old : Raw register) :
    putAny (second.request state) register (putAny (first.request state) register old) =
      putAny (first.request state) register (putAny (second.request state) register old) := by
  cases one : first.request state with
  | none => rfl
  | some a =>
    cases two : second.request state with
    | none => rfl
    | some b =>
      simp only [putAny, Option.elim_some]
      rcases apart.silent a b register (asks_of_request one) (asks_of_request two) with silent | silent
      · rw [put_silent silent, put_silent silent]
      · rw [put_silent silent, put_silent silent]

theorem message_raw (message : Message event) (fits : event.Fits) (stepped : step state event = .ok next)
    (register : Register) : raw next register = putAny (event.request state) register (raw state register) := by
  cases StoreRules.step_cases stepped with
  | command accepted commanded =>
    rw [Event.request, Option.filter_some, if_pos accepted]
    exact writes_raw fits (runCommand_writes commanded) register
  | switchPage found looped =>
    rw [Event.request, found]
    exact writes_raw (switchRoot_fits _) (switchRoot_writes looped) register
  | ignored unasked _ same =>
    rw [unasked, same]
    rfl
  | keyPress | scan => exact message.elim

theorem message_kept (message : Message event) (fits : event.Fits) (stepped : step state event = .ok next) :
    next.kept = state.kept := by
  cases step_effect fits stepped with
  | request asked registers kept => exact kept
  | idle unasked other same => rw [same]
  | keyPress event_eq | scan event_eq =>
    rw [event_eq] at message
    exact message.elim

theorem drives_congr {other : State} (message : Message event) (mac : other.strMac = state.strMac) :
    Drives other event ↔ Drives state event := by
  have same := request_congr mac event
  cases event with
  | command | switchPage => simp only [Drives, Event.sets, same, reduceCtorEq, false_and, exists_false, or_false]
  | keyPress | scan => exact message.elim

/-- The two messages may as well arrive the other way round. -/
theorem exchange {last : State} (apart : Apart first second) (sound : Sound state) (fits : first.Fits ∧ second.Fits)
    (before : step state first = .ok middle) (after : step middle second = .ok last) :
    ∃ other, step state second = .ok other ∧ step other first = .ok last := by
  have keptBefore := message_kept apart.messages.1 fits.1 before
  have keptAfter := message_kept apart.messages.2 fits.2 after
  have mac : middle.strMac = state.strMac := congrArg Kept.strMac keptBefore
  have asked := request_congr mac second
  obtain ⟨other, ahead⟩ := step_defined sound fun root request =>
    request_printable fits.2 after (asked.trans request)
  have keptAhead := message_kept apart.messages.2 fits.2 ahead
  have otherMac : other.strMac = state.strMac := congrArg Kept.strMac keptAhead
  have otherAsked := request_congr otherMac first
  obtain ⟨final, behind⟩ := step_defined (soundStores.step sound ahead) fun root request =>
    request_printable fits.1 before (otherAsked.symm.trans request)
  have keptBehind := message_kept apart.messages.1 fits.1 behind
  have same (register : Register) : raw final register = raw last register := by
    rw [message_raw apart.messages.1 fits.1 behind, message_raw apart.messages.2 fits.2 ahead, otherAsked,
      message_raw apart.messages.2 fits.2 after, message_raw apart.messages.1 fits.1 before, asked, putAny_comm apart]
  have led : final.led = last.led := by
    have one := ((step_shown fits.1 before).trans (step_shown fits.2 after)).congr
      (or_congr Iff.rfl (drives_congr apart.messages.2 mac))
    have two := ((step_shown fits.2 ahead).trans (step_shown fits.1 behind)).congr
      ((or_congr Iff.rfl (drives_congr apart.messages.1 otherMac)).trans or_comm)
    by_cases driven : Drives state first ∨ Drives state second
    · rw [two.driven driven, one.driven driven]
      exact relayOut_congr fun i => same (.switch i)
    · rw [(two.quiet driven).1, (one.quiet driven).1]
  refine ⟨other, ahead, ?_⟩
  rw [behind]
  exact congrArg Except.ok (state_ext same (keptBehind.trans (keptAhead.trans (keptAfter.trans keptBefore).symm)) led)

/-- The events as they arrive when neighbouring messages that speak of different settings change places, any number
of times. -/
inductive Reordered : List Event → List Event → Prop where
  | refl (events : List Event) : Reordered events events
  | swap {first second : Event} (apart : Apart first second) (events : List Event) :
      Reordered (first :: second :: events) (second :: first :: events)
  | cons {sent arrived : List Event} (event : Event) (rest : Reordered sent arrived) :
      Reordered (event :: sent) (event :: arrived)
  | trans {sent between arrived : List Event} (earlier : Reordered sent between) (later : Reordered between arrived) :
      Reordered sent arrived

theorem Reordered.perm {sent arrived : List Event} (reordered : Reordered sent arrived) : sent.Perm arrived := by
  induction reordered with
  | refl events => exact .refl events
  | swap apart events => exact .swap _ _ events
  | cons event _ ih => exact .cons event ih
  | trans _ _ first second => exact first.trans second

/-- In whatever order messages about different settings arrive, the device ends in the same state. -/
theorem order_immaterial {last : State} {sent arrived : List Event} (reordered : Reordered sent arrived)
    (sound : Sound state) (fits : ∀ event ∈ sent, event.Fits) (reached : Runs.run step state sent = .ok last) :
    Runs.run step state arrived = .ok last := by
  induction reordered generalizing state with
  | refl => exact reached
  | @swap first second apart events =>
    obtain ⟨middle, before, reached⟩ := Runs.run_cons.mp reached
    obtain ⟨next, after, reached⟩ := Runs.run_cons.mp reached
    obtain ⟨other, ahead, behind⟩ := exchange apart sound ⟨fits first (by simp), fits second (by simp)⟩ before after
    exact Runs.run_cons.mpr ⟨other, ahead, Runs.run_cons.mpr ⟨next, behind, reached⟩⟩
  | cons event rest ih =>
    obtain ⟨next, stepped, reached⟩ := Runs.run_cons.mp reached
    exact Runs.run_cons.mpr ⟨next, stepped, ih (soundStores.step sound stepped)
      (fun other member => fits other (by simp [member])) reached⟩
  | trans earlier later first second =>
    exact second sound (fun event member => fits event (earlier.perm.mem_iff.mpr member)) (first sound fits reached)

def wakeTask : Event := .command (some (exampleTask ⟨7, 30, 127, 1, 1⟩))

def lampName : Event := .command (some (exampleName (.ofString "Lamp")))

theorem wake_apart_lamp : Apart wakeTask lampName := by
  refine ⟨⟨trivial, trivial⟩, ?_⟩
  intro one two register waking naming
  cases waking
  cases naming
  cases register with
  | switch x => exact .inl (match x with | 0 | 1 | 2 | 3 | 4 | 5 => rfl)
  | task x y => exact .inr (match x, y with
    | 0, 0 | 0, 1 | 0, 2 | 0, 3 | 0, 4 | 1, _ | 2, _ | 3, _ | 4, _ | 5, _ => rfl)
  | text field => exact .inl (exampleTask_text _ field)
  | deviceid => exact .inl rfl
  | mqttPort => exact .inl rfl

theorem order_immaterial_lamp : ∃ last, Runs.run step exampleBoot [wakeTask, lampName, .keyPress] = .ok last ∧
    Runs.run step exampleBoot [lampName, wakeTask, .keyPress] = .ok last := by
  obtain ⟨last, reached, -⟩ : ∃ last, Runs.run step exampleBoot [wakeTask, lampName, .keyPress] = .ok last ∧
      relayOut last = true := Runs.map_ok.mp (by decide +kernel)
  have fits : ∀ event ∈ [wakeTask, lampName, .keyPress], event.Fits := by
    intro event member
    simp only [List.mem_cons, List.not_mem_nil, or_false] at member
    rcases member with rfl | rfl | rfl
    · exact exampleTask_fits _
    · exact RelayRecords.exampleName_fits (by decide)
    · trivial
  exact ⟨last, reached, order_immaterial (.swap wake_apart_lamp _) (boot_sound exampleMac _) fits reached⟩

end PhicommTC1.Proofs.CommandOrder
