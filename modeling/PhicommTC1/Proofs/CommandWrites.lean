import PhicommTC1.Foundation.IndexedLoop
import PhicommTC1.Registers

/-! What the handler writes, register by register and in the order of the source. Every fact about
the state after a command is a fact about its single writes. -/

namespace PhicommTC1.Proofs.CommandWrites
open CText PhicommTC1
variable {root : CJson} {state middle next : State}

/-- The handler's turn at one register: what the message asks of it, or nothing. -/
inductive Write (root : CJson) (state : State) : Register → State → Prop where
  | unasked {register : Register} (silent : Request.value root register = none) : Write root state register state
  | relay {x : Plug} {value : UInt8} (asked : Request.on root x = some value) :
      Write root state (.switch x) (userRelaySet x.val value state)
  | task {x : Plug} {y : Slot} {task : UserPlugTaskConfig} (asked : Request.task root x y = some task) :
      Write root state (.task x y) { state with uConfig := state.uConfig.setTask x y task }
  | text {field : TextField} {format : CStr} {next : State} (asked : Request.text root field = some format)
      (stored : sprintfField field format state = .ok next) : Write root state (.text field) next
  | deviceid {format : CStr} {next : State} (asked : Request.deviceid root = some format)
      (stored : sprintfDeviceid format state = .ok next) : Write root state .deviceid next
  | mqttPort {port : Int32} (asked : Request.mqttPort root = some port) :
      Write root state .mqttPort { state with uConfig := { state.uConfig with mqttPort := port } }

inductive Writes (root : CJson) : List Register → State → State → Prop where
  | nil {state : State} : Writes root [] state state
  | cons {register : Register} {registers : List Register} {state middle next : State}
      (first : Write root state register middle) (rest : Writes root registers middle next) :
      Writes root (register :: registers) state next

namespace Writes

theorem one {register : Register} (write : Write root state register next) : Writes root [register] state next :=
  .cons write .nil

theorem append {before after : List Register} (first : Writes root before state middle)
    (rest : Writes root after middle next) : Writes root (before ++ after) state next := by
  induction first with
  | nil => exact rest
  | cons write _ ih => exact .cons write (ih rest)

theorem silent {registers : List Register} (silent : ∀ register ∈ registers, Request.value root register = none) :
    Writes root registers state state := by
  induction registers with
  | nil => exact .nil
  | cons register registers ih =>
    have here := silent register (by simp)
    exact .cons (.unasked here) (ih fun other member => silent other (by simp [member]))

theorem keeps {property : State → Prop} {registers : List Register} (writes : Writes root registers state next)
    (each : ∀ register ∈ registers, ∀ before after, property before → Write root before register after → property after)
    (holds : property state) : property next := by
  induction writes with
  | nil => exact holds
  | cons write _ ih =>
    apply ih
    · intro register member
      exact each register (by simp [member])
    · exact each _ (by simp) _ _ holds write

/-- The writes up to a register's turn, that turn, and the writes after it. -/
theorem split {register : Register} {registers : List Register} (writes : Writes root registers state next)
    (member : register ∈ registers) : ∃ earlier later before after, registers = earlier ++ register :: later ∧
      Writes root earlier state before ∧ Write root before register after ∧ Writes root later after next := by
  induction writes with
  | nil => cases member
  | @cons head tail state middle next write rest ih =>
    by_cases same : register = head
    · subst same
      exact ⟨[], tail, state, middle, rfl, .nil, write, rest⟩
    · have further := List.mem_of_ne_of_mem same member
      obtain ⟨earlier, later, before, after, whole, ahead, here, behind⟩ := ih further
      exact ⟨head :: earlier, later, before, after, congrArg (head :: ·) whole, .cons write ahead, here, behind⟩

end Writes

theorem sprintfDeviceid_cases {format : CStr} (stored : sprintfDeviceid format state = .ok next) :
    ∃ text, CText.sprintf format = some text ∧ text.length < 32 ∧
      next = { state with deviceid := state.deviceid.overwrite 0 (text.bytes ++ [0]) } := by
  unfold sprintfDeviceid at stored
  split at stored
  · cases stored
  next text printed =>
    split at stored
    next short =>
      cases stored
      exact ⟨text, printed, short, rfl⟩
    next => cases stored

theorem storeText_writes {field : TextField} {p : Option CJson}
    (asked : Request.text root field = p.bind CJson.valuestring)
    (stored : storeString (sprintfField field) p state = .ok next) : Write root state (.text field) next := by
  unfold storeString at stored
  split at stored
  next format found => exact .text (asked.trans found) stored
  next absent => cases stored; exact .unasked (asked.trans absent)

theorem storeDeviceid_writes {p : Option CJson} (asked : Request.deviceid root = p.bind CJson.valuestring)
    (stored : storeString sprintfDeviceid p state = .ok next) : Write root state .deviceid next := by
  unfold storeString at stored
  split at stored
  next format found => exact .deviceid (asked.trans found) stored
  next absent => cases stored; exact .unasked (asked.trans absent)

theorem storeMqttPort_writes {p : Option CJson} (asked : Request.mqttPort root = p.bind CJson.numberValue) :
    Write root state .mqttPort (storeMqttPort p state) := by
  unfold storeMqttPort
  split
  next port found => exact .mqttPort (asked.trans found)
  next absent => exact .unasked (asked.trans absent)

theorem switchPlug_writes {x : Plug} {plug : CJson} (found : root.getObjectItem (plugStr x) = some plug) :
    Write root state (.switch x) (switchPlug x (plug.getObjectItem (.ofString "on")) state) := by
  have asked : Request.on root x = ((plug.getObjectItem (.ofString "on")).bind CJson.numberValue).map toByte := by
    simp only [Request.on, found, Option.bind_eq_bind, Option.bind_some]
    cases (plug.getObjectItem (.ofString "on")).bind CJson.numberValue <;> rfl
  unfold switchPlug
  split
  next value given =>
    rw [given] at asked
    exact .relay asked
  next absent =>
    rw [absent] at asked
    exact .unasked (congrArg (Option.map Switch.driven) asked)

theorem taskAnalysis_writes {x : Plug} {y : Slot} {setting : CJson} (work : State × Members)
    (asked : Request.task root x y = (setting.getObjectItem (plugTaskStr y)).bind taskOf) :
    Write root work.1 (.task x y) (jsonPlugTaskAnalysis x setting work y).1 := by
  unfold jsonPlugTaskAnalysis
  split
  next absent =>
    rw [absent] at asked
    exact .unasked asked
  next task found =>
    rw [found, Option.bind_some] at asked
    cases requested : taskOf task with
    | none => exact .unasked (asked.trans requested)
    | some value => exact .task (asked.trans requested)

theorem foldl_writes {ι β : Type*} {body : State × β → ι → State × β} {register : ι → Register}
    (each : ∀ work index, Write root work.1 (register index) (body work index).1) (items : List ι) (work : State × β) :
    Writes root (items.map register) work.1 (items.foldl body work).1 := by
  induction items generalizing work with
  | nil => exact .nil
  | cons index items ih => exact .cons (each work index) (ih (body work index))

theorem foldlM_writes {ι β : Type*} {body : State × β → ι → Exec (State × β)} {registers : ι → List Register}
    (each : ∀ work index after, body work index = .ok after → Writes root (registers index) work.1 after.1)
    {items : List ι} {work last : State × β} (done : items.foldlM body work = .ok last) :
    Writes root (items.flatMap registers) work.1 last.1 := by
  induction items generalizing work with
  | nil => cases done; exact .nil
  | cons index items ih =>
    obtain ⟨after, ran, rest⟩ := IndexedLoop.foldlM_cons.mp done
    exact (each work index after ran).append (ih rest)

def settingRegisters : List Register := [.deviceid, .text .mqttIp, .mqttPort, .text .mqttUser, .text .mqttPassword]

def plugRegisters (x : Plug) : List Register :=
  .switch x :: .text (.plugName x) :: (List.finRange 5).map (.task x)

def allRegisters : List Register := settingRegisters ++ (List.finRange 6).flatMap plugRegisters

theorem mem_allRegisters (register : Register) : register ∈ allRegisters := by
  simp only [allRegisters, settingRegisters, plugRegisters, List.mem_append, List.mem_flatMap]
  cases register with
  | switch x => exact .inr ⟨x, List.mem_finRange x, by simp⟩
  | task x y => exact .inr ⟨x, List.mem_finRange x, by simp⟩
  | text field =>
    cases field with
    | plugName x => exact .inr ⟨x, List.mem_finRange x, by simp⟩
    | _ => simp
  | _ => simp

theorem allRegisters_nodup : allRegisters.Nodup := by decide +kernel

theorem settingAnalysis_writes {x : Plug} {setting : CJson} {send : Members}
    (name : Request.plugName root x = setting.getObjectItem (.ofString "name"))
    (tasks : ∀ y, Request.task root x y = (setting.getObjectItem (plugTaskStr y)).bind taskOf)
    (ran : jsonPlugSettingAnalysis x setting state = .ok (next, send)) :
    Writes root (.text (.plugName x) :: (List.finRange 5).map (.task x)) state next := by
  obtain ⟨named, stored, ran⟩ := Runs.bind_ok.mp ran
  obtain ⟨echoed, -, ran⟩ := Runs.bind_ok.mp ran
  have asked : Request.text root (.plugName x) = (setting.getObjectItem (.ofString "name")).bind CJson.valuestring :=
    congrArg (·.bind CJson.valuestring) name
  have loop := foldl_writes (fun work y => taskAnalysis_writes work (tasks y)) (List.finRange 5) (named, echoed)
  rw [Except.ok.inj ran] at loop
  exact .cons (storeText_writes asked stored) loop

theorem plugObject_writes {x : Plug} {send : Members}
    (ran : jsonPlugObject x (root.getObjectItem (plugStr x)) state = .ok (next, send)) :
    Writes root (plugRegisters x) state next := by
  unfold jsonPlugObject at ran
  split at ran
  next absent =>
    cases ran
    apply Writes.silent
    intro register member
    simp only [plugRegisters, List.mem_cons, List.mem_map] at member
    rcases member with rfl | rfl | ⟨y, -, rfl⟩
    · simp [Request.value, Request.on, absent]
    · simp [Request.value, Request.text, Request.plugName, absent]
    · simp [Request.value, Request.task, absent]
  next plug found =>
    refine .cons (switchPlug_writes found) ?_
    split at ran
    next absent =>
      cases ran
      apply Writes.silent
      intro register member
      simp only [List.mem_cons, List.mem_map] at member
      rcases member with rfl | ⟨y, -, rfl⟩
      · simp [Request.value, Request.text, Request.plugName, found, absent]
      · simp [Request.value, Request.task, found, absent]
    next setting present =>
      obtain ⟨⟨configured, settingSend⟩, analysed, ran⟩ := Runs.bind_ok.mp ran
      cases ran
      apply settingAnalysis_writes _ _ analysed
      · simp [Request.plugName, found, present]
      · intro y
        simp [Request.task, found, present]

theorem plugAnalysis_writes {x : Plug} {work after : State × Members} (ran : jsonPlugAnalysis root work x = .ok after) :
    Writes root (plugRegisters x) work.1 after.1 := by
  obtain ⟨⟨updated, plugSend⟩, analysed, ran⟩ := Runs.bind_ok.mp ran
  cases ran
  exact plugObject_writes analysed

theorem plugs_writes {plugs : List Plug} {work after : State × Members}
    (looped : plugs.foldlM (jsonPlugAnalysis root) work = .ok after) :
    Writes root (plugs.flatMap plugRegisters) work.1 after.1 :=
  foldlM_writes (fun _ _ _ analysed => plugAnalysis_writes analysed) looped

theorem storeSetting_writes {pSetting : CJson} (found : root.getObjectItem (.ofString "setting") = some pSetting)
    (stored : storeSetting pSetting state = .ok next) : Writes root settingRegisters state next := by
  have member (key : CStr) : Request.setting root key = pSetting.getObjectItem key := by
    simp [Request.setting, found]
  have text (key : CStr) : (Request.setting root key).bind CJson.valuestring =
      (pSetting.getObjectItem key).bind CJson.valuestring := congrArg (·.bind CJson.valuestring) (member key)
  obtain ⟨named, storedName, stored⟩ := Runs.bind_ok.mp stored
  obtain ⟨withIp, storedIp, stored⟩ := Runs.bind_ok.mp stored
  obtain ⟨withUser, storedUser, storedPassword⟩ := Runs.bind_ok.mp stored
  have name : Write root state .deviceid named := storeDeviceid_writes (text _) storedName
  have ip : Write root named (.text .mqttIp) withIp := storeText_writes (text _) storedIp
  have port : Write root withIp .mqttPort _ :=
    storeMqttPort_writes (congrArg (·.bind CJson.numberValue) (member (.ofString "mqtt_port")))
  have user : Write root _ (.text .mqttUser) withUser := storeText_writes (text _) storedUser
  have password : Write root withUser (.text .mqttPassword) next := storeText_writes (text _) storedPassword
  exact .cons name (.cons ip (.cons port (.cons user (.one password))))

/-- A request without a `setting` asks nothing of the settings. -/
theorem settings_silent (absent : ∀ key, Request.setting root key = none) :
    Writes root settingRegisters state state := by
  apply Writes.silent
  intro register member
  simp only [settingRegisters, List.mem_cons, List.not_mem_nil, or_false] at member
  rcases member with rfl | rfl | rfl | rfl | rfl <;>
    simp [Request.value, Request.text, Request.deviceid, Request.mqttPort, absent]

theorem settingSection_writes {work after : State × Members}
    (ran : settingSection (root.getObjectItem (.ofString "setting")) work = .ok after) :
    Writes root settingRegisters work.1 after.1 := by
  unfold settingSection at ran
  split at ran
  next absent =>
    cases ran
    exact settings_silent fun key => by simp [Request.setting, absent]
  next pSetting found =>
    obtain ⟨configured, stored, ran⟩ := Runs.bind_ok.mp ran
    obtain ⟨echoed, -, ran⟩ := Runs.bind_ok.mp ran
    cases ran
    exact storeSetting_writes found stored

theorem runCommand_parts {reply : CJson} (ran : runCommand root state = .ok (next, reply)) :
    ∃ withVersion work send,
      settingSection (root.getObjectItem (.ofString "setting")) (state, withVersion) = .ok work ∧
      (List.finRange 6).foldlM (jsonPlugAnalysis root) work = .ok (next, send) := by
  unfold runCommand at ran
  obtain ⟨withMac, -, ran⟩ := Runs.bind_ok.mp ran
  obtain ⟨withVersion, -, ran⟩ := Runs.bind_ok.mp ran
  obtain ⟨work, configured, ran⟩ := Runs.bind_ok.mp ran
  obtain ⟨⟨switched, send⟩, looped, ran⟩ := Runs.bind_ok.mp ran
  obtain ⟨name, -, ran⟩ := Runs.bind_ok.mp ran
  obtain ⟨named, -, ran⟩ := Runs.bind_ok.mp ran
  cases ran
  exact ⟨withVersion, work, send, configured, looped⟩

theorem runCommand_writes {reply : CJson} (ran : runCommand root state = .ok (next, reply)) :
    Writes root allRegisters state next := by
  obtain ⟨withVersion, work, send, configured, looped⟩ := runCommand_parts ran
  exact (settingSection_writes configured).append (plugs_writes looped)

theorem accepted_ran {outcome : Outcome} (accepted : isAccepted root state = true)
    (ran : userFunctionCmdReceived (some root) state = .ok outcome) :
    ∃ reply, runCommand root state = .ok (outcome.state, reply) ∧ outcome.reply = some reply := by
  obtain ⟨report, -, ran⟩ := Runs.bind_ok.mp ran
  rw [if_pos accepted] at ran
  obtain ⟨⟨last, reply⟩, commanded, ran⟩ := Runs.bind_ok.mp ran
  cases ran
  exact ⟨reply, commanded, rfl⟩

theorem refused_state {outcome : Outcome} (refused : isAccepted root state = false)
    (ran : userFunctionCmdReceived (some root) state = .ok outcome) :
    outcome.state = state ∧ outcome.reply = none := by
  obtain ⟨report, -, ran⟩ := Runs.bind_ok.mp ran
  rw [if_neg (by simp [refused])] at ran
  cases ran
  exact ⟨rfl, rfl⟩

end PhicommTC1.Proofs.CommandWrites
