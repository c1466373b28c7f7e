import PhicommTC1.Proofs.DeviceSteps

/-! A command that arrives twice. Every write of the handler stores what the message says and nothing that it
has read, so the second time it finds everything as it would leave it, and gives the same answer. -/

namespace PhicommTC1.Proofs.RepeatedCommand
open CText LastWriter PhicommTC1 CommandWrites CommandEffect SettingMemory
variable {root : CJson} {register other : Register} {registers : List Register} {state next final : State}

/-- The register is the same in both states, and so are the bytes behind the end of a string. -/
def Agree : Register → State → State → Prop
  | .text field, state, next => field.array next.uConfig = field.array state.uConfig
  | .deviceid, state, next => next.deviceid = state.deviceid
  | register, state, next => next.registers register = state.registers register

theorem Agree.refl (register : Register) (state : State) : Agree register state state := by
  cases register <;> exact rfl

theorem Agree.trans {middle : State} (first : Agree register state middle) (second : Agree register middle next) :
    Agree register state next := by
  cases register <;> exact Eq.trans second first

theorem Agree.text {field : TextField} (agree : Agree (.text field) state next) :
    field.array next.uConfig = field.array state.uConfig := agree

theorem sprintfField_cases {field : TextField} {format : CStr} (fits : Request.Fits root)
    (asked : Request.text root field = some format) (stored : sprintfField field format state = .ok next) :
    ∃ text, CText.sprintf format = some text ∧ text.length < 32 ∧ next = { state with
      uConfig := field.setArray state.uConfig ((field.array state.uConfig).overwrite 0 (text.bytes ++ [0])) } := by
  obtain ⟨config, written, stored⟩ := Runs.bind_ok.mp stored
  cases stored
  cases printed : CText.sprintf format with
  | none => simp only [TextField.sprintf, printed] at written; cases written
  | some text =>
    have short := fits field format text asked printed
    rw [sprintf_fits field state.uConfig printed short] at written
    cases written
    exact ⟨text, rfl, short, rfl⟩

theorem array_setArray_other {field changed : TextField} (different : field ≠ changed) (config : UConfig)
    (value : Setting) : field.array (changed.setArray config value) = field.array config := by
  cases changed with
  | plugName x =>
    cases field with
    | plugName z =>
      have apart : z ≠ x := fun same => different (by rw [same])
      simp [TextField.array, TextField.setArray, apart]
    | _ => rfl
  | _ => cases field <;> first | rfl | exact absurd rfl different

theorem array_setOn (field : TextField) (config : UConfig) (x : Plug) (y : UInt8) :
    field.array (config.setOn x y) = field.array config := by
  cases field with
  | plugName z => by_cases same : z = x <;> simp [TextField.array, UConfig.setOn, same]
  | _ => rfl

theorem array_setTask (field : TextField) (config : UConfig) (x : Plug) (y : Slot) (task : UserPlugTaskConfig) :
    field.array (config.setTask x y task) = field.array config := by
  cases field with
  | plugName z => by_cases same : z = x <;> simp [TextField.array, UConfig.setTask, same]
  | _ => rfl

theorem write_array (fits : Request.Fits root) (write : Write root state register next) {field : TextField}
    (different : register ≠ .text field) : field.array next.uConfig = field.array state.uConfig := by
  cases write with
  | unasked => rfl
  | relay => rw [userRelaySet_uConfig, array_setOn]
  | task => exact array_setTask _ _ _ _ _
  | text asked stored =>
    obtain ⟨text, -, -, rfl⟩ := sprintfField_cases fits asked stored
    exact array_setArray_other (fun same => different (by rw [same])) _ _
  | deviceid asked stored =>
    obtain ⟨text, -, -, rfl⟩ := sprintfDeviceid_cases stored
    rfl
  | mqttPort => cases field <;> rfl

theorem write_deviceid (write : Write root state register next) (different : register ≠ .deviceid) :
    next.deviceid = state.deviceid := by
  cases write with
  | unasked => rfl
  | relay => exact userRelaySet_deviceid _ _ _
  | task => rfl
  | text asked stored =>
    obtain ⟨config, -, stored⟩ := Runs.bind_ok.mp stored
    cases stored
    rfl
  | deviceid => exact absurd rfl different
  | mqttPort => rfl

theorem write_agree (fits : Request.Fits root) (write : Write root state register next)
    (different : register ≠ other) : Agree other state next := by
  have kept : next.registers other = state.registers other := by
    rw [(write_delivers fits write).1, foldl_assign, if_neg]
    simpa using Ne.symm different
  cases other with
  | text field => exact write_array fits write different
  | deviceid => exact write_deviceid write different
  | _ => exact kept

theorem writes_agree (fits : Request.Fits root) (writes : Writes root registers state next)
    (absent : other ∉ registers) : Agree other state next := by
  have each (register : Register) (member : register ∈ registers) (before after : State)
      (kept : Agree other state before) (write : Write root before register after) : Agree other state after :=
    kept.trans (write_agree fits write fun same => absent (same ▸ member))
  exact writes.keeps each (.refl other state)

/-- The register's turn has nothing to do. -/
def Holds (root : CJson) (state : State) : Register → Prop
  | .switch x => ∀ value, Request.on root x = some value → state.switch x = .driven value ∧ state.led = relayOut state
  | .task x y => ∀ task, Request.task root x y = some task → (state.uConfig.plug x).task y = task
  | .text field => ∀ format, Request.text root field = some format → ∃ text, CText.sprintf format = some text ∧
      text.length < 32 ∧ (field.array state.uConfig).overwrite 0 (text.bytes ++ [0]) = field.array state.uConfig
  | .deviceid => ∀ format, Request.deviceid root = some format → ∃ text, CText.sprintf format = some text ∧
      text.length < 32 ∧ state.deviceid.overwrite 0 (text.bytes ++ [0]) = state.deviceid
  | .mqttPort => ∀ port, Request.mqttPort root = some port → state.uConfig.mqttPort = port

theorem overwrite_twice {size : Nat} (array : CharArray size) (bytes : List UInt8) :
    CharArray.overwrite (array.overwrite 0 bytes) 0 bytes = array.overwrite 0 bytes := by
  funext position
  simp only [CharArray.overwrite, Nat.zero_le, if_true]
  cases bytes[position.val - 0]? <;> rfl

theorem holds_unasked (silent : Request.value root register = none) (state : State) : Holds root state register := by
  cases register with
  | switch x =>
    intro value asked
    rw [Request.value, asked] at silent
    cases silent
  | _ =>
    intro value asked
    have absent := asked.symm.trans silent
    cases absent

theorem write_holds (fits : Request.Fits root) (write : Write root state register next) :
    Holds root next register := by
  cases write with
  | unasked silent => exact holds_unasked silent _
  | @relay x value asked =>
    intro other again
    cases Option.some.inj (asked.symm.trans again)
    exact ⟨userRelaySet_switch x value state, userRelaySet_led x value state⟩
  | task asked =>
    intro other again
    cases Option.some.inj (asked.symm.trans again)
    simp [UConfig.setTask]
  | text asked stored =>
    intro other again
    cases Option.some.inj (asked.symm.trans again)
    obtain ⟨text, printed, short, rfl⟩ := sprintfField_cases fits asked stored
    refine ⟨text, printed, short, ?_⟩
    rw [array_setArray, overwrite_twice]
  | deviceid asked stored =>
    intro other again
    cases Option.some.inj (asked.symm.trans again)
    obtain ⟨text, printed, short, rfl⟩ := sprintfDeviceid_cases stored
    exact ⟨text, printed, short, overwrite_twice _ _⟩
  | mqttPort asked =>
    intro other again
    exact Option.some.inj (asked.symm.trans again)

theorem relayOut_congr (same : ∀ i, next.switch i = state.switch i) : relayOut next = relayOut state := by
  rw [Bool.eq_iff_iff, relayOut_iff, relayOut_iff]
  simp only [same]

/-- Whatever write comes, the LED shows the relays if it did before. -/
theorem write_led (fits : Request.Fits root) (write : Write root state register next)
    (shown : state.led = relayOut state) : next.led = relayOut next := by
  have same (other : ∀ x, register ≠ .switch x) : relayOut next = relayOut state := by
    apply relayOut_congr
    intro i
    have agree : Agree (.switch i) state next := write_agree fits write (other i)
    exact agree
  cases write with
  | unasked => exact shown
  | relay => exact userRelaySet_led _ _ _
  | task => exact shown.trans (same nofun).symm
  | text asked stored =>
    have kept := same nofun
    obtain ⟨text, -, -, rfl⟩ := sprintfField_cases fits asked stored
    exact shown.trans kept.symm
  | deviceid asked stored =>
    have kept := same nofun
    obtain ⟨text, -, -, rfl⟩ := sprintfDeviceid_cases stored
    exact shown.trans kept.symm
  | mqttPort => exact shown.trans (same nofun).symm

theorem write_keeps_holds (fits : Request.Fits root) (write : Write root state register next)
    (different : register ≠ other) (holds : Holds root state other) : Holds root next other := by
  have agree := write_agree fits write different
  cases other with
  | switch x =>
    intro value asked
    obtain ⟨position, shown⟩ := holds value asked
    have kept : next.switch x = state.switch x := agree
    exact ⟨kept.trans position, write_led fits write shown⟩
  | task x y => exact fun task asked => Eq.trans agree (holds task asked)
  | text field =>
    intro format asked
    obtain ⟨text, printed, short, same⟩ := holds format asked
    exact ⟨text, printed, short, by rw [agree.text, same]⟩
  | deviceid =>
    intro format asked
    obtain ⟨text, printed, short, same⟩ := holds format asked
    have kept : next.deviceid = state.deviceid := agree
    exact ⟨text, printed, short, by rw [kept, same]⟩
  | mqttPort => exact fun port asked => Eq.trans agree (holds port asked)

/-- After its turn a register holds what the message says, and no later turn changes that. -/
theorem writes_hold (fits : Request.Fits root) (writes : Writes root registers state next) (once : registers.Nodup) :
    ∀ register ∈ registers, Holds root next register := by
  induction writes with
  | nil => exact nofun
  | @cons head rest state middle next first later ih =>
    obtain ⟨fresh, once⟩ := List.nodup_cons.mp once
    intro register member
    rcases List.mem_cons.mp member with rfl | member
    · have kept : ∀ other ∈ rest, ∀ before after, Holds root before register → Write root before other after →
          Holds root after register := by
        intro other listed before after holds write
        exact write_keeps_holds fits write (fun same => fresh (same ▸ listed)) holds
      exact later.keeps kept (write_holds fits first)
    · exact ih once register member

/-- Every string of `u_config` ends inside its array. -/
def Closed (state : State) : Prop := ∀ field : TextField, (field.array state.uConfig).text.length < 32

/-- The message has been served: every register holds what it says. -/
structure Served (root : CJson) (state : State) : Prop where
  holds : ∀ register, Holds root state register
  closed : Closed state

theorem setOn_same {config : UConfig} {x : Plug} {y : UInt8} (position : (config.plug x).on = y) :
    config.setOn x y = config := by
  have plug : { config.plug x with on := y } = config.plug x := by rw [← position]
  rw [UConfig.setOn, plug, UConfig.setPlug, Function.update_eq_self]

theorem userRelaySet_again {x : Plug} {y : UInt8} (position : final.switch x = .driven y)
    (shown : final.led = relayOut final) : userRelaySet x.val y final = final := by
  have record : (final.uConfig.plug x).on = y := congrArg Switch.record position
  have copy : (final.userDefaultconfig.plug x).on = y := congrArg Switch.copy position
  have pin : final.relay x = (y == 1) := congrArg Switch.pin position
  have config : (userRelaySet x.val y final).uConfig = final.uConfig := by
    rw [userRelaySet_uConfig, setOn_same record]
  have default : (userRelaySet x.val y final).userDefaultconfig = final.userDefaultconfig := by
    rw [userRelaySet_default, setOn_same copy]
  have relay : (userRelaySet x.val y final).relay = final.relay := by
    rw [userRelaySet_relay, ← pin, Function.update_eq_self]
  have led : (userRelaySet x.val y final).led = final.led := by
    rw [userRelaySet_led, shown, relayOut, relayOut, config, default]
  exact State.ext config default (userRelaySet_deviceid x y final) (userRelaySet_strMac x y final)
    (userRelaySet_strIp x y final) relay led

theorem setTask_same {config : UConfig} {x : Plug} {y : Slot} {task : UserPlugTaskConfig}
    (same : (config.plug x).task y = task) : config.setTask x y task = config := by
  have plug : { config.plug x with task := Function.update (config.plug x).task y task } = config.plug x := by
    rw [← same, Function.update_eq_self]
  rw [UConfig.setTask, plug, UConfig.setPlug, Function.update_eq_self]

namespace Served
variable (served : Served root final)
include served

theorem text_again {field : TextField} {p : Option CJson} (asked : Request.text root field = p.bind CJson.valuestring) :
    storeString (sprintfField field) p final = .ok final := by
  unfold storeString
  split
  next format found =>
    obtain ⟨text, printed, short, same⟩ := served.holds (.text field) format (asked.trans found)
    have written := sprintf_fits field final.uConfig printed short
    rw [same, setArray_array] at written
    exact Runs.bind_ok.mpr ⟨final.uConfig, written, rfl⟩
  next => rfl

theorem deviceid_again {p : Option CJson} (asked : Request.deviceid root = p.bind CJson.valuestring) :
    storeString sprintfDeviceid p final = .ok final := by
  unfold storeString
  split
  next format found =>
    obtain ⟨text, printed, short, same⟩ := served.holds .deviceid format (asked.trans found)
    simp only [sprintfDeviceid, printed, if_pos short, same]
  next => rfl

theorem mqttPort_again {p : Option CJson} (asked : Request.mqttPort root = p.bind CJson.numberValue) :
    storeMqttPort p final = final := by
  unfold storeMqttPort
  split
  next port found =>
    have same := served.holds .mqttPort port (asked.trans found)
    rw [← same]
  next => rfl

theorem switch_again {x : Plug} {plug : CJson} (found : root.getObjectItem (plugStr x) = some plug) :
    switchPlug x (plug.getObjectItem (.ofString "on")) final = final := by
  have asked : Request.on root x = ((plug.getObjectItem (.ofString "on")).bind CJson.numberValue).map toByte := by
    simp only [Request.on, found, Option.bind_eq_bind, Option.bind_some]
    cases (plug.getObjectItem (.ofString "on")).bind CJson.numberValue <;> rfl
  unfold switchPlug
  split
  next value given =>
    rw [given] at asked
    obtain ⟨position, shown⟩ := served.holds (.switch x) _ asked
    exact userRelaySet_again position shown
  next => rfl

theorem storeSetting_again {pSetting : CJson} (found : root.getObjectItem (.ofString "setting") = some pSetting) :
    storeSetting pSetting final = .ok final := by
  have member (key : CStr) : Request.setting root key = pSetting.getObjectItem key := by
    simp [Request.setting, found]
  have text (key : CStr) : (Request.setting root key).bind CJson.valuestring =
      (pSetting.getObjectItem key).bind CJson.valuestring := congrArg (·.bind CJson.valuestring) (member key)
  have stored (field : TextField) (key : CStr)
      (asked : Request.text root field = (Request.setting root key).bind CJson.valuestring) :
      storeString (sprintfField field) (pSetting.getObjectItem key) final = .ok final :=
    served.text_again (asked.trans (text key))
  have name := served.deviceid_again (text (.ofString "name"))
  have ip := stored .mqttIp (.ofString "mqtt_uri") rfl
  have port := served.mqttPort_again (congrArg (·.bind CJson.numberValue) (member (.ofString "mqtt_port")))
  have user := stored .mqttUser (.ofString "mqtt_user") rfl
  have password := stored .mqttPassword (.ofString "mqtt_password") rfl
  refine Runs.bind_ok.mpr ⟨final, name, Runs.bind_ok.mpr ⟨final, ip, ?_⟩⟩
  rw [port]
  exact Runs.bind_ok.mpr ⟨final, user, password⟩

theorem read_again {field : TextField} {text : CStr} (agree : Agree (.text field) state final)
    (read : field.read state.uConfig = .ok text) : field.read final.uConfig = .ok text := by
  have closed := served.closed field
  have after := (read_array_iff field final.uConfig).mpr (.inl closed)
  rw [agree.text] at closed after
  have before := (read_array_iff field state.uConfig).mpr (.inl closed)
  rw [after, ← before, read]

omit served in
theorem echo_again {key : CStr} {p : Option CJson} {first second : Exec CStr} {send after : Members}
    (same : ∀ text, first = .ok text → second = .ok text) (ran : echoString key p first send = .ok after) :
    echoString key p second send = .ok after := by
  cases p with
  | none => exact ran
  | some member =>
    obtain ⟨text, read, added⟩ := Runs.bind_ok.mp ran
    exact Runs.bind_ok.mpr ⟨text, same text read, added⟩

theorem echoSetting_again {pSetting : CJson} {send : Members}
    (agree : ∀ register ∈ settingRegisters, Agree register state final)
    (ran : echoSetting pSetting state = .ok send) : echoSetting pSetting final = .ok send := by
  have name (text : CStr) (read : state.name = .ok text) : final.name = .ok text := by
    have same : final.deviceid = state.deviceid := agree .deviceid (by simp [settingRegisters])
    rw [State.name, same]
    exact read
  have string (field : TextField) (listed : .text field ∈ settingRegisters) (text : CStr) :
      field.read state.uConfig = .ok text → field.read final.uConfig = .ok text :=
    served.read_again (agree _ listed)
  have port : final.uConfig.mqttPort = state.uConfig.mqttPort := agree .mqttPort (by simp [settingRegisters])
  obtain ⟨withOta, ota, ran⟩ := Runs.bind_ok.mp ran
  obtain ⟨withName, named, ran⟩ := Runs.bind_ok.mp ran
  obtain ⟨withIp, ip, ran⟩ := Runs.bind_ok.mp ran
  obtain ⟨withUser, user, password⟩ := Runs.bind_ok.mp ran
  refine Runs.bind_ok.mpr ⟨withOta, ota, Runs.bind_ok.mpr ⟨withName, echo_again name named,
    Runs.bind_ok.mpr ⟨withIp, echo_again (string .mqttIp (by simp [settingRegisters])) ip, ?_⟩⟩⟩
  have userAgain := echo_again (string .mqttUser (by simp [settingRegisters])) user
  have passwordAgain := echo_again (string .mqttPassword (by simp [settingRegisters])) password
  have portAgain : echoMqttPort (pSetting.getObjectItem (.ofString "mqtt_port")) state.uConfig withIp =
      echoMqttPort (pSetting.getObjectItem (.ofString "mqtt_port")) final.uConfig withIp := by
    simp only [echoMqttPort, port]
  rw [portAgain] at userAgain
  exact Runs.bind_ok.mpr ⟨withUser, userAgain, passwordAgain⟩

theorem settingSection_again {send : Members} {work : State × Members}
    (agree : ∀ register ∈ settingRegisters, Agree register work.1 final)
    (ran : settingSection (root.getObjectItem (.ofString "setting")) (state, send) = .ok work) :
    settingSection (root.getObjectItem (.ofString "setting")) (final, send) = .ok (final, work.2) := by
  unfold settingSection at ran ⊢
  split at ran
  next absent => cases ran; rfl
  next pSetting found =>
    obtain ⟨configured, stored, ran⟩ := Runs.bind_ok.mp ran
    obtain ⟨echoed, echoes, ran⟩ := Runs.bind_ok.mp ran
    cases ran
    exact Runs.bind_ok.mpr ⟨final, served.storeSetting_again found,
      Runs.bind_ok.mpr ⟨echoed, served.echoSetting_again agree echoes, rfl⟩⟩

theorem taskAnalysis_again {x : Plug} {y : Slot} {setting : CJson} {work : State × Members}
    (asked : Request.task root x y = (setting.getObjectItem (plugTaskStr y)).bind taskOf)
    (agree : Agree (.task x y) (jsonPlugTaskAnalysis x setting work y).1 final) :
    jsonPlugTaskAnalysis x setting (final, work.2) y = (final, (jsonPlugTaskAnalysis x setting work y).2) := by
  have told : (final.uConfig.plug x).task y =
      ((jsonPlugTaskAnalysis x setting work y).1.uConfig.plug x).task y := agree
  unfold jsonPlugTaskAnalysis at told ⊢
  cases found : setting.getObjectItem (plugTaskStr y) with
  | none => rfl
  | some task =>
    rw [found, Option.bind_some] at asked
    simp only [found] at told ⊢
    cases requested : taskOf task with
    | none =>
      simp only [requested] at told ⊢
      rw [told]
    | some value =>
      have same : (final.uConfig.plug x).task y = value := served.holds (.task x y) value (asked.trans requested)
      simp only [requested] at told ⊢
      rw [setTask_same same, told]

/-- Every slot is told as it is at the end of the loop, which comes back to none of them. -/
theorem tasks_again (fits : Request.Fits root) {x : Plug} {setting : CJson}
    (asked : ∀ y, Request.task root x y = (setting.getObjectItem (plugTaskStr y)).bind taskOf) {slots : List Slot}
    (once : slots.Nodup) {work : State × Members}
    (agree : ∀ y ∈ slots, Agree (.task x y) (slots.foldl (jsonPlugTaskAnalysis x setting) work).1 final) :
    slots.foldl (jsonPlugTaskAnalysis x setting) (final, work.2) =
      (final, (slots.foldl (jsonPlugTaskAnalysis x setting) work).2) := by
  induction slots generalizing work with
  | nil => rfl
  | cons y slots ih =>
    obtain ⟨fresh, once⟩ := List.nodup_cons.mp once
    have later := foldl_writes (fun work y => taskAnalysis_writes work (asked y)) slots
      (jsonPlugTaskAnalysis x setting work y)
    have untouched : .task x y ∉ slots.map (Register.task x) := by
      simpa using fresh
    have here := (writes_agree fits later untouched).trans (agree y (by simp))
    rw [List.foldl_cons, List.foldl_cons, served.taskAnalysis_again (asked y) here]
    exact ih once fun slot member => agree slot (by simp [member])

theorem settingAnalysis_again (fits : Request.Fits root) {x : Plug} {setting : CJson} {send : Members}
    (name : Request.plugName root x = setting.getObjectItem (.ofString "name"))
    (asked : ∀ y, Request.task root x y = (setting.getObjectItem (plugTaskStr y)).bind taskOf)
    (agree : ∀ register ∈ plugRegisters x, Agree register next final)
    (ran : jsonPlugSettingAnalysis x setting state = .ok (next, send)) :
    jsonPlugSettingAnalysis x setting final = .ok (final, send) := by
  obtain ⟨named, stored, ran⟩ := Runs.bind_ok.mp ran
  obtain ⟨echoed, echo, ran⟩ := Runs.bind_ok.mp ran
  have looped := Except.ok.inj ran
  have tasks := foldl_writes (fun work y => taskAnalysis_writes work (asked y)) (List.finRange 5) (named, echoed)
  rw [looped] at tasks
  -- The name is read before the tasks are stored, and their stores do not reach it.
  have here : Agree (.text (.plugName x)) named final :=
    (writes_agree fits tasks (by simp)).trans (agree _ (by simp [plugRegisters]))
  have each (y : Slot) (_ : y ∈ List.finRange 5) :
      Agree (.task x y) ((List.finRange 5).foldl (jsonPlugTaskAnalysis x setting) (named, echoed)).1 final := by
    rw [looped]
    exact agree _ (by simp [plugRegisters])
  have again := served.tasks_again fits asked (List.nodup_finRange 5) each
  rw [looped] at again
  refine Runs.bind_ok.mpr ⟨final, served.text_again (congrArg (·.bind CJson.valuestring) name), ?_⟩
  refine Runs.bind_ok.mpr ⟨echoed, echo_again (fun text => served.read_again here) echo, ?_⟩
  exact congrArg Except.ok again

theorem plugObject_again (fits : Request.Fits root) {x : Plug} {send : Members}
    (agree : ∀ register ∈ plugRegisters x, Agree register next final)
    (ran : jsonPlugObject x (root.getObjectItem (plugStr x)) state = .ok (next, send)) :
    jsonPlugObject x (root.getObjectItem (plugStr x)) final = .ok (final, send) := by
  unfold jsonPlugObject at ran ⊢
  cases found : root.getObjectItem (plugStr x) with
  | none =>
    rw [found] at ran
    cases ran
    rfl
  | some plug =>
    simp only [found] at ran ⊢
    rw [served.switch_again found]
    cases present : plug.getObjectItem (.ofString "setting") with
    | none =>
      simp only [present] at ran ⊢
      cases ran
      rfl
    | some setting =>
      simp only [present] at ran ⊢
      obtain ⟨⟨configured, settingSend⟩, analysed, ran⟩ := Runs.bind_ok.mp ran
      cases ran
      have name : Request.plugName root x = setting.getObjectItem (.ofString "name") := by
        simp [Request.plugName, found, present]
      have asked (y : Slot) : Request.task root x y = (setting.getObjectItem (plugTaskStr y)).bind taskOf := by
        simp [Request.task, found, present]
      exact Runs.bind_ok.mpr ⟨(final, settingSend), served.settingAnalysis_again fits name asked agree analysed, rfl⟩

theorem plugAnalysis_again (fits : Request.Fits root) {x : Plug} {work after : State × Members}
    (agree : ∀ register ∈ plugRegisters x, Agree register after.1 final)
    (ran : jsonPlugAnalysis root work x = .ok after) : jsonPlugAnalysis root (final, work.2) x = .ok (final, after.2) := by
  obtain ⟨⟨updated, plugSend⟩, analysed, ran⟩ := Runs.bind_ok.mp ran
  cases ran
  have position : final.switch x = updated.switch x := agree (.switch x) (by simp [plugRegisters])
  have record : (final.uConfig.plug x).on = (updated.uConfig.plug x).on := congrArg Switch.record position
  refine Runs.bind_ok.mpr ⟨(final, plugSend), served.plugObject_again fits agree analysed, ?_⟩
  simp only [record]
  rfl

theorem plugs_again (fits : Request.Fits root) {plugs : List Plug} (once : (plugs.flatMap plugRegisters).Nodup)
    {work after : State × Members}
    (agree : ∀ x ∈ plugs, ∀ register ∈ plugRegisters x, Agree register after.1 final)
    (looped : plugs.foldlM (jsonPlugAnalysis root) work = .ok after) :
    plugs.foldlM (jsonPlugAnalysis root) (final, work.2) = .ok (final, after.2) := by
  induction plugs generalizing work with
  | nil => cases looped; rfl
  | cons x plugs ih =>
    obtain ⟨passed, ran, rest⟩ := IndexedLoop.foldlM_cons.mp looped
    rw [List.flatMap_cons] at once
    obtain ⟨-, once, apart⟩ := List.nodup_append.mp once
    have here : ∀ register ∈ plugRegisters x, Agree register passed.1 final := by
      intro register member
      have untouched : register ∉ plugs.flatMap plugRegisters := fun later => apart register member register later rfl
      exact (writes_agree fits (plugs_writes rest) untouched).trans (agree x (by simp) register member)
    have again := ih once (fun plug member => agree plug (by simp [member])) rest
    exact IndexedLoop.foldlM_cons.mpr ⟨(final, passed.2), served.plugAnalysis_again fits here ran, again⟩

end Served

theorem registers_closed (fits : Request.Fits root) (closed : Closed state)
    (registers : next.registers = deliver Request.printed state.registers root) : Closed next := by
  intro field
  have told : (field.array next.uConfig).text =
      ((Request.text root field).bind CText.sprintf).getD (field.array state.uConfig).text :=
    congrFun registers (.text field)
  rw [told]
  cases asked : Request.text root field with
  | none => exact closed field
  | some format =>
    cases printed : CText.sprintf format with
    | none =>
      rw [Option.bind_some, printed]
      exact closed field
    | some text =>
      rw [Option.bind_some, printed]
      exact fits field format text asked printed

/-- Once the message has been served it finds the state as it leaves it, and says the same again. -/
theorem runCommand_again {reply : CJson} (fits : Request.Fits root) (closed : Closed state)
    (ran : runCommand root state = .ok (next, reply)) : runCommand root next = .ok (next, reply) := by
  have writes := runCommand_writes ran
  obtain ⟨registers, kept⟩ := writes_registers fits writes
  have mac : next.strMac = state.strMac := congrArg Kept.strMac kept
  have served : Served root next :=
    ⟨fun register => writes_hold fits writes allRegisters_nodup register (mem_allRegisters register),
      registers_closed fits closed registers⟩
  unfold runCommand at ran ⊢
  obtain ⟨withMac, macked, ran⟩ := Runs.bind_ok.mp ran
  obtain ⟨withVersion, versioned, ran⟩ := Runs.bind_ok.mp ran
  obtain ⟨work, configured, ran⟩ := Runs.bind_ok.mp ran
  obtain ⟨⟨switched, send⟩, looped, ran⟩ := Runs.bind_ok.mp ran
  obtain ⟨name, named, ran⟩ := Runs.bind_ok.mp ran
  obtain ⟨whole, added, ran⟩ := Runs.bind_ok.mp ran
  cases ran
  obtain ⟨-, once, apart⟩ := List.nodup_append.mp allRegisters_nodup
  have settings : ∀ register ∈ settingRegisters, Agree register work.1 next := by
    intro register member
    exact writes_agree fits (plugs_writes looped) fun later => apart register member register later rfl
  have plugs := served.plugs_again fits once (fun x _ register _ => .refl register next) looped
  rw [← mac] at macked
  exact Runs.bind_ok.mpr ⟨withMac, macked, Runs.bind_ok.mpr ⟨withVersion, versioned, Runs.bind_ok.mpr
    ⟨(next, work.2), served.settingSection_again settings configured, Runs.bind_ok.mpr ⟨(next, send), plugs,
      Runs.bind_ok.mpr ⟨name, named, Runs.bind_ok.mpr ⟨whole, added, rfl⟩⟩⟩⟩⟩⟩

theorem internal_closed : StoreRules.Internal Closed where
  relay state i y closed field := by
    rw [userRelaySet_uConfig, array_setOn]
    exact closed field
  task state x y task closed field := by
    rw [array_setTask]
    exact closed field

theorem step_closed {event : Event} (fits : event.Fits) (closed : Closed state)
    (stepped : step state event = .ok next) : Closed next := by
  cases StoreRules.step_cases stepped with
  | command accepted commanded => exact registers_closed fits closed (runCommand_registers fits commanded).1
  | switchPage found looped =>
    exact registers_closed (DeviceSteps.switchRoot_fits _) closed (DeviceSteps.switchPlugs_registers looped).1
  | ignored unasked message same => rw [same]; exact closed
  | keyPress same => rw [same]; exact internal_closed.keyShortPress closed
  | scan same => rw [same]; exact internal_closed.scanTasks closed

theorem boot_closed (strMac strIp : CStr) : Closed (boot strMac strIp) := by
  intro field
  cases field with
  | plugName x =>
    have ended : ((boot strMac strIp).uConfig.plug x).name 7 = 0 := rfl
    exact Nat.lt_of_le_of_lt (CharArray.text_length_le _ ended) (by decide)
  | mqttIp | mqttUser | mqttPassword =>
    have short : CharArray.text (fun _ : Fin 32 => (0 : UInt8)) = ⟨[], List.not_mem_nil⟩ := by decide
    exact (congrArg CStr.length short).trans_lt (by decide)

theorem run_closed {strMac strIp : CStr} {events : List Event} (fits : ∀ event ∈ events, event.Fits)
    (reached : Runs.run step (boot strMac strIp) events = .ok state) : Closed state := by
  have conforms : Runs.Meets step (fun _ event => event.Fits) (boot strMac strIp) events :=
    Runs.Meets.of_events fun _ event member => fits event member
  have along : Runs.Along step Closed (boot strMac strIp) events := by
    apply conforms.along _ (boot_closed strMac strIp)
    intro current event next kept fits stepped
    exact step_closed fits kept stepped
  exact along.final reached

theorem runCommand_name {reply : CJson} (ran : runCommand root state = .ok (next, reply)) :
    ∃ name, next.name = .ok name := by
  unfold runCommand at ran
  obtain ⟨withMac, -, ran⟩ := Runs.bind_ok.mp ran
  obtain ⟨withVersion, -, ran⟩ := Runs.bind_ok.mp ran
  obtain ⟨work, -, ran⟩ := Runs.bind_ok.mp ran
  obtain ⟨⟨switched, send⟩, -, ran⟩ := Runs.bind_ok.mp ran
  obtain ⟨name, named, ran⟩ := Runs.bind_ok.mp ran
  obtain ⟨whole, -, ran⟩ := Runs.bind_ok.mp ran
  cases ran
  exact ⟨name, named⟩

/-- A copy of a command changes nothing and is answered as the command was. A device report that goes with the
answer may give another name, the one the command has set. -/
theorem command_again {outcome : Outcome} (fits : Request.Fits root) (closed : Closed state)
    (ran : userFunctionCmdReceived (some root) state = .ok outcome) : ∃ report,
      userFunctionCmdReceived (some root) outcome.state = .ok ⟨outcome.state, report, outcome.reply⟩ := by
  by_cases accepted : isAccepted root state = true
  · obtain ⟨reply, commanded, replied⟩ := accepted_ran accepted ran
    have kept := (runCommand_registers fits commanded).2
    have mac : outcome.state.strMac = state.strMac := congrArg Kept.strMac kept
    have again : isAccepted root outcome.state = true := by
      rw [isAccepted, mac]
      exact accepted
    obtain ⟨report, reported⟩ := CommandDefined.reportSection_defined root fun _ => runCommand_name commanded
    rw [replied]
    exact ⟨report, CommandDefined.accepted_served again reported (runCommand_again fits closed commanded)⟩
  · obtain ⟨same, silent⟩ := refused_state (by simpa using accepted) ran
    rw [same, silent]
    refine ⟨outcome.report, ?_⟩
    rw [ran, ← same, ← silent]

/-- The events as they arrive when the network delivers some commands more than once, each time at once. -/
inductive Redelivered : List Event → List Event → Prop where
  | nil : Redelivered [] []
  | once {sent delivered : List Event} (event : Event) (rest : Redelivered sent delivered) :
      Redelivered (event :: sent) (event :: delivered)
  | again {sent delivered : List Event} (pJsonRoot : Option CJson)
      (rest : Redelivered (.command pJsonRoot :: sent) delivered) :
      Redelivered (.command pJsonRoot :: sent) (.command pJsonRoot :: delivered)

theorem step_again {pJsonRoot : Option CJson} (fits : Event.Fits (.command pJsonRoot)) (closed : Closed state)
    (stepped : step state (.command pJsonRoot) = .ok next) : step next (.command pJsonRoot) = .ok next := by
  obtain ⟨outcome, ran, stepped⟩ := Runs.bind_ok.mp stepped
  cases stepped
  cases pJsonRoot with
  | none => cases ran; rfl
  | some root =>
    obtain ⟨report, again⟩ := command_again fits closed ran
    exact Runs.bind_ok.mpr ⟨_, again, rfl⟩

theorem redelivered_run {sent delivered : List Event} (redelivered : Redelivered sent delivered)
    (fits : ∀ event ∈ sent, event.Fits) (closed : Closed state) (reached : Runs.run step state sent = .ok next) :
    Runs.run step state delivered = .ok next := by
  induction redelivered generalizing state with
  | nil => exact reached
  | once event rest ih =>
    obtain ⟨middle, stepped, reached⟩ := Runs.bind_ok.mp reached
    have kept := step_closed (fits event (by simp)) closed stepped
    exact Runs.bind_ok.mpr ⟨middle, stepped, ih (fun other member => fits other (by simp [member])) kept reached⟩
  | again pJsonRoot rest ih =>
    obtain ⟨middle, stepped, onward⟩ := Runs.bind_ok.mp reached
    have fitting := fits (.command pJsonRoot) (by simp)
    have kept := step_closed fitting closed stepped
    -- From the state the first copy leaves, the remaining copies start with one that changes nothing.
    have repeated := Runs.run_cons.mpr ⟨middle, step_again fitting closed stepped, onward⟩
    exact Runs.bind_ok.mpr ⟨middle, stepped, ih fits kept repeated⟩

/-- However often the network repeats commands, the settings come out as if each had arrived once, and every
repetition of a command is answered as the command was. -/
theorem redelivery_harmless (strMac strIp : CStr) (sent : List Event) (last : State) (fits : ∀ event ∈ sent, event.Fits)
    (reached : Runs.run step (boot strMac strIp) sent = .ok last) :
    (∀ delivered, Redelivered sent delivered → Runs.run step (boot strMac strIp) delivered = .ok last) ∧
      ∀ root outcome, Request.Fits root → userFunctionCmdReceived (some root) last = .ok outcome → ∃ report,
        userFunctionCmdReceived (some root) outcome.state = .ok ⟨outcome.state, report, outcome.reply⟩ := by
  constructor
  · intro delivered redelivered
    exact redelivered_run redelivered fits (boot_closed strMac strIp) reached
  · intro root outcome small ran
    exact command_again small (run_closed fits reached) ran

def setAndPress : List Event := [.command (some (exampleTask ⟨7, 30, 127, 1, 1⟩)), .keyPress]

theorem redelivery_harmless_press : ∃ last,
    (∀ delivered, Redelivered setAndPress delivered → Runs.run step exampleBoot delivered = .ok last) ∧
      ∀ root outcome, Request.Fits root → userFunctionCmdReceived (some root) last = .ok outcome → ∃ report,
        userFunctionCmdReceived (some root) outcome.state = .ok ⟨outcome.state, report, outcome.reply⟩ := by
  obtain ⟨last, reached, -⟩ : ∃ last, Runs.run step exampleBoot setAndPress = .ok last ∧ relayOut last = true :=
    Runs.map_ok.mp (by decide +kernel)
  have fits : ∀ event ∈ setAndPress, event.Fits := by
    intro event member
    rcases List.mem_cons.mp member with rfl | member
    · exact DeviceSteps.exampleTask_fits _
    · rw [List.mem_singleton.mp member]
      trivial
  exact ⟨last, redelivery_harmless exampleMac (.ofString "192.168.1.20") setAndPress last fits reached⟩

end PhicommTC1.Proofs.RepeatedCommand
