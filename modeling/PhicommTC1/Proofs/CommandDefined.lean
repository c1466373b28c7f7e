import PhicommTC1.Proofs.ReplyShape
import PhicommTC1.Proofs.SettingMemory
import PhicommTC1.Proofs.StoreRules

/-! Where the handler has a defined result. In a sound state every string it reads has an end,
so plain messages are served, but for the `ota` member it passes on unread. -/

namespace PhicommTC1.Proofs.CommandDefined
open CText PhicommTC1 SettingMemory CommandWrites ReplyShape StoreRules
variable {root : CJson} {state next : State}

/-- No read of a string runs past the object it is stored in. -/
structure Sound (state : State) : Prop where
  config : Ended state.uConfig
  deviceid : state.deviceid 31 = 0

theorem Sound.of_same (sound : Sound state) (padding : next.uConfig.padding = state.uConfig.padding)
    (deviceid : next.deviceid = state.deviceid) : Sound next where
  config := (congrFun padding 2).trans sound.config
  deviceid := (congrFun deviceid 31).trans sound.deviceid

theorem Sound.sprintfDeviceid {format : CStr} (sound : Sound state) (stored : sprintfDeviceid format state = .ok next) :
    Sound next := by
  obtain ⟨text, -, short, rfl⟩ := sprintfDeviceid_cases stored
  refine ⟨sound.config, ?_⟩
  change ((text.bytes ++ [0])[31]?).getD (state.deviceid 31) = 0
  simp only [CStr.length] at short
  by_cases full : text.bytes.length = 31
  · rw [List.getElem?_append_right (by omega), full]; rfl
  · rw [List.getElem?_eq_none (by simp only [List.length_append, List.length_singleton]; omega)]
    exact sound.deviceid

theorem Sound.sprintfField {field : TextField} {format : CStr} (sound : Sound state)
    (stored : sprintfField field format state = .ok next) : Sound next := by
  obtain ⟨config, written, stored⟩ := Runs.bind_ok.mp stored
  cases stored
  exact ⟨sprintf_keeps_end sound.config written, sound.deviceid⟩

/-- Every state of a run is sound, even when strings overflow their arrays. -/
theorem soundStores : Preserved Sound where
  relay state i y sound := sound.of_same (by rw [userRelaySet_uConfig]; rfl) (userRelaySet_deviceid i y state)
  deviceid _ _ _ sound stored := sound.sprintfDeviceid stored
  text _ _ _ _ sound stored := sound.sprintfField stored
  mqttPort _ _ sound := sound.of_same rfl rfl
  task _ _ _ _ sound := sound.of_same rfl rfl

/-- Every string of the message can be stored, `ota` can be copied, and what is read back has an end. -/
structure Servable (root : CJson) (state : State) : Prop where
  text : ∀ field format current, Request.text root field = some format →
    ∃ next, sprintfField field format current = .ok next
  deviceid : ∀ format current, Request.deviceid root = some format →
    ∃ next, sprintfDeviceid format current = .ok next
  ota : ¬ Request.OtaUnreadable root
  reads : ∀ register registers current, Writes root registers state current → turns register ⊆ registers →
    mentioned root register = true ∨ register = .deviceid → ∃ item, readBack register current = .ok item

theorem Servable.after {registers : List Register} (servable : Servable root state)
    (writes : Writes root registers state next) : Servable root next where
  text := servable.text
  deviceid := servable.deviceid
  ota := servable.ota
  reads register rest current later past due :=
    servable.reads register (registers ++ rest) current (writes.append later)
      (List.subset_append_of_subset_right _ past) due

theorem storeString_defined {store : CStr → State → Exec State} {p : Option CJson}
    (defined : ∀ format, p.bind CJson.valuestring = some format → ∃ next, store format state = .ok next) :
    ∃ next, storeString store p state = .ok next := by
  unfold storeString
  split
  next format found => exact defined format found
  next => exact ⟨state, rfl⟩

theorem echoString_defined {stored : Exec CStr} {p : Option CJson}
    (readable : p.isSome = true → ∃ item, CJson.string <$> stored = .ok item) (key : CStr) (send : Members) :
    ∃ echoed, echoString key p stored send = .ok echoed := by
  cases p with
  | none => exact ⟨send, rfl⟩
  | some member =>
    obtain ⟨item, read⟩ := readable rfl
    obtain ⟨text, stored, -⟩ := Runs.map_ok.mp read
    exact ⟨_, Runs.bind_ok.mpr ⟨text, stored, rfl⟩⟩

theorem storeSetting_defined (servable : Servable root state) {pSetting : CJson}
    (found : root.getObjectItem (.ofString "setting") = some pSetting) :
    ∃ next, storeSetting pSetting state = .ok next := by
  have member (key : CStr) : Request.setting root key = pSetting.getObjectItem key := by
    simp [Request.setting, found]
  have text (field : TextField) (key : CStr) (before : State)
      (asked : Request.text root field = (pSetting.getObjectItem key).bind CJson.valuestring) :
      ∃ after, storeString (sprintfField field) (pSetting.getObjectItem key) before = .ok after :=
    storeString_defined fun format present => servable.text field format before (asked.trans present)
  obtain ⟨named, name⟩ : ∃ named, storeString sprintfDeviceid (pSetting.getObjectItem (.ofString "name")) state =
      .ok named := by
    apply storeString_defined
    intro format present
    exact servable.deviceid format state (by rw [Request.deviceid, member, present])
  obtain ⟨withIp, ip⟩ := text .mqttIp (.ofString "mqtt_uri") named (congrArg (·.bind CJson.valuestring) (member _))
  obtain ⟨withUser, user⟩ := text .mqttUser (.ofString "mqtt_user") _
    (congrArg (·.bind CJson.valuestring) (member _))
  obtain ⟨next, password⟩ := text .mqttPassword (.ofString "mqtt_password") withUser
    (congrArg (·.bind CJson.valuestring) (member _))
  exact ⟨next, Runs.bind_ok.mpr ⟨named, name, Runs.bind_ok.mpr ⟨withIp, ip,
    Runs.bind_ok.mpr ⟨withUser, user, password⟩⟩⟩⟩

theorem echoOta_defined {pOta : Option CJson} (readable : ∀ ota, pOta = some ota → ota.valuestring ≠ none) :
    ∃ send, echoOta pOta [] = .ok send := by
  unfold echoOta
  split
  next ota =>
    obtain ⟨text, value⟩ := Option.ne_none_iff_exists'.mp (readable ota rfl)
    rw [value]
    exact ⟨_, rfl⟩
  next => exact ⟨_, rfl⟩

theorem echoSetting_defined {pSetting : CJson} (servable : Servable root state)
    (found : root.getObjectItem (.ofString "setting") = some pSetting) {stored : State}
    (writes : Writes root settingRegisters state stored) : ∃ send, echoSetting pSetting stored = .ok send := by
  have readable (register : Register) (member : register ∈ settingRegisters) (key : CStr)
      (due : mentioned root register = (find root [.ofString "setting", key]).isSome) :
      (pSetting.getObjectItem key).isSome = true → ∃ item, readBack register stored = .ok item := by
    intro present
    apply servable.reads register settingRegisters stored writes (turns_settings member)
    left
    simpa [due, find, found] using present
  have echoable (ota : CJson) (present : pSetting.getObjectItem (.ofString "ota") = some ota)
      (unread : ota.valuestring = none) : False :=
    servable.ota ⟨ota, by simp [Request.setting, found, present], unread⟩
  obtain ⟨withOta, ota⟩ := echoOta_defined echoable
  obtain ⟨withName, name⟩ := echoString_defined
    (readable .deviceid (by simp [settingRegisters]) (.ofString "name") rfl) (.ofString "name") withOta
  obtain ⟨withIp, ip⟩ := echoString_defined
    (readable (.text .mqttIp) (by simp [settingRegisters]) (.ofString "mqtt_uri") rfl) (.ofString "mqtt_uri") withName
  obtain ⟨withUser, user⟩ := echoString_defined
    (readable (.text .mqttUser) (by simp [settingRegisters]) (.ofString "mqtt_user") rfl) (.ofString "mqtt_user")
    (echoMqttPort (pSetting.getObjectItem (.ofString "mqtt_port")) stored.uConfig withIp)
  obtain ⟨send, password⟩ := echoString_defined
    (readable (.text .mqttPassword) (by simp [settingRegisters]) (.ofString "mqtt_password") rfl)
    (.ofString "mqtt_password") withUser
  exact ⟨send, Runs.bind_ok.mpr ⟨withOta, ota, Runs.bind_ok.mpr ⟨withName, name, Runs.bind_ok.mpr ⟨withIp, ip,
    Runs.bind_ok.mpr ⟨withUser, user, password⟩⟩⟩⟩⟩

theorem settingSection_defined {work : State × Members} (servable : Servable root work.1) :
    ∃ after, settingSection (root.getObjectItem (.ofString "setting")) work = .ok after := by
  unfold settingSection
  split
  next => exact ⟨_, rfl⟩
  next pSetting found =>
    obtain ⟨stored, stores⟩ := storeSetting_defined servable found
    obtain ⟨send, echoes⟩ := echoSetting_defined servable found (storeSetting_writes found stores)
    exact ⟨_, Runs.bind_ok.mpr ⟨stored, stores, Runs.bind_ok.mpr ⟨send, echoes, rfl⟩⟩⟩

theorem plugAnalysis_defined {work : State × Members} (servable : Servable root work.1) (x : Plug) :
    ∃ after, jsonPlugAnalysis root work x = .ok after := by
  suffices object : ∃ after, jsonPlugObject x (root.getObjectItem (plugStr x)) work.1 = .ok after by
    obtain ⟨after, ran⟩ := object
    exact ⟨_, Runs.bind_ok.mpr ⟨after, ran, rfl⟩⟩
  unfold jsonPlugObject
  split
  next => exact ⟨_, rfl⟩
  next plug found =>
    dsimp only
    split
    next => exact ⟨_, rfl⟩
    next setting present =>
      have name : Request.plugName root x = setting.getObjectItem (.ofString "name") := by
        simp [Request.plugName, found, present]
      have asked : Request.text root (.plugName x) =
          (setting.getObjectItem (.ofString "name")).bind CJson.valuestring :=
        congrArg (·.bind CJson.valuestring) name
      obtain ⟨named, stored⟩ : ∃ named, storeString (sprintfField (.plugName x))
          (setting.getObjectItem (.ofString "name"))
          (switchPlug x (plug.getObjectItem (.ofString "on")) work.1) = .ok named :=
        storeString_defined fun format given => servable.text _ format _ (asked.trans given)
      have readable (given : (setting.getObjectItem (.ofString "name")).isSome = true) :
          ∃ item, readBack (.text (.plugName x)) named = .ok item := by
        have writes : Writes root [.switch x, .text (.plugName x)] work.1 named :=
          .cons (switchPlug_writes found) (.one (storeText_writes asked stored))
        apply servable.reads (.text (.plugName x)) _ named writes (by simp [turns])
        left
        simpa [mentioned, path, part, within, find, found, present] using given
      obtain ⟨echoed, echo⟩ := echoString_defined readable (.ofString "name") []
      exact ⟨_, Runs.bind_ok.mpr ⟨_, Runs.bind_ok.mpr ⟨named, stored, Runs.bind_ok.mpr ⟨echoed, echo, rfl⟩⟩, rfl⟩⟩

theorem versionSection_defined (pVersion : Option CJson) (send : Members) :
    ∃ after, versionSection pVersion send = .ok after := by
  cases pVersion with
  | none => exact ⟨send, rfl⟩
  | some member => exact ⟨_, rfl⟩

theorem plugs_defined {work : State × Members} (servable : Servable root work.1) :
    ∃ after, (List.finRange 6).foldlM (jsonPlugAnalysis root) work = .ok after := by
  have plug (work : State × Members) (x : Plug) (holds : Servable root work.1) :
      ∃ after, jsonPlugAnalysis root work x = .ok after ∧ Servable root after.1 := by
    obtain ⟨after, ran⟩ := plugAnalysis_defined holds x
    exact ⟨after, ran, holds.after (plugAnalysis_writes ran)⟩
  obtain ⟨after, looped, -⟩ := IndexedLoop.foldlM_succeeds (fun work : State × Members => Servable root work.1)
    plug (List.finRange 6) servable
  exact ⟨after, looped⟩

theorem runCommand_defined (servable : Servable root state) : ∃ result, runCommand root state = .ok result := by
  obtain ⟨withVersion, versioned⟩ := versionSection_defined (root.getObjectItem (.ofString "version"))
    (Members.addItem [] (.ofString "mac") (.string state.strMac))
  obtain ⟨work, configured⟩ := settingSection_defined (show Servable root (state, withVersion).1 from servable)
  obtain ⟨after, looped⟩ := plugs_defined (servable.after (settingSection_writes configured))
  have writes := (settingSection_writes configured).append (plugs_writes looped)
  obtain ⟨item, read⟩ := servable.reads .deviceid _ after.1 writes
    (by simp [turns, settingRegisters]) (.inr rfl)
  obtain ⟨name, named, -⟩ := Runs.map_ok.mp read
  unfold runCommand
  exact ⟨_, Runs.bind_ok.mpr ⟨_, rfl, Runs.bind_ok.mpr ⟨withVersion, versioned, Runs.bind_ok.mpr ⟨work, configured,
    Runs.bind_ok.mpr ⟨after, looped, Runs.bind_ok.mpr ⟨name, named, rfl⟩⟩⟩⟩⟩⟩

theorem Sound.name_defined (sound : Sound state) : ∃ text, state.name = .ok text :=
  ⟨_, readCStr_ok (List.mem_ofFn.mpr ⟨31, sound.deviceid⟩)⟩

theorem Sound.readBack_defined (sound : Sound state) (register : Register) :
    ∃ item, readBack register state = .ok item := by
  cases register with
  | text field =>
    obtain ⟨text, read⟩ := read_ok sound.config field
    exact ⟨_, Runs.map_ok.mpr ⟨text, read, rfl⟩⟩
  | deviceid =>
    obtain ⟨name, named⟩ := sound.name_defined
    exact ⟨_, Runs.map_ok.mpr ⟨name, named, rfl⟩⟩
  | _ => exact ⟨_, rfl⟩

theorem sprintfDeviceid_defined {format : CStr} (short : format.length ≤ 31) (noPercent : 37 ∉ format.bytes) :
    ∃ next, sprintfDeviceid format state = .ok next := by
  unfold sprintfDeviceid
  simp only [sprintf_plain noPercent]
  rw [if_pos (by omega)]
  exact ⟨_, rfl⟩

theorem sprintfField_defined {format : CStr} (field : TextField) (short : format.length ≤ 31)
    (noPercent : 37 ∉ format.bytes) : ∃ next, sprintfField field format state = .ok next := by
  have written := sprintf_fits field state.uConfig (sprintf_plain noPercent) (by omega)
  exact ⟨_, Runs.bind_ok.mpr ⟨_, written, rfl⟩⟩

theorem Servable.of_plain (plain : Request.Plain root) (readable : ¬ Request.OtaUnreadable root)
    (reads : ∀ register registers current, Writes root registers state current → turns register ⊆ registers →
      mentioned root register = true ∨ register = .deviceid → ∃ item, readBack register current = .ok item) :
    Servable root state where
  text field format _ asked := sprintfField_defined field (plain.1 field format asked).1 (plain.1 field format asked).2
  deviceid format _ asked := sprintfDeviceid_defined (plain.2 format asked).1 (plain.2 format asked).2
  ota := readable
  reads := reads

theorem Sound.servable (sound : Sound state) (plain : Request.Plain root)
    (readable : ¬ Request.OtaUnreadable root) : Servable root state :=
  .of_plain plain readable fun register _ _ writes _ _ => (soundStores.writes sound writes).readBack_defined register

theorem reportSection_defined (root : CJson) (named : isDeviceReport root = true → ∃ text, state.name = .ok text) :
    ∃ report, reportSection root state = .ok report := by
  unfold reportSection
  split
  next asked =>
    obtain ⟨name, read⟩ := named asked
    simp only [deviceReport, read]
    exact ⟨_, rfl⟩
  next => exact ⟨none, rfl⟩

theorem accepted_served {report : Option CJson} {reply : CJson} (accepted : isAccepted root state = true)
    (reported : reportSection root state = .ok report) (ran : runCommand root state = .ok (next, reply)) :
    userFunctionCmdReceived (some root) state = .ok ⟨next, report, some reply⟩ := by
  refine Runs.bind_ok.mpr ⟨report, reported, ?_⟩
  rw [if_pos accepted]
  exact Runs.bind_ok.mpr ⟨(next, reply), ran, rfl⟩

theorem refused_served {report : Option CJson} (refused : isAccepted root state = false)
    (reported : reportSection root state = .ok report) :
    userFunctionCmdReceived (some root) state = .ok ⟨state, report, none⟩ := by
  refine Runs.bind_ok.mpr ⟨report, reported, ?_⟩
  rw [if_neg (by simp [refused])]
  rfl

theorem runCommand_readable {reply : CJson} (ran : runCommand root state = .ok (next, reply)) :
    ¬ Request.OtaUnreadable root := by
  intro unreadable
  obtain ⟨ota, member, unread⟩ := unreadable
  obtain ⟨withVersion, work, send, configured, -⟩ := runCommand_parts ran
  cases found : root.getObjectItem (.ofString "setting") with
  | none => simp [Request.setting, found] at member
  | some pSetting =>
    have present : pSetting.getObjectItem (.ofString "ota") = some ota := by
      simpa [Request.setting, found] using member
    rw [found] at configured
    obtain ⟨stored, -, configured⟩ := Runs.bind_ok.mp configured
    obtain ⟨send, echoed, -⟩ := Runs.bind_ok.mp configured
    obtain ⟨withOta, ota, -⟩ := Runs.bind_ok.mp echoed
    simp only [echoOta, present, unread, Members.addString] at ota
    cases ota

/-- The message says nothing that cannot be served: its strings are printed into at most 31 bytes each, and its
`ota` is a string. -/
structure Printable (root : CJson) : Prop where
  text : ∀ field format, Request.text root field = some format →
    ∃ text, CText.sprintf format = some text ∧ text.length < 32
  deviceid : ∀ format, Request.deviceid root = some format →
    ∃ text, CText.sprintf format = some text ∧ text.length < 32
  ota : ¬ Request.OtaUnreadable root

/-- What a message that was served said could be served, in whatever state it was. -/
theorem Printable.of_ran {reply : CJson} (fits : Request.Fits root) (ran : runCommand root state = .ok (next, reply)) :
    Printable root where
  text field format asked := by
    obtain ⟨-, -, before, after, -, -, write, -⟩ := (runCommand_writes ran).split (mem_allRegisters (.text field))
    cases write with
    | unasked silent => cases silent.symm.trans asked
    | text again stored =>
      cases Option.some.inj (again.symm.trans asked)
      obtain ⟨config, written, -⟩ := Runs.bind_ok.mp stored
      cases printed : CText.sprintf format with
      | none => simp only [TextField.sprintf, printed] at written; cases written
      | some text => exact ⟨text, rfl, fits field format text asked printed⟩
  deviceid format asked := by
    obtain ⟨-, -, before, after, -, -, write, -⟩ := (runCommand_writes ran).split (mem_allRegisters .deviceid)
    cases write with
    | unasked silent => cases silent.symm.trans asked
    | deviceid again stored =>
      cases Option.some.inj (again.symm.trans asked)
      obtain ⟨text, printed, short, -⟩ := sprintfDeviceid_cases stored
      exact ⟨text, printed, short⟩
  ota := runCommand_readable ran

theorem Sound.servable_printable (sound : Sound state) (printable : Printable root) : Servable root state where
  text field format current asked := by
    obtain ⟨text, printed, short⟩ := printable.text field format asked
    exact ⟨_, Runs.bind_ok.mpr ⟨_, sprintf_fits field current.uConfig printed short, rfl⟩⟩
  deviceid format current asked := by
    obtain ⟨text, printed, short⟩ := printable.deviceid format asked
    unfold PhicommTC1.sprintfDeviceid
    simp only [printed, if_pos short]
    exact ⟨_, rfl⟩
  ota := printable.ota
  reads register _ _ writes _ _ := (soundStores.writes sound writes).readBack_defined register

theorem Sound.command_served (sound : Sound state) (printable : Printable root) :
    ∃ outcome, userFunctionCmdReceived (some root) state = .ok outcome := by
  obtain ⟨report, reported⟩ := reportSection_defined root fun _ => sound.name_defined
  by_cases accepted : isAccepted root state = true
  · obtain ⟨result, ran⟩ := runCommand_defined (sound.servable_printable printable)
    exact ⟨_, accepted_served accepted reported ran⟩
  · exact ⟨_, refused_served (by simpa using accepted) reported⟩

/-- In a sound state a plain message is served unless it is accepted and its `ota` is no string. -/
theorem command_defined_iff (sound : Sound state) (plain : Request.Plain root) :
    (∃ outcome, userFunctionCmdReceived (some root) state = .ok outcome) ↔
      ¬ (isAccepted root state = true ∧ Request.OtaUnreadable root) := by
  constructor
  · intro defined unreadable
    obtain ⟨outcome, ran⟩ := defined
    obtain ⟨accepted, unreadable⟩ := unreadable
    obtain ⟨reply, commanded, -⟩ := accepted_ran accepted ran
    exact runCommand_readable commanded unreadable
  · intro served
    obtain ⟨report, reported⟩ := reportSection_defined root fun _ => sound.name_defined
    by_cases accepted : isAccepted root state = true
    · obtain ⟨result, ran⟩ := runCommand_defined (sound.servable plain fun unread => served ⟨accepted, unread⟩)
      exact ⟨_, accepted_served accepted reported ran⟩
    · exact ⟨_, refused_served (by simpa using accepted) reported⟩

end PhicommTC1.Proofs.CommandDefined
