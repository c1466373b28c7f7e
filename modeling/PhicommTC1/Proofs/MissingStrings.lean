import PhicommTC1.Foundation.Faults
import PhicommTC1.Proofs.DeviceSteps
import PhicommTC1.Proofs.StringStores

/-! The handler and missing strings. Every string it uses it has tested or stored itself, but for
the `ota` member, which it echoes whatever it is. -/

namespace PhicommTC1.Proofs.MissingStrings
open CText Faults PhicommTC1 CommandDefined CommandWrites CommandEffect DeviceSteps SettingMemory StringStores
variable {root pSetting : CJson} {state next : State}

abbrev NeverNull {α : Type} (computation : Exec α) : Prop := Avoids Fault.nullString computation

theorem readCStr_never (bytes : List UInt8) : NeverNull (readCStr bytes) := by
  unfold readCStr
  split
  · exact .ok _
  · exact .other (by decide)

theorem store_never (config : UConfig) (offset : Nat) (bytes : List UInt8) : NeverNull (config.store offset bytes) := by
  induction bytes generalizing config offset with
  | nil => exact .ok config
  | cons byte bytes ih =>
    unfold UConfig.store
    split
    · exact ih _ _
    · exact .other (by decide)

theorem sprintfField_never (field : TextField) (format : CStr) (state : State) :
    NeverNull (sprintfField field format state) := by
  have store : NeverNull (field.sprintf format state.uConfig) := by
    unfold TextField.sprintf
    split
    · exact .other (by decide)
    · exact store_never _ _ _
  exact store.bind fun config _ => .ok _

theorem sprintfDeviceid_never (format : CStr) (state : State) : NeverNull (sprintfDeviceid format state) := by
  unfold sprintfDeviceid
  split
  · exact .other (by decide)
  · split
    · exact .ok _
    · exact .other (by decide)

theorem storeString_never {store : CStr → State → Exec State} (never : ∀ format state, NeverNull (store format state))
    (p : Option CJson) (state : State) : NeverNull (storeString store p state) := by
  unfold storeString
  split
  · exact never _ state
  · exact .ok state

theorem echoString_never {stored : Exec CStr} (never : NeverNull stored) (key : CStr) (p : Option CJson)
    (send : Members) : NeverNull (echoString key p stored send) := by
  unfold echoString
  split
  · exact never.bind fun text _ => .ok _
  · exact .ok send

theorem storeSetting_never (pSetting : CJson) (state : State) : NeverNull (storeSetting pSetting state) := by
  have field (field : TextField) (p : Option CJson) (state : State) :
      NeverNull (storeString (sprintfField field) p state) := storeString_never (sprintfField_never field) p state
  apply (storeString_never sprintfDeviceid_never _ state).bind
  intro named _
  apply (field .mqttIp _ named).bind
  intro withIp _
  apply (field .mqttUser _ _).bind
  intro withUser _
  exact field .mqttPassword _ withUser

theorem plugAnalysis_never (root : CJson) (work : State × Members) (x : Plug) :
    NeverNull (jsonPlugAnalysis root work x) := by
  have setting (pPlugSetting : CJson) (state : State) : NeverNull (jsonPlugSettingAnalysis x pPlugSetting state) := by
    apply (storeString_never (sprintfField_never (.plugName x)) _ state).bind
    intro named _
    apply (echoString_never (readCStr_never _) _ _ []).bind
    intro send _
    exact .ok _
  have object : NeverNull (jsonPlugObject x (root.getObjectItem (plugStr x)) work.1) := by
    unfold jsonPlugObject
    split
    · exact .ok _
    · dsimp only
      split
      · exact .ok _
      · exact (setting _ _).bind fun result _ => .ok _
  exact object.bind fun result _ => .ok _

theorem echoSetting_never (readable : ∀ ota, pSetting.getObjectItem (.ofString "ota") = some ota →
    ota.valuestring ≠ none) (state : State) : NeverNull (echoSetting pSetting state) := by
  have ota : NeverNull (echoOta (pSetting.getObjectItem (.ofString "ota")) []) := by
    obtain ⟨send, echoed⟩ := echoOta_defined readable
    rw [echoed]
    exact .ok send
  have field (field : TextField) := echoString_never (readCStr_never (state.uConfig.bytes.drop field.offset))
  apply ota.bind
  intro withOta _
  apply (echoString_never (readCStr_never _) _ _ withOta).bind
  intro withName _
  apply (field .mqttIp _ _ withName).bind
  intro withIp _
  apply (field .mqttUser _ _ _).bind
  intro withUser _
  exact field .mqttPassword _ _ withUser

theorem echoSetting_null {ota : CJson} (found : pSetting.getObjectItem (.ofString "ota") = some ota)
    (unread : ota.valuestring = none) (state : State) : echoSetting pSetting state = .error .nullString := by
  have raised : echoOta (pSetting.getObjectItem (.ofString "ota")) [] = .error .nullString := by
    rw [found]
    simp only [echoOta, unread, Members.addString]
  exact bind_raises raised _

/-- `sprintf` of a field has a result: no conversion, and no byte behind the structure. -/
def Storable (field : TextField) (format : CStr) : Prop :=
  ∃ text, CText.sprintf format = some text ∧ field.offset + text.length < sizeofUConfig

def StorableDeviceid (format : CStr) : Prop := ∃ text, CText.sprintf format = some text ∧ text.length < 32

def SettingStorable (root : CJson) : Prop :=
  (∀ format, Request.deviceid root = some format → StorableDeviceid format) ∧
  (∀ format, Request.text root .mqttIp = some format → Storable .mqttIp format) ∧
  (∀ format, Request.text root .mqttUser = some format → Storable .mqttUser format) ∧
  ∀ format, Request.text root .mqttPassword = some format → Storable .mqttPassword format

theorem sprintfField_defined_iff (field : TextField) (format : CStr) (state : State) :
    (∃ next, sprintfField field format state = .ok next) ↔ Storable field format := by
  have length (text : CStr) : (text.bytes ++ [0]).length = text.length + 1 := by simp [CStr.length]
  constructor
  · intro defined
    obtain ⟨next, stored⟩ := defined
    obtain ⟨text, config, printed, copied, -⟩ := sprintfField_cases stored
    have last : text.length < (text.bytes ++ [0]).length := by
      rw [length]
      exact Nat.lt_succ_self _
    exact ⟨text, printed, (store_defined_iff _ _ _).mp ⟨config, copied⟩ text.length last⟩
  · intro storable
    obtain ⟨text, printed, room⟩ := storable
    have inside : ∀ position < (text.bytes ++ [0]).length, field.offset + position < sizeofUConfig := by
      intro position early
      rw [length] at early
      omega
    obtain ⟨config, copied⟩ := (store_defined_iff state.uConfig _ _).mpr inside
    refine ⟨{ state with uConfig := config }, ?_⟩
    rw [sprintfField_eq printed, copied]
    rfl

theorem sprintfDeviceid_defined_iff (format : CStr) (state : State) :
    (∃ next, sprintfDeviceid format state = .ok next) ↔ StorableDeviceid format := by
  unfold sprintfDeviceid StorableDeviceid
  cases CText.sprintf format with
  | none => simp
  | some text =>
    dsimp only
    split
    next short => simp [short]
    next long => simp [long]

theorem storeString_defined_iff {store : CStr → State → Exec State} {storable : CStr → Prop}
    (each : ∀ format state, (∃ next, store format state = .ok next) ↔ storable format) {asked : Option CStr}
    {p : Option CJson} (same : asked = p.bind CJson.valuestring) (state : State) :
    (∃ next, storeString store p state = .ok next) ↔ ∀ format, asked = some format → storable format := by
  unfold storeString
  rw [same]
  cases p.bind CJson.valuestring with
  | none => simp
  | some format => simp [each]

theorem storeSetting_defined_iff (found : root.getObjectItem (.ofString "setting") = some pSetting) (state : State) :
    (∃ next, storeSetting pSetting state = .ok next) ↔ SettingStorable root := by
  have member (key : CStr) : Request.setting root key = pSetting.getObjectItem key := by
    simp [Request.setting, found]
  have text (key : CStr) : (Request.setting root key).bind CJson.valuestring =
      (pSetting.getObjectItem key).bind CJson.valuestring := congrArg (·.bind CJson.valuestring) (member key)
  apply bind_defined_iff (storeString_defined_iff sprintfDeviceid_defined_iff (text _) state)
  intro named
  apply bind_defined_iff (storeString_defined_iff (sprintfField_defined_iff .mqttIp) (text _) named)
  intro withIp
  apply bind_defined_iff (storeString_defined_iff (sprintfField_defined_iff .mqttUser) (text _) _)
  intro withUser
  exact storeString_defined_iff (sprintfField_defined_iff .mqttPassword) (text _) withUser

theorem settingSection_never_iff (root : CJson) (work : State × Members) :
    NeverNull (settingSection (root.getObjectItem (.ofString "setting")) work) ↔
      ¬ (Request.OtaUnreadable root ∧ SettingStorable root) := by
  cases found : root.getObjectItem (.ofString "setting") with
  | none =>
    have absent : ¬ Request.OtaUnreadable root := by
      intro unreadable
      obtain ⟨ota, member, -⟩ := unreadable
      simp [Request.setting, found] at member
    simp only [absent, false_and, not_false_eq_true, iff_true]
    exact .ok work
  | some pSetting =>
    have member (ota : CJson) : Request.setting root (.ofString "ota") = some ota ↔
        pSetting.getObjectItem (.ofString "ota") = some ota := by
      simp [Request.setting, found]
    constructor
    · intro never unreadable
      obtain ⟨⟨ota, present, unread⟩, storable⟩ := unreadable
      obtain ⟨stored, ran⟩ := (storeSetting_defined_iff found work.1).mpr storable
      apply never
      change (storeSetting pSetting work.1 >>= _) = _
      rw [ran]
      exact bind_raises (echoSetting_null ((member ota).mp present) unread stored) _
    · intro readable
      apply (storeSetting_never pSetting work.1).bind
      intro stored ran
      have echo : NeverNull (echoSetting pSetting stored) := by
        apply echoSetting_never
        intro ota present unread
        have defined := (storeSetting_defined_iff found work.1).mp ⟨stored, ran⟩
        exact readable ⟨⟨ota, (member ota).mpr present, unread⟩, defined⟩
      exact echo.bind fun send _ => .ok _

theorem runCommand_never_iff (root : CJson) (state : State) :
    NeverNull (runCommand root state) ↔ ¬ (Request.OtaUnreadable root ∧ SettingStorable root) := by
  obtain ⟨send, versioned⟩ := versionSection_defined (root.getObjectItem (.ofString "version"))
    (Members.addItem [] (.ofString "mac") (.string state.strMac))
  have split : runCommand root state =
      settingSection (root.getObjectItem (.ofString "setting")) (state, send) >>= fun work =>
        (List.finRange 6).foldlM (jsonPlugAnalysis root) work >>= fun after =>
          after.1.name >>= fun name =>
            .ok (after.1, .object (after.2.addItem (.ofString "name") (.string name))) := by
    change (versionSection _ _ >>= _) = _
    rw [versioned]
    rfl
  rw [split]
  constructor
  · intro never unreadable
    apply never
    have reached := mt (settingSection_never_iff root (state, send)).mp (not_not.mpr unreadable)
    exact bind_raises (not_not.mp reached) _
  · intro readable
    apply ((settingSection_never_iff root (state, send)).mpr readable).bind
    intro work _
    apply (Avoids.foldlM (plugAnalysis_never root) _ work).bind
    intro after _
    apply (readCStr_never _).bind
    intro name _
    exact .ok _

/-- In every reachable state a message makes the handler use a missing string exactly when it is
accepted, its `setting.ota` is no string, and the strings beside it can be stored. -/
theorem command_never_null_iff {strMac strIp : CStr} {past : List Event}
    (reached : Runs.run step (boot strMac strIp) past = .ok state) (root : CJson) :
    userFunctionCmdReceived (some root) state ≠ .error .nullString ↔
      ¬ (isAccepted root state = true ∧ Request.OtaUnreadable root ∧ SettingStorable root) := by
  have sound : Sound state := run_sound reached
  obtain ⟨report, reported⟩ := reportSection_defined root fun _ => sound.name_defined
  have split : userFunctionCmdReceived (some root) state =
      if isAccepted root state then runCommand root state >>= fun done => .ok ⟨done.1, report, some done.2⟩
      else .ok ⟨state, report, none⟩ := by
    change (reportSection root state >>= _) = _
    rw [reported]
    rfl
  rw [split]
  cases isAccepted root state with
  | false => simp
  | true =>
    simp only [if_true, true_and]
    rw [← runCommand_never_iff root state]
    constructor
    · intro never raised
      exact never (bind_raises raised _)
    · intro never
      exact never.bind fun done _ => .ok _

/-- `{"mac": …, "setting": {"ota": 0}}` -/
def otaAlone : CJson :=
  .object [(.ofString "mac", .string exampleMac), (.ofString "setting", .object [(.ofString "ota", .number 0)])]

theorem command_never_null_iff_otaAlone : userFunctionCmdReceived (some otaAlone) exampleBoot ≠ .error .nullString ↔
    ¬ (isAccepted otaAlone exampleBoot = true ∧ Request.OtaUnreadable otaAlone ∧ SettingStorable otaAlone) := by
  have booted : Runs.run step exampleBoot [] = .ok exampleBoot := rfl
  exact command_never_null_iff booted otaAlone

theorem otaAlone_uses_missing_string :
    ¬ ∀ (strMac strIp : CStr) (past : List Event) (state : State) (root : CJson),
      Runs.run step (boot strMac strIp) past = .ok state →
      userFunctionCmdReceived (some root) state ≠ .error .nullString := by
  intro assumed
  have raised : (userFunctionCmdReceived (some otaAlone) exampleBoot).map (fun _ => ()) = .error .nullString := by
    decide +kernel
  apply assumed _ _ [] exampleBoot otaAlone rfl
  cases ran : userFunctionCmdReceived (some otaAlone) exampleBoot with
  | ok outcome => rw [ran] at raised; cases raised
  | error fault => rw [ran] at raised; cases raised; rfl

end PhicommTC1.Proofs.MissingStrings
