import PhicommTC1.Foundation.Entries
import PhicommTC1.Proofs.CommandWrites

/-! What a reply says, register by register. The handler reads a register back at some point between
the register's own write and the end of the command, and what it reads there is what it reports. -/

namespace PhicommTC1.Proofs.ReplyShape
open CText Entries PhicommTC1 CommandWrites
variable {root reply item : CJson} {registers extent : List Register} {register : Register} {state next : State}

/-- What nested members lead to. -/
def find : CJson → List CStr → Option CJson
  | item, [] => some item
  | item, key :: path => (item.getObjectItem key).bind (find · path)

@[simp] theorem find_one (item : CJson) (key : CStr) : find item [key] = item.getObjectItem key :=
  Option.bind_fun_some (item.getObjectItem key)

/-- The member of a message or a reply that a register belongs to. -/
def part : Register → CStr
  | .switch x => plugStr x
  | .task x _ => plugStr x
  | .text (.plugName x) => plugStr x
  | _ => .ofString "setting"

def within : Register → List CStr
  | .switch _ => [.ofString "on"]
  | .task _ y => [.ofString "setting", plugTaskStr y]
  | .text (.plugName _) => [.ofString "setting", .ofString "name"]
  | .text .mqttIp => [.ofString "mqtt_uri"]
  | .text .mqttUser => [.ofString "mqtt_user"]
  | .text .mqttPassword => [.ofString "mqtt_password"]
  | .deviceid => [.ofString "name"]
  | .mqttPort => [.ofString "mqtt_port"]

def path (register : Register) : List CStr := part register :: within register

/-- A reply gives every plug its position, and the other registers when the message has them. -/
def mentioned (root : CJson) : Register → Bool
  | .switch _ => true
  | register => (find root (path register)).isSome

/-- How the value of a register is written. -/
def shown : (register : Register) → register.Value → CJson
  | .switch _, switch => .number (Int32.ofNat switch.record.toNat)
  | .task _ _, task => echoTask task
  | .text _, text => .string text
  | .deviceid, name => .string name
  | .mqttPort, port => .number port

/-- What the handler reads to report a register: a string up to its terminator, wherever that is. -/
def readBack : Register → State → Exec CJson
  | .text field, state => CJson.string <$> field.read state.uConfig
  | .deviceid, state => CJson.string <$> state.name
  | register, state => .ok (shown register (state.registers register))

theorem string_ok {stored : Exec CStr} {text : CStr} :
    CJson.string <$> stored = .ok (.string text) ↔ stored = .ok text := by
  refine Runs.map_ok.trans ?_
  constructor
  · intro written
    obtain ⟨other, read, same⟩ := written
    rw [read, CJson.string.inj same]
  · intro read
    exact ⟨text, read, rfl⟩

theorem name_ok_iff (state : State) : state.name = .ok state.deviceid.text ↔ state.deviceid.text.length < 32 := by
  rw [CharArray.text_length_lt_iff, State.name, readCStr]
  split
  next ended => exact iff_of_true rfl ended
  next endless => exact iff_of_false (by simp) endless

/-- The registers that are written by the time one is read back: itself, and for a string what lies behind it. -/
def turns : Register → List Register
  | .text .mqttIp => [.text .mqttIp, .mqttPort]
  | .text .mqttUser => [.text .mqttUser, .text .mqttPassword]
  | .text (.plugName x) => [.text (.plugName x), .switch x]
  | register => [register]

theorem turns_itself (register : Register) : register ∈ turns register := by
  cases register with
  | text field => cases field <;> simp [turns]
  | _ => simp [turns]

theorem turns_settings (member : register ∈ settingRegisters) : turns register ⊆ settingRegisters := by
  simp only [settingRegisters, List.mem_cons, List.not_mem_nil, or_false] at member
  rcases member with rfl | rfl | rfl | rfl | rfl <;> simp [turns, settingRegisters]

/-- The item was read back in the course of the writes. -/
inductive Said (root : CJson) (registers : List Register) (register : Register) (state next : State)
    (item : CJson) : Prop where
  | intro {before after : List Register} {middle : State} (split : before ++ after = registers)
      (past : turns register ⊆ before) (reached : Writes root before state middle)
      (rest : Writes root after middle next) (saw : readBack register middle = .ok item) :
      Said root registers register state next item

namespace Said

theorem now (writes : Writes root registers state next) (past : turns register ⊆ registers)
    (saw : readBack register next = .ok item) : Said root registers register state next item :=
  .intro (List.append_nil _) past writes .nil saw

theorem extend {earlier later : List Register} {first last : State} (ahead : Writes root earlier first state)
    (behind : Writes root later next last) (said : Said root registers register state next item) :
    Said root (earlier ++ (registers ++ later)) register first last item := by
  obtain ⟨split, past, reached, rest, saw⟩ := said
  refine .intro ?_ ?_ (ahead.append reached) (rest.append behind) saw
  · rw [← split, List.append_assoc, List.append_assoc]
  · exact List.subset_append_of_subset_right _ past

end Said

/-- A reading where one is due, and otherwise no answer. -/
inductive Answers (readings : CJson → Prop) : Bool → Option CJson → Prop where
  | absent : Answers readings false none
  | present {item : CJson} (said : readings item) : Answers readings true (some item)

theorem Answers.mono {readings other : CJson → Prop} {due : Bool} {answer : Option CJson}
    (answers : Answers readings due answer) (implies : ∀ item, readings item → other item) :
    Answers other due answer := by
  cases answers with
  | absent => exact .absent
  | present said => exact .present (implies _ said)

theorem Answers.undue {readings : CJson → Prop} {answer : Option CJson} (answers : Answers readings false answer) :
    answer = none := by
  cases answers
  rfl

theorem Answers.due {readings : CJson → Prop} {answer : Option CJson} (answers : Answers readings true answer) :
    ∃ item, readings item ∧ answer = some item := by
  cases answers with
  | present said => exact ⟨_, said, rfl⟩

/-- The answer tells of the registers, as they were in the course of the writes of the extent. -/
def Tells (root : CJson) (registers extent : List Register) (state next : State) (answer : Option CJson) : Prop :=
  ∀ register ∈ registers, Answers (Said root extent register state next) (mentioned root register)
    (answer.bind (find · (within register)))

theorem Tells.extend {answer : Option CJson} {earlier later : List Register} {first last : State}
    (ahead : Writes root earlier first state) (behind : Writes root later next last)
    (tells : Tells root registers extent state next answer) :
    Tells root registers (earlier ++ (extent ++ later)) first last answer := by
  intro register member
  exact (tells register member).mono fun item said => said.extend ahead behind

def sameKey (first second : CStr) : Bool := sameIgnoringCase first.bytes second.bytes

theorem sameKey_itself (key : CStr) : sameKey key key = true := by
  unfold sameKey
  induction key.bytes with
  | nil => rfl
  | cons byte bytes ih => simp [sameIgnoringCase, ih]

theorem getObjectItem_members {entries : List (CStr × Option CJson)} {key : CStr} (answer : Option CJson)
    (distinct : Distinct sameKey (entries.map Prod.fst)) (listed : (key, answer) ∈ entries) :
    (CJson.object (members entries)).getObjectItem key = answer :=
  lookup_members (sameKey_itself key) distinct listed

theorem addItem_members (send : Members) (key : CStr) (item : CJson) :
    send.addItem key item = send ++ members [(key, some item)] := rfl

theorem echoString_members {key : CStr} {p : Option CJson} {stored : Exec CStr} {send after : Members}
    (ran : echoString key p stored send = .ok after) :
    ∃ answer, after = send ++ members [(key, answer)] ∧
      Answers (fun item => CJson.string <$> stored = .ok item) p.isSome answer := by
  cases p with
  | none =>
    cases ran
    exact ⟨none, (List.append_nil _).symm, .absent⟩
  | some member =>
    obtain ⟨text, read, added⟩ := Runs.bind_ok.mp ran
    cases added
    exact ⟨some (.string text), rfl, .present (Runs.map_ok.mpr ⟨text, read, rfl⟩)⟩

theorem echoOta_members {pOta : Option CJson} {after : Members} (ran : echoOta pOta [] = .ok after) :
    ∃ answer, after = members [(.ofString "ota", answer)] := by
  cases pOta with
  | none =>
    cases ran
    exact ⟨none, rfl⟩
  | some ota =>
    cases text : ota.valuestring with
    | none => simp only [echoOta, text, Members.addString] at ran; cases ran
    | some text' =>
      simp only [echoOta, text, Members.addString] at ran
      cases ran
      exact ⟨some _, rfl⟩

theorem echoMqttPort_members (pMqttPort : Option CJson) (config : UConfig) (send : Members) :
    ∃ answer, echoMqttPort pMqttPort config send = send ++ members [(.ofString "mqtt_port", answer)] ∧
      Answers (· = .number config.mqttPort) pMqttPort.isSome answer := by
  cases pMqttPort with
  | none => exact ⟨none, (List.append_nil _).symm, .absent⟩
  | some member => exact ⟨some _, rfl, .present rfl⟩

theorem versionSection_members {pVersion : Option CJson} {send after : Members}
    (ran : versionSection pVersion send = .ok after) :
    after = send ++ members [(.ofString "version", pVersion.map fun _ => .string VERSION)] := by
  cases pVersion with
  | none =>
    cases ran
    exact (List.append_nil _).symm
  | some member =>
    cases ran
    rfl

private theorem setting_keys : Distinct sameKey [.ofString "ota", .ofString "name", .ofString "mqtt_uri",
    .ofString "mqtt_port", .ofString "mqtt_user", .ofString "mqtt_password"] := by
  unfold Distinct
  decide

/-- The echo of `setting` reads every register it has back from the state after the stores. -/
theorem echoSetting_members {pSetting : CJson} {send : Members} (ran : echoSetting pSetting state = .ok send)
    {register : Register} (member : register ∈ settingRegisters) :
    Answers (fun item => readBack register state = .ok item) (find pSetting (within register)).isSome
      (find (.object send) (within register)) := by
  obtain ⟨withOta, ota, ran⟩ := Runs.bind_ok.mp ran
  obtain ⟨withName, name, ran⟩ := Runs.bind_ok.mp ran
  obtain ⟨withIp, ip, ran⟩ := Runs.bind_ok.mp ran
  obtain ⟨withUser, user, password⟩ := Runs.bind_ok.mp ran
  obtain ⟨otaAnswer, rfl⟩ := echoOta_members ota
  obtain ⟨nameAnswer, rfl, nameRead⟩ := echoString_members name
  obtain ⟨ipAnswer, rfl, ipRead⟩ := echoString_members ip
  obtain ⟨portAnswer, ported, portRead⟩ := echoMqttPort_members (pSetting.getObjectItem (.ofString "mqtt_port"))
    state.uConfig (members [(.ofString "ota", otaAnswer)] ++ members [(.ofString "name", nameAnswer)] ++
      members [(.ofString "mqtt_uri", ipAnswer)])
  rw [ported] at user
  obtain ⟨userAnswer, rfl, userRead⟩ := echoString_members user
  obtain ⟨passwordAnswer, rfl, passwordRead⟩ := echoString_members password
  have keys : Distinct sameKey ([(CStr.ofString "ota", otaAnswer), (.ofString "name", nameAnswer),
      (.ofString "mqtt_uri", ipAnswer), (.ofString "mqtt_port", portAnswer), (.ofString "mqtt_user", userAnswer),
      (.ofString "mqtt_password", passwordAnswer)].map Prod.fst) := setting_keys
  simp only [← members_append, List.cons_append, List.nil_append]
  simp only [settingRegisters, List.mem_cons, List.not_mem_nil, or_false] at member
  rcases member with rfl | rfl | rfl | rfl | rfl <;> simp only [within, find_one]
  · rw [getObjectItem_members nameAnswer keys (by simp)]
    exact nameRead
  · rw [getObjectItem_members ipAnswer keys (by simp)]
    exact ipRead
  · rw [getObjectItem_members portAnswer keys (by simp)]
    exact portRead.mono fun item said => said ▸ rfl
  · rw [getObjectItem_members userAnswer keys (by simp)]
    exact userRead
  · rw [getObjectItem_members passwordAnswer keys (by simp)]
    exact passwordRead

theorem settingSection_members {work after : State × Members}
    (ran : settingSection (root.getObjectItem (.ofString "setting")) work = .ok after) :
    ∃ answer, after.2 = work.2 ++ members [(.ofString "setting", answer)] ∧
      answer.isSome = (find root [.ofString "setting"]).isSome ∧
      Tells root settingRegisters settingRegisters work.1 after.1 answer := by
  have writes := settingSection_writes ran
  have asked (register : Register) (member : register ∈ settingRegisters) : mentioned root register =
      ((root.getObjectItem (.ofString "setting")).bind (find · (within register))).isSome := by
    simp only [settingRegisters, List.mem_cons, List.not_mem_nil, or_false] at member
    rcases member with rfl | rfl | rfl | rfl | rfl <;> rfl
  rw [find_one]
  unfold settingSection at ran
  cases found : root.getObjectItem (.ofString "setting") with
  | none =>
    rw [found] at ran
    cases ran
    refine ⟨none, (List.append_nil _).symm, rfl, ?_⟩
    intro register member
    rw [asked register member, found]
    exact .absent
  | some pSetting =>
    rw [found] at ran
    obtain ⟨stored, stores, ran⟩ := Runs.bind_ok.mp ran
    obtain ⟨send, echoes, ran⟩ := Runs.bind_ok.mp ran
    cases ran
    refine ⟨some (.object send), rfl, rfl, ?_⟩
    intro register member
    rw [asked register member, found]
    exact (echoSetting_members echoes member).mono fun item saw => .now writes (turns_settings member) saw

/-- A loop that adds a member on each turn, and what each member tells stays told. -/
theorem foldlM_members {ι : Type*} {body : State × Members → ι → Exec (State × Members)} (key : ι → CStr)
    (registers : ι → List Register) (tells : ι → List Register → State → State → Option CJson → Prop)
    (each : ∀ work index after, body work index = .ok after → Writes root (registers index) work.1 after.1 ∧
      ∃ answer, after.2 = work.2 ++ members [(key index, answer)] ∧
        tells index (registers index) work.1 after.1 answer)
    (extend : ∀ index earlier extent later first state next last answer, Writes root earlier first state →
      Writes root later next last → tells index extent state next answer →
      tells index (earlier ++ (extent ++ later)) first last answer)
    {items : List ι} {work last : State × Members} (done : items.foldlM body work = .ok last) :
    ∃ entries, last.2 = work.2 ++ members entries ∧ entries.map Prod.fst = items.map key ∧
      ∀ index ∈ items, ∃ answer, (key index, answer) ∈ entries ∧
        tells index (items.flatMap registers) work.1 last.1 answer := by
  induction items generalizing work with
  | nil =>
    cases done
    exact ⟨[], (List.append_nil _).symm, rfl, by simp⟩
  | cons index items ih =>
    obtain ⟨after, ran, rest⟩ := IndexedLoop.foldlM_cons.mp done
    obtain ⟨writes, answer, added, told⟩ := each work index after ran
    have later := foldlM_writes (fun work index after ran => (each work index after ran).1) rest
    obtain ⟨entries, grown, keys, others⟩ := ih rest
    refine ⟨(key index, answer) :: entries, ?_, ?_, ?_⟩
    · rw [grown, added, List.append_assoc, ← members_append, List.singleton_append]
    · rw [List.map_cons, List.map_cons, keys]
    -- This member was told before the later turns wrote, the others after this turn did.
    · intro other member
      rcases List.mem_cons.mp member with rfl | member
      · refine ⟨answer, by simp, ?_⟩
        exact extend _ [] _ _ _ _ _ _ _ .nil later told
      · obtain ⟨otherAnswer, listed, toldLater⟩ := others other member
        refine ⟨otherAnswer, by simp [listed], ?_⟩
        have whole := extend _ _ _ [] _ _ _ _ _ writes .nil toldLater
        rwa [List.append_nil] at whole

theorem taskAnalysis_members {x : Plug} {setting : CJson} {y : Slot} (work : State × Members)
    (asked : Request.task root x y = (setting.getObjectItem (plugTaskStr y)).bind taskOf) :
    ∃ answer, (jsonPlugTaskAnalysis x setting work y).2 = work.2 ++ members [(plugTaskStr y, answer)] ∧
      Answers (Said root [.task x y] (.task x y) work.1 (jsonPlugTaskAnalysis x setting work y).1)
        (setting.getObjectItem (plugTaskStr y)).isSome answer := by
  have writes := taskAnalysis_writes work asked
  cases found : setting.getObjectItem (plugTaskStr y) with
  | none =>
    refine ⟨none, ?_, .absent⟩
    simp only [jsonPlugTaskAnalysis, found]
    exact (List.append_nil _).symm
  | some task =>
    refine ⟨some (echoTask (((jsonPlugTaskAnalysis x setting work y).1.uConfig.plug x).task y)), ?_,
      .present (.now (.one writes) (by simp [turns]) rfl)⟩
    simp only [jsonPlugTaskAnalysis, found]
    rfl

theorem tasks_members {x : Plug} {setting : CJson} (work : State × Members)
    (asked : ∀ y, Request.task root x y = (setting.getObjectItem (plugTaskStr y)).bind taskOf) :
    ∃ entries, ((List.finRange 5).foldl (jsonPlugTaskAnalysis x setting) work).2 = work.2 ++ members entries ∧
      entries.map Prod.fst = (List.finRange 5).map plugTaskStr ∧
      ∀ y, ∃ answer, (plugTaskStr y, answer) ∈ entries ∧
        Answers (Said root ((List.finRange 5).map (.task x)) (.task x y) work.1
          ((List.finRange 5).foldl (jsonPlugTaskAnalysis x setting) work).1)
          (setting.getObjectItem (plugTaskStr y)).isSome answer := by
  have looped : (List.finRange 5).foldlM (fun work y => .ok (jsonPlugTaskAnalysis x setting work y)) work =
      (.ok ((List.finRange 5).foldl (jsonPlugTaskAnalysis x setting) work) : Exec (State × Members)) :=
    List.foldlM_pure
  have each (work : State × Members) (y : Slot) (after : State × Members)
      (analysed : (.ok (jsonPlugTaskAnalysis x setting work y) : Exec (State × Members)) = .ok after) :
      Writes root [.task x y] work.1 after.1 ∧ ∃ answer, after.2 = work.2 ++ members [(plugTaskStr y, answer)] ∧
        Answers (Said root [.task x y] (.task x y) work.1 after.1) (setting.getObjectItem (plugTaskStr y)).isSome
          answer := by
    cases analysed
    exact ⟨.one (taskAnalysis_writes work (asked y)), taskAnalysis_members work (asked y)⟩
  obtain ⟨entries, grown, keys, told⟩ := foldlM_members plugTaskStr (fun y => [.task x y])
    (fun y extent state next answer =>
      Answers (Said root extent (.task x y) state next) (setting.getObjectItem (plugTaskStr y)).isSome answer)
    each (fun _ _ _ _ _ _ _ _ _ ahead behind tells => tells.mono fun _ said => said.extend ahead behind) looped
  rw [← List.map_eq_flatMap] at told
  exact ⟨entries, grown, keys, fun y => told y (List.mem_finRange y)⟩

private theorem task_keys : Distinct sameKey (.ofString "name" :: (List.finRange 5).map plugTaskStr) := by
  unfold Distinct
  decide

/-- The echo of a plug's `setting`, from the state its turn started in. -/
theorem settingAnalysis_members {x : Plug} {plug setting : CJson} {start : State} {send : Members}
    (found : root.getObjectItem (plugStr x) = some plug)
    (present : plug.getObjectItem (.ofString "setting") = some setting)
    (relay : Write root start (.switch x) state)
    (ran : jsonPlugSettingAnalysis x setting state = .ok (next, send)) {register : Register}
    (member : register ∈ .text (.plugName x) :: (List.finRange 5).map (.task x)) :
    Answers (Said root (plugRegisters x) register start next) (mentioned root register)
      (find (.object send) (within register).tail) := by
  have name : Request.plugName root x = setting.getObjectItem (.ofString "name") := by
    simp [Request.plugName, found, present]
  have tasks (y : Slot) : Request.task root x y = (setting.getObjectItem (plugTaskStr y)).bind taskOf := by
    simp [Request.task, found, present]
  have asked : Request.text root (.plugName x) = (setting.getObjectItem (.ofString "name")).bind CJson.valuestring :=
    congrArg (·.bind CJson.valuestring) name
  obtain ⟨named, stored, ran⟩ := Runs.bind_ok.mp ran
  obtain ⟨echoed, echo, ran⟩ := Runs.bind_ok.mp ran
  obtain ⟨nameAnswer, rfl, nameRead⟩ := echoString_members echo
  have ahead : Writes root [.switch x, .text (.plugName x)] start named :=
    .cons relay (.one (storeText_writes asked stored))
  have behind := foldl_writes (fun work y => taskAnalysis_writes work (tasks y)) (List.finRange 5)
    (named, [] ++ members [(.ofString "name", nameAnswer)])
  obtain ⟨entries, grown, keys, told⟩ := tasks_members (named, [] ++ members [(.ofString "name", nameAnswer)]) tasks
  rw [Except.ok.inj ran] at behind grown told
  have whole : send = members ((.ofString "name", nameAnswer) :: entries) := by
    refine grown.trans ?_
    rw [List.nil_append, ← members_append, List.singleton_append]
  have distinct : Distinct sameKey (((CStr.ofString "name", nameAnswer) :: entries).map Prod.fst) := by
    rw [List.map_cons, keys]
    exact task_keys
  rw [whole]
  rcases List.mem_cons.mp member with rfl | member
  · simp only [mentioned, path, part, within, find, found, present, Option.bind_some, Option.bind_fun_some,
      List.tail_cons]
    rw [getObjectItem_members nameAnswer distinct (by simp)]
    refine nameRead.mono fun item saw => ?_
    exact .intro rfl (by simp [turns]) ahead behind saw
  · obtain ⟨y, -, rfl⟩ := List.mem_map.mp member
    obtain ⟨answer, listed, answers⟩ := told y
    simp only [mentioned, path, part, within, find, found, present, Option.bind_some, Option.bind_fun_some,
      List.tail_cons]
    rw [getObjectItem_members answer distinct (by simp [listed])]
    refine answers.mono fun item said => ?_
    have extended := said.extend ahead .nil
    rwa [List.append_nil] at extended

theorem plugObject_members {x : Plug} {send : Members}
    (ran : jsonPlugObject x (root.getObjectItem (plugStr x)) state = .ok (next, send)) :
    ∃ answer, send = members [(.ofString "setting", answer)] ∧
      answer.isSome = (find root [plugStr x, .ofString "setting"]).isSome ∧
      ∀ register ∈ .text (.plugName x) :: (List.finRange 5).map (.task x),
        Answers (Said root (plugRegisters x) register state next) (mentioned root register)
          (answer.bind (find · (within register).tail)) := by
  have asked (register : Register) (member : register ∈ .text (.plugName x) :: (List.finRange 5).map (.task x)) :
      mentioned root register =
        ((find root [plugStr x, .ofString "setting"]).bind (find · (within register).tail)).isSome := by
    rcases List.mem_cons.mp member with rfl | member
    · simp [mentioned, path, part, within, find, Option.bind_assoc]
    · obtain ⟨y, -, rfl⟩ := List.mem_map.mp member
      simp [mentioned, path, part, within, find, Option.bind_assoc]
  have silent (absent : find root [plugStr x, .ofString "setting"] = none) (register : Register)
      (member : register ∈ .text (.plugName x) :: (List.finRange 5).map (.task x)) :
      Answers (Said root (plugRegisters x) register state next) (mentioned root register) none := by
    rw [asked register member, absent]
    exact .absent
  unfold jsonPlugObject at ran
  split at ran
  next found =>
    cases ran
    have absent : find root [plugStr x, .ofString "setting"] = none := by simp [find, found]
    exact ⟨none, rfl, by rw [absent], silent absent⟩
  next plug found =>
    split at ran
    next missing =>
      cases ran
      have absent : find root [plugStr x, .ofString "setting"] = none := by simp [find, found, missing]
      exact ⟨none, rfl, by rw [absent], silent absent⟩
    next setting present =>
      obtain ⟨⟨configured, settingSend⟩, analysed, ran⟩ := Runs.bind_ok.mp ran
      cases ran
      refine ⟨some (.object settingSend), rfl, by simp [find, found, present], ?_⟩
      intro register member
      exact settingAnalysis_members found present (switchPlug_writes found) analysed member

private theorem plug_keys : Distinct sameKey [.ofString "setting", .ofString "on"] := by
  unfold Distinct
  decide

/-- The part of a plug in the reply, with its settings if the message has them. -/
def TellsPlug (root : CJson) (x : Plug) (extent : List Register) (state next : State) (answer : Option CJson) : Prop :=
  (answer.bind (·.getObjectItem (.ofString "setting"))).isSome =
      (find root [plugStr x, .ofString "setting"]).isSome ∧
    Tells root (plugRegisters x) extent state next answer

theorem plugAnalysis_members {x : Plug} {work after : State × Members}
    (ran : jsonPlugAnalysis root work x = .ok after) :
    ∃ answer, after.2 = work.2 ++ members [(plugStr x, answer)] ∧
      TellsPlug root x (plugRegisters x) work.1 after.1 answer := by
  have writes := plugAnalysis_writes ran
  obtain ⟨⟨updated, plugSend⟩, analysed, ran⟩ := Runs.bind_ok.mp ran
  cases ran
  obtain ⟨answer, rfl, due, tells⟩ := plugObject_members analysed
  have whole : Members.addByte (members [(.ofString "setting", answer)]) (.ofString "on") (updated.uConfig.plug x).on =
      members [(.ofString "setting", answer), (.ofString "on", some (shown (.switch x) (updated.switch x)))] := by
    rw [Members.addByte, addItem_members, ← members_append, List.singleton_append]
    rfl
  have keys : Distinct sameKey ([(CStr.ofString "setting", answer),
      (.ofString "on", some (shown (.switch x) (updated.switch x)))].map Prod.fst) := plug_keys
  refine ⟨some (.object _), rfl, ?_, ?_⟩
  · rw [Option.bind_some, whole, getObjectItem_members answer keys (by simp)]
    exact due
  · intro register member
    rw [whole]
    rcases List.mem_cons.mp member with rfl | member
    · simp only [Option.bind_some, within, find_one]
      rw [getObjectItem_members (some (shown (.switch x) (updated.switch x))) keys (by simp)]
      exact .present (.now writes (by simp [turns, plugRegisters]) rfl)
    · have nested : within register = .ofString "setting" :: (within register).tail := by
        rcases List.mem_cons.mp member with rfl | member
        · rfl
        · obtain ⟨y, -, rfl⟩ := List.mem_map.mp member
          rfl
      rw [nested, Option.bind_some, find, getObjectItem_members answer keys (by simp)]
      exact tells register member

theorem plugs_members {plugs : List Plug} {work last : State × Members}
    (looped : plugs.foldlM (jsonPlugAnalysis root) work = .ok last) :
    ∃ entries, last.2 = work.2 ++ members entries ∧ entries.map Prod.fst = plugs.map plugStr ∧
      ∀ x ∈ plugs, ∃ answer, (plugStr x, answer) ∈ entries ∧
        TellsPlug root x (plugs.flatMap plugRegisters) work.1 last.1 answer :=
  foldlM_members plugStr plugRegisters (TellsPlug root)
    (fun _ _ _ analysed => ⟨plugAnalysis_writes analysed, plugAnalysis_members analysed⟩)
    (fun _ _ _ _ _ _ _ _ _ ahead behind told => ⟨told.1, told.2.extend ahead behind⟩) looped

private theorem reply_keys : Distinct sameKey (.ofString "mac" :: .ofString "version" :: .ofString "setting" ::
    ((List.finRange 6).map plugStr ++ [.ofString "name"])) := by
  unfold Distinct
  decide

/-- What the reply to a message holds. -/
structure Shape (root : CJson) (state next : State) (reply : CJson) : Prop where
  mac : find reply [.ofString "mac"] = some (.string state.strMac)
  version : find reply [.ofString "version"] = (find root [.ofString "version"]).map fun _ => .string VERSION
  name : ∃ name, next.name = .ok name ∧ find reply [.ofString "name"] = some (.string name)
  setting : (find reply [.ofString "setting"]).isSome = (find root [.ofString "setting"]).isSome
  plugSetting : ∀ x, (find reply [plugStr x, .ofString "setting"]).isSome =
    (find root [plugStr x, .ofString "setting"]).isSome
  registers : ∀ register, Answers (Said root allRegisters register state next) (mentioned root register)
    (find reply (path register))

private theorem part_setting (member : register ∈ settingRegisters) : part register = .ofString "setting" := by
  simp only [settingRegisters, List.mem_cons, List.not_mem_nil, or_false] at member
  rcases member with rfl | rfl | rfl | rfl | rfl <;> rfl

private theorem part_plug {x : Plug} (member : register ∈ plugRegisters x) : part register = plugStr x := by
  simp only [plugRegisters, List.mem_cons, List.mem_map] at member
  rcases member with rfl | rfl | ⟨y, -, rfl⟩ <;> rfl

theorem runCommand_shape (ran : runCommand root state = .ok (next, reply)) : Shape root state next reply := by
  unfold runCommand at ran
  obtain ⟨withMac, mac, ran⟩ := Runs.bind_ok.mp ran
  obtain ⟨withVersion, version, ran⟩ := Runs.bind_ok.mp ran
  obtain ⟨⟨configured, withSetting⟩, setting, ran⟩ := Runs.bind_ok.mp ran
  obtain ⟨⟨last, withPlugs⟩, looped, ran⟩ := Runs.bind_ok.mp ran
  obtain ⟨name, named, ran⟩ := Runs.bind_ok.mp ran
  obtain ⟨send, added, ran⟩ := Runs.bind_ok.mp ran
  cases ran
  cases mac
  cases added
  have ahead := settingSection_writes setting
  have behind := plugs_writes looped
  obtain ⟨settingAnswer, grown, settingDue, settingTells⟩ := settingSection_members setting
  obtain ⟨plugs, whole, keys, told⟩ := plugs_members looped
  dsimp only at grown whole settingTells told ahead behind
  rw [grown, versionSection_members version] at whole
  let entries := (CStr.ofString "mac", some (CJson.string state.strMac)) ::
    (.ofString "version", (root.getObjectItem (.ofString "version")).map fun _ => .string VERSION) ::
    (.ofString "setting", settingAnswer) :: (plugs ++ [(.ofString "name", some (.string name))])
  have written : withPlugs.addItem (.ofString "name") (.string name) = members entries := by
    simp only [entries, whole, addItem_members, ← members_append, List.nil_append, List.cons_append]
  have distinct : Distinct sameKey (entries.map Prod.fst) := by
    simp only [entries, List.map_cons, List.map_append, List.map_nil, keys]
    exact reply_keys
  have found {key : CStr} (answer : Option CJson) (listed : (key, answer) ∈ entries) :
      (CJson.object (members entries)).getObjectItem key = answer := getObjectItem_members answer distinct listed
  rw [written]
  refine ⟨?_, ?_, ⟨name, named, ?_⟩, ?_, ?_, ?_⟩
  · exact (find_one _ _).trans (found _ (by simp [entries]))
  · rw [find_one, find_one]
    exact found _ (by simp [entries])
  · exact (find_one _ _).trans (found _ (by simp [entries]))
  · rw [find_one, found settingAnswer (by simp [entries])]
    exact settingDue
  · intro x
    obtain ⟨answer, listed, due, -⟩ := told x (List.mem_finRange x)
    rw [find, found answer (by simp [entries, listed])]
    simpa using due
  · intro register
    rw [path, find]
    rcases List.mem_append.mp (mem_allRegisters register) with member | member
    · rw [part_setting member, found settingAnswer (by simp [entries])]
      refine (settingTells register member).mono fun item said => ?_
      have extended := said.extend .nil behind
      rwa [List.nil_append] at extended
    · obtain ⟨x, listed, member⟩ := List.mem_flatMap.mp member
      obtain ⟨answer, inside, -, tells⟩ := told x listed
      rw [part_plug member, found answer (by simp [entries, inside])]
      refine (tells register member).mono fun item said => ?_
      have extended := said.extend ahead .nil
      rwa [List.append_nil] at extended

end PhicommTC1.Proofs.ReplyShape
