import PhicommTC1.Proofs.PrintedSize
import PhicommTC1.Proofs.SettingBytes

/-! The size of a reply, added up from the request and the memory before it. What is echoed is read
where the request has put its bytes by then. -/

namespace PhicommTC1.Proofs.ReplySize
open CText PhicommTC1 CommandWrites PrintedSize StringStores SettingBytes
variable {root : CJson} {state next : State}

/-- What a member adds to the reply if the request has it. -/
def echoed (p : Option CJson) (size : Nat) : Nat := if p.isSome then size else 0

def byteMember (depth : Nat) (key : CStr) (byte : UInt8) : Nat :=
  memberSize depth key (numberSize (Int32.ofNat byte.toNat))

def textMember (depth : Nat) (key : CStr) (text : CStr) : Nat := memberSize depth key (quotedSize text)

/-- `ota` comes back as it came. -/
def otaSize (pOta : Option CJson) : Nat :=
  match pOta.bind CJson.valuestring with
  | some text => textMember 2 (.ofString "ota") text
  | none => 0

/-- The name of the device, the one the request gives it or the one it has. -/
def deviceName (root : CJson) (state : State) : CStr :=
  ((Request.deviceid root).bind CText.sprintf).getD state.deviceid.text

/-- The echo of `setting`. -/
def settingSize (pSetting : CJson) (name : CStr) (memory : Memory) : Nat :=
  otaSize (pSetting.getObjectItem (.ofString "ota")) +
  echoed (pSetting.getObjectItem (.ofString "name")) (textMember 2 (.ofString "name") name) +
  echoed (pSetting.getObjectItem (.ofString "mqtt_uri")) (textMember 2 (.ofString "mqtt_uri") (textFrom memory .mqttIp)) +
  echoed (pSetting.getObjectItem (.ofString "mqtt_port"))
    (memberSize 2 (.ofString "mqtt_port") (numberSize (portFrom memory))) +
  echoed (pSetting.getObjectItem (.ofString "mqtt_user"))
    (textMember 2 (.ofString "mqtt_user") (textFrom memory .mqttUser)) +
  echoed (pSetting.getObjectItem (.ofString "mqtt_password"))
    (textMember 2 (.ofString "mqtt_password") (textFrom memory .mqttPassword))

def settingPart (root : CJson) (state : State) : Nat :=
  match root.getObjectItem (.ofString "setting") with
  | some pSetting => memberSize 1 (.ofString "setting") (objectSize 1
      (settingSize pSetting (deviceName root state) (memoryAfter root state settingRegisters)))
  | none => 0

def taskSize (task : UserPlugTaskConfig) : Nat :=
  objectSize 3 (byteMember 4 (.ofString "hour") task.hour + byteMember 4 (.ofString "minute") task.minute +
    byteMember 4 (.ofString "repeat") task.repeats + byteMember 4 (.ofString "action") task.action +
    byteMember 4 (.ofString "on") task.on)

def taskEcho (pPlugSetting : CJson) (task : Slot → UserPlugTaskConfig) (y : Slot) : Nat :=
  echoed (pPlugSetting.getObjectItem (plugTaskStr y)) (memberSize 3 (plugTaskStr y) (taskSize (task y)))

/-- The echo of a plug's `setting`. -/
def plugSettingSize (pPlugSetting : CJson) (name : CStr) (task : Slot → UserPlugTaskConfig) : Nat :=
  echoed (pPlugSetting.getObjectItem (.ofString "name")) (textMember 3 (.ofString "name") name) +
    ((List.finRange 5).map (taskEcho pPlugSetting task)).sum

def plugSettingPart (pPlugSetting : Option CJson) (name : CStr) (task : Slot → UserPlugTaskConfig) : Nat :=
  match pPlugSetting with
  | some pPlugSetting =>
    memberSize 2 (.ofString "setting") (objectSize 2 (plugSettingSize pPlugSetting name task))
  | none => 0

/-- The registers that have had their turn when a plug gets its own. -/
def ahead (x : Plug) : List Register := settingRegisters ++ ((List.finRange 6).take x.val).flatMap plugRegisters

/-- A plug's part of the reply. Its name is read before its tasks are put into the memory. -/
def plugSize (root : CJson) (state : State) (x : Plug) : Nat :=
  let named := memoryAfter root state (ahead x ++ [.switch x, .text (.plugName x)])
  let stored := memoryAfter root state (ahead x ++ plugRegisters x)
  let pPlugSetting := (root.getObjectItem (plugStr x)).bind (·.getObjectItem (.ofString "setting"))
  memberSize 1 (plugStr x) (objectSize 1
    (plugSettingPart pPlugSetting (textFrom named (.plugName x)) (taskFrom stored x) +
      byteMember 2 (.ofString "on") (cellFrom stored (.on x))))

/-- The size of the reply to an accepted message: the address, the version if it is asked for, the
echo of the setting, the six plugs, the name, and the brackets around them. -/
def replySize (root : CJson) (state : State) : Nat :=
  textMember 1 (.ofString "mac") state.strMac +
    echoed (root.getObjectItem (.ofString "version")) (textMember 1 (.ofString "version") VERSION) +
    settingPart root state + ((List.finRange 6).map (plugSize root state)).sum +
    textMember 1 (.ofString "name") (deviceName root state) + 2

theorem addString_size {depth : Nat} {send after : Members} {key : CStr} {text : CStr}
    (added : send.addString key text = .ok after) :
    membersSize depth after = membersSize depth send + textMember depth key text := by
  cases added
  rw [membersSize_addItem, textMember, ← printStringPtr_length]
  rfl

theorem addByte_size (depth : Nat) (send : Members) (key : CStr) (byte : UInt8) :
    membersSize depth (send.addByte key byte) = membersSize depth send + byteMember depth key byte := by
  rw [Members.addByte, membersSize_addItem]
  rfl

theorem readCStr_eq {bytes : List UInt8} {text : CStr} (read : readCStr bytes = .ok text) : text = .upToNul bytes := by
  unfold readCStr at read
  split at read
  · exact (Except.ok.inj read).symm
  · cases read

theorem echoString_size {depth : Nat} {key : CStr} {p : Option CJson} {bytes : List UInt8} {send after : Members}
    (ran : echoString key p (readCStr bytes) send = .ok after) :
    membersSize depth after = membersSize depth send + echoed p (textMember depth key (.upToNul bytes)) := by
  cases p with
  | none => cases ran; rfl
  | some member =>
    obtain ⟨text, read, added⟩ := Runs.bind_ok.mp ran
    rw [addString_size added, readCStr_eq read]
    rfl

theorem echoOta_size {pOta : Option CJson} {after : Members} (ran : echoOta pOta [] = .ok after) :
    membersSize 2 after = otaSize pOta := by
  cases pOta with
  | none => cases ran; rfl
  | some ota =>
    simp only [echoOta] at ran
    cases text : ota.valuestring with
    | none => rw [text] at ran; cases ran
    | some text' =>
      rw [text] at ran
      rw [addString_size ran]
      simp [otaSize, text, membersSize]

theorem echoMqttPort_size (pMqttPort : Option CJson) (config : UConfig) (send : Members) :
    membersSize 2 (echoMqttPort pMqttPort config send) = membersSize 2 send +
      echoed pMqttPort (memberSize 2 (.ofString "mqtt_port") (numberSize config.mqttPort)) := by
  cases pMqttPort with
  | none => rfl
  | some member => exact membersSize_addItem 2 send _ _

/-- The name is written first, and no other write touches it. -/
theorem deviceid_written {registers : List Register} (writes : Writes root (.deviceid :: registers) state next)
    (once : .deviceid ∉ registers) : next.deviceid.text = deviceName root state := by
  cases writes with
  | @cons _ _ _ middle _ first rest =>
    have each : ∀ register ∈ registers, ∀ before after : State, before.deviceid = middle.deviceid →
        Write root before register after → after.deviceid = middle.deviceid := by
      intro register member before after same write
      rw [← same]
      cases write with
      | relay => exact userRelaySet_deviceid _ _ _
      | text asked stored =>
        obtain ⟨text, config, -, -, rfl⟩ := sprintfField_cases stored
        rfl
      | deviceid => exact absurd member once
      | _ => rfl
    rw [rest.keeps each rfl]
    cases first with
    | unasked silent => simp [deviceName, show Request.deviceid root = none from silent]
    | deviceid asked stored =>
      obtain ⟨text, printed, short, rfl⟩ := sprintfDeviceid_cases stored
      simp only [deviceName, asked, Option.bind_some, printed, Option.getD_some]
      exact CharArray.text_overwrite _ _ short

theorem echoSetting_size {pSetting : CJson} {send : Members} (ran : echoSetting pSetting state = .ok send) :
    membersSize 2 send = settingSize pSetting state.deviceid.text (byteAt state.uConfig) := by
  obtain ⟨withOta, ota, ran⟩ := Runs.bind_ok.mp ran
  obtain ⟨withName, name, ran⟩ := Runs.bind_ok.mp ran
  obtain ⟨withIp, ip, ran⟩ := Runs.bind_ok.mp ran
  obtain ⟨withUser, user, password⟩ := Runs.bind_ok.mp ran
  rw [echoString_size password, echoString_size user, echoMqttPort_size, echoString_size ip, echoString_size name,
    echoOta_size ota, settingSize, portFrom_byteAt]
  rfl

theorem settingSection_size {send : Members} {after : State × Members}
    (ran : settingSection (root.getObjectItem (.ofString "setting")) (state, send) = .ok after) :
    membersSize 1 after.2 = membersSize 1 send + settingPart root state := by
  have writes := settingSection_writes ran
  unfold settingSection at ran
  unfold settingPart
  cases found : root.getObjectItem (.ofString "setting") with
  | none =>
    rw [found] at ran
    cases ran
    rfl
  | some setting =>
    rw [found] at ran
    obtain ⟨stored, stores, ran⟩ := Runs.bind_ok.mp ran
    obtain ⟨settingSend, echoes, ran⟩ := Runs.bind_ok.mp ran
    cases ran
    have name : stored.deviceid.text = deviceName root state := deviceid_written writes (by decide)
    have memory : byteAt stored.uConfig = memoryAfter root state settingRegisters := writes_memory writes
    rw [membersSize_addItem, object_length, echoSetting_size echoes, name, memory]

theorem echoTask_length (task : UserPlugTaskConfig) :
    (CJson.printValue true 3 (echoTask task)).length = taskSize task := by
  rw [echoTask, object_length, addByte_size, addByte_size, addByte_size, addByte_size, addByte_size]
  simp [taskSize, membersSize]

theorem taskAnalysis_other {x : Plug} {pPlugSetting : CJson} (work : State × Members) (y z : Slot)
    (different : z ≠ y) :
    ((jsonPlugTaskAnalysis x pPlugSetting work y).1.uConfig.plug x).task z = (work.1.uConfig.plug x).task z := by
  unfold jsonPlugTaskAnalysis
  split
  · rfl
  · split
    · simp [UConfig.setTask, different]
    · rfl

/-- A slot has its turn once, so it is echoed with what it holds in the end. -/
theorem tasks_size {x : Plug} {pPlugSetting : CJson} {slots : List Slot} (once : slots.Nodup)
    {work last : State × Members} (looped : slots.foldl (jsonPlugTaskAnalysis x pPlugSetting) work = last) :
    membersSize 3 last.2 =
      membersSize 3 work.2 + (slots.map (taskEcho pPlugSetting (last.1.uConfig.plug x).task)).sum := by
  induction slots generalizing work with
  | nil => cases looped; rfl
  | cons y slots ih =>
    obtain ⟨fresh, once⟩ := List.nodup_cons.mp once
    rw [List.foldl_cons] at looped
    have kept : (last.1.uConfig.plug x).task y =
        ((jsonPlugTaskAnalysis x pPlugSetting work y).1.uConfig.plug x).task y := by
      rw [← looped]
      exact IndexedLoop.foldl_view_other (fun slot (work : State × Members) => (work.1.uConfig.plug x).task slot)
        taskAnalysis_other fresh
    rw [ih once looped, List.map_cons, List.sum_cons, ← Nat.add_assoc, taskEcho, kept]
    congr 1
    unfold jsonPlugTaskAnalysis
    cases pPlugSetting.getObjectItem (plugTaskStr y) with
    | none => rfl
    | some task => rw [membersSize_addItem, echoTask_length]; rfl

theorem settingAnalysis_size {x : Plug} {pPlugSetting : CJson} {after : State × Members}
    (ran : jsonPlugSettingAnalysis x pPlugSetting state = .ok after) :
    ∃ named,
      storeString (sprintfField (.plugName x)) (pPlugSetting.getObjectItem (.ofString "name")) state = .ok named ∧
      membersSize 3 after.2 = plugSettingSize pPlugSetting (textFrom (byteAt named.uConfig) (.plugName x))
        (after.1.uConfig.plug x).task := by
  obtain ⟨named, stored, ran⟩ := Runs.bind_ok.mp ran
  obtain ⟨echoed, echo, ran⟩ := Runs.bind_ok.mp ran
  refine ⟨named, stored, ?_⟩
  rw [tasks_size (List.nodup_finRange 5) (Except.ok.inj ran), echoString_size echo, plugSettingSize]
  simp only [membersSize, List.map_nil, List.sum_nil, Nat.zero_add]
  rfl

/-- What a plug adds to its own object, its name being read from the state between the two stores. -/
theorem plugObject_size {x : Plug} {plugSend : Members}
    (ran : jsonPlugObject x (root.getObjectItem (plugStr x)) state = .ok (next, plugSend)) :
    ∃ named, Writes root [.switch x, .text (.plugName x)] state named ∧
      membersSize 2 plugSend =
        plugSettingPart ((root.getObjectItem (plugStr x)).bind (·.getObjectItem (.ofString "setting")))
          (textFrom (byteAt named.uConfig) (.plugName x)) (next.uConfig.plug x).task := by
  unfold jsonPlugObject at ran
  cases found : root.getObjectItem (plugStr x) with
  | none =>
    rw [found] at ran
    cases ran
    refine ⟨state, .silent ?_, rfl⟩
    intro register member
    simp only [List.mem_cons, List.not_mem_nil, or_false] at member
    rcases member with rfl | rfl
    · simp [Request.value, Request.on, found]
    · simp [Request.value, Request.text, Request.plugName, found]
  | some plug =>
    rw [found] at ran
    dsimp only at ran
    rw [Option.bind_some]
    cases present : plug.getObjectItem (.ofString "setting") with
    | none =>
      rw [present] at ran
      cases ran
      have silent : Request.value root (.text (.plugName x)) = none := by
        simp [Request.value, Request.text, Request.plugName, found, present]
      exact ⟨_, .cons (switchPlug_writes found) (.one (.unasked silent)), rfl⟩
    | some setting =>
      rw [present] at ran
      obtain ⟨configured, analysed, ran⟩ := Runs.bind_ok.mp ran
      cases ran
      obtain ⟨named, stored, size⟩ := settingAnalysis_size analysed
      have asked : Request.text root (.plugName x) =
          (setting.getObjectItem (.ofString "name")).bind CJson.valuestring := by
        simp [Request.text, Request.plugName, found, present]
      refine ⟨named, .cons (switchPlug_writes found) (.one (storeText_writes asked stored)), ?_⟩
      rw [membersSize_addItem, object_length, size]
      simp [plugSettingPart, membersSize]

theorem plugAnalysis_size {x : Plug} {work after : State × Members} (before : Writes root (ahead x) state work.1)
    (ran : jsonPlugAnalysis root work x = .ok after) :
    membersSize 1 after.2 = membersSize 1 work.2 + plugSize root state x := by
  have stored := writes_memory (before.append (plugAnalysis_writes ran))
  obtain ⟨⟨updated, plugSend⟩, analysed, ran⟩ := Runs.bind_ok.mp ran
  cases ran
  obtain ⟨named, writes, size⟩ := plugObject_size analysed
  have tasks : taskFrom (memoryAfter root state (ahead x ++ plugRegisters x)) x = (updated.uConfig.plug x).task := by
    rw [← stored]
    funext y
    exact taskFrom_byteAt x y
  have on : cellFrom (memoryAfter root state (ahead x ++ plugRegisters x)) (.on x) = (updated.uConfig.plug x).on := by
    rw [← stored]
    exact cellFrom_byteAt (.on x)
  rw [membersSize_addItem, object_length, addByte_size, size, plugSize, tasks, on, writes_memory (before.append writes)]

/-- The position of a plug is the number of those before it. -/
theorem take_ahead {done plugs : List Plug} {x : Plug} (split : List.finRange 6 = done ++ x :: plugs) :
    (List.finRange 6).take x.val = done := by
  have there : (List.finRange 6)[done.length]? = some x := by
    rw [split]
    simp
  obtain ⟨inside, here⟩ := List.getElem?_eq_some_iff.mp there
  have position : x.val = done.length := by
    rw [← here, List.getElem_finRange]
    rfl
  rw [position, split]
  exact List.take_left' rfl

theorem plugs_size {done plugs : List Plug} (split : List.finRange 6 = done ++ plugs) {work last : State × Members}
    (before : Writes root (settingRegisters ++ done.flatMap plugRegisters) state work.1)
    (looped : plugs.foldlM (jsonPlugAnalysis root) work = .ok last) :
    membersSize 1 last.2 = membersSize 1 work.2 + (plugs.map (plugSize root state)).sum := by
  induction plugs generalizing done work with
  | nil => cases looped; rfl
  | cons x plugs ih =>
    obtain ⟨after, ran, rest⟩ := IndexedLoop.foldlM_cons.mp looped
    have written : Writes root (settingRegisters ++ (done ++ [x]).flatMap plugRegisters) state after.1 := by
      rw [List.flatMap_append, List.flatMap_singleton, ← List.append_assoc]
      exact before.append (plugAnalysis_writes ran)
    rw [ih (by rw [split]; simp) written rest, List.map_cons, List.sum_cons, ← Nat.add_assoc]
    congr 1
    apply plugAnalysis_size _ ran
    rw [ahead, take_ahead split]
    exact before

theorem versionSection_size {pVersion : Option CJson} {send after : Members}
    (ran : versionSection pVersion send = .ok after) :
    membersSize 1 after = membersSize 1 send + echoed pVersion (textMember 1 (.ofString "version") VERSION) := by
  cases pVersion with
  | none => cases ran; rfl
  | some member => exact addString_size ran

/-- The reply is as long as counted. -/
theorem runCommand_size {reply : CJson} (ran : runCommand root state = .ok (next, reply)) :
    (CJson.print reply).length = replySize root state := by
  have name : next.deviceid.text = deviceName root state :=
    deviceid_written (runCommand_writes ran) (by decide)
  unfold runCommand at ran
  obtain ⟨withMac, mac, ran⟩ := Runs.bind_ok.mp ran
  obtain ⟨withVersion, version, ran⟩ := Runs.bind_ok.mp ran
  obtain ⟨configured, setting, ran⟩ := Runs.bind_ok.mp ran
  obtain ⟨last, looped, ran⟩ := Runs.bind_ok.mp ran
  obtain ⟨held, named, ran⟩ := Runs.bind_ok.mp ran
  obtain ⟨send, added, ran⟩ := Runs.bind_ok.mp ran
  cases ran
  have plugPart : membersSize 1 last.2 = membersSize 1 configured.2 + ((List.finRange 6).map (plugSize root state)).sum := by
    apply plugs_size (List.nil_append _).symm _ looped
    rw [List.flatMap_nil, List.append_nil]
    exact settingSection_writes setting
  have nonempty : send ≠ [] := by
    cases added
    simp [Members.addItem]
  have read : held = last.1.deviceid.text := readCStr_eq named
  rw [print_length nonempty, addString_size added, plugPart, settingSection_size setting, versionSection_size version,
    addString_size mac, read, name]
  simp only [membersSize, List.map_nil, List.sum_nil, Nat.zero_add]
  rfl

end PhicommTC1.Proofs.ReplySize
