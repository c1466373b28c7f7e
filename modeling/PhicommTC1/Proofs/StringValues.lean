import PhicommTC1.Proofs.MissingStrings
import PhicommTC1.Proofs.ReplyShape

/-! A string from the message that stores it to the replies that report it. `sprintf` stores it as it is
unless it has a percent sign, and it stays until a message sets it anew or a longer string runs into it. -/

namespace PhicommTC1.Proofs.StringValues
open CText PhicommTC1 CommandDefined CommandWrites DeviceSteps MissingStrings ReplyShape SettingMemory StoreRules
  StringStores
variable {root reply : CJson} {state next middle : State} {format text : CStr}

/-- The settings that hold a string: the name of the device and the strings of `u_config`. -/
inductive StringSetting where
  | deviceid
  | config (field : TextField)

namespace StringSetting

def register : StringSetting → Register
  | .deviceid => .deviceid
  | .config field => .text field

def array (state : State) : StringSetting → Setting
  | .deviceid => state.deviceid
  | .config field => field.array state.uConfig

def asked (root : CJson) : StringSetting → Option CStr
  | .deviceid => Request.deviceid root
  | .config field => Request.text root field

end StringSetting

variable {setting : StringSetting}

/-- At the register's turn the message leaves the string alone: it does not set it, and a string it
stores lower in memory ends before it. -/
def Spares (root : CJson) : StringSetting → Register → Prop
  | .deviceid, .deviceid => Request.deviceid root = none
  | .config field, .text other => ∀ format text, Request.text root other = some format →
      CText.sprintf format = some text → field.offset + 32 ≤ other.offset ∨ other.offset + text.length < field.offset
  | _, _ => True

theorem store_spares {field other : TextField} {config last : UConfig}
    (stored : config.store other.offset (text.bytes ++ [0]) = .ok last)
    (apart : field.offset + 32 ≤ other.offset ∨ other.offset + text.length < field.offset) :
    field.array last = field.array config := by
  funext position
  have bound := offset_bound field
  have inside : field.offset + position.val < sizeofUConfig := by omega
  have written := store_byteAt stored ⟨field.offset + position.val, inside⟩
  simp only [byteAt, cell_at, get_cell] at written
  rw [written]
  split
  next late =>
    have length : (text.bytes ++ [0]).length = text.length + 1 := by simp [CStr.length]
    rw [List.getElem?_eq_none (by omega), Option.getD_none]
  next => rfl

theorem relay_spares (x : Plug) (value : UInt8) :
    setting.array (userRelaySet x.val value state) = setting.array state := by
  cases setting with
  | deviceid => exact userRelaySet_deviceid x value state
  | config field =>
    simp only [StringSetting.array, userRelaySet_uConfig]
    cases field with
    | plugName z => by_cases same : z = x <;> simp [TextField.array, UConfig.setOn, same]
    | _ => rfl

theorem task_spares (x : Plug) (y : Slot) (task : UserPlugTaskConfig) :
    setting.array { state with uConfig := state.uConfig.setTask x y task } = setting.array state := by
  cases setting with
  | deviceid => rfl
  | config field =>
    cases field with
    | plugName z => by_cases same : z = x <;> simp [StringSetting.array, TextField.array, UConfig.setTask, same]
    | _ => rfl

theorem write_spares {register : Register} (write : Write root state register next)
    (spares : Spares root setting register) : setting.array next = setting.array state := by
  cases write with
  | unasked => rfl
  | relay => exact relay_spares _ _
  | task => exact task_spares _ _ _
  | text asked stored =>
    obtain ⟨text, config, printed, copied, rfl⟩ := sprintfField_cases stored
    cases setting with
    | deviceid => rfl
    | config field => exact store_spares copied (spares _ text asked printed)
  | deviceid asked stored =>
    obtain ⟨text, -, -, rfl⟩ := sprintfDeviceid_cases stored
    cases setting with
    | deviceid => rw [spares] at asked; cases asked
    | config field => rfl
  | mqttPort =>
    cases setting with
    | deviceid => rfl
    | config field => cases field <;> rfl

theorem writes_spare {registers : List Register} (writes : Writes root registers state next)
    (spares : ∀ register ∈ registers, Spares root setting register) : setting.array next = setting.array state :=
  writes.keeps (fun register member _ _ kept write => (write_spares write (spares register member)).trans kept) rfl

theorem write_sets (write : Write root state setting.register next) (asked : setting.asked root = some format)
    (short : format.length ≤ 31) : ∃ text, CText.sprintf format = some text ∧ (setting.array next).text = text := by
  cases setting with
  | deviceid =>
    cases write with
    | unasked silent => exact absurd (asked.symm.trans silent) (by simp)
    | deviceid given stored =>
      cases Option.some.inj (given.symm.trans asked)
      obtain ⟨text, printed, fits, rfl⟩ := sprintfDeviceid_cases stored
      exact ⟨text, printed, CharArray.text_overwrite _ _ fits⟩
  | config field =>
    cases write with
    | unasked silent => exact absurd (asked.symm.trans silent) (by simp)
    | text given stored =>
      cases Option.some.inj (given.symm.trans asked)
      obtain ⟨text, config, printed, copied, rfl⟩ := sprintfField_cases stored
      have bound := (sprintf_length printed).1
      have written := sprintf_fits field state.uConfig printed (by omega)
      simp only [TextField.sprintf, printed] at written
      cases copied.symm.trans written
      refine ⟨text, printed, ?_⟩
      rw [StringSetting.array, array_setArray, CharArray.text_overwrite _ _ (by omega)]

/-- A register whose turn comes first lies lower in memory, and none has a second turn. -/
def ahead : Register → Register → Bool
  | .deviceid, .deviceid => false
  | .text first, .text second => first.offset + 32 ≤ second.offset
  | _, _ => true

theorem allRegisters_ahead : allRegisters.Pairwise fun first second => ahead first second = true := by
  decide +kernel

theorem ahead_spares {register : Register} (behind : ahead setting.register register = true) :
    Spares root setting register := by
  cases setting with
  | deviceid => cases register <;> trivial
  | config field =>
    cases register with
    | text other =>
      intro format text asked printed
      exact .inl (of_decide_eq_true behind)
    | _ => trivial

/-- From its own turn on the string is what `sprintf` made of it. -/
theorem writes_set {before after : List Register} (whole : before ++ after = allRegisters)
    (writes : Writes root before state middle) (past : setting.register ∈ before)
    (asked : setting.asked root = some format) (short : format.length ≤ 31) :
    ∃ text, CText.sprintf format = some text ∧ (setting.array middle).text = text := by
  obtain ⟨earlier, later, reached, left, rfl, -, write, rest⟩ := writes.split past
  obtain ⟨text, printed, set⟩ := write_sets write asked short
  have ordered := allRegisters_ahead
  rw [← whole, List.append_assoc, List.cons_append] at ordered
  have behind := (List.pairwise_cons.mp (List.pairwise_append.mp ordered).2.1).1
  -- What has its turn later lies higher in memory, so not even an overlong string reaches back.
  have kept : setting.array middle = setting.array left :=
    writes_spare rest fun register member => ahead_spares (behind register (by simp [member]))
  exact ⟨text, printed, by rw [kept, set]⟩

theorem readBack_held (setting : StringSetting) (state : State) (short : (setting.array state).text.length < 32) :
    readBack setting.register state = .ok (.string (setting.array state).text) := by
  cases setting with
  | deviceid => exact string_ok.mpr ((name_ok_iff state).mpr short)
  | config field => exact string_ok.mpr ((read_array_iff field state.uConfig).mpr (.inl short))

theorem asked_find (setting : StringSetting) :
    setting.asked root = (find root (path setting.register)).bind CJson.valuestring := by
  cases setting with
  | deviceid =>
    simp [StringSetting.asked, StringSetting.register, Request.deviceid, Request.setting, path, part, within, find]
  | config field =>
    cases field <;> simp [StringSetting.asked, StringSetting.register, Request.text, Request.setting, Request.plugName,
      path, part, within, find]

theorem asked_mentioned (asked : setting.asked root = some format) : mentioned root setting.register = true := by
  rw [asked_find] at asked
  obtain ⟨item, found, -⟩ := Option.bind_eq_some_iff.mp asked
  have present : (find root (path setting.register)).isSome = true := by rw [found, Option.isSome_some]
  cases setting <;> exact present

/-- The reply to the message that sets the string. -/
theorem runCommand_sets (ran : runCommand root state = .ok (next, reply)) (asked : setting.asked root = some format)
    (short : format.length ≤ 31) : ∃ text, CText.sprintf format = some text ∧ (setting.array next).text = text ∧
      find reply (path setting.register) = some (.string text) := by
  obtain ⟨text, printed, held⟩ := writes_set (List.append_nil allRegisters) (runCommand_writes ran)
    (mem_allRegisters setting.register) asked short
  obtain ⟨item, said, answered⟩ := (asked_mentioned asked ▸ (runCommand_shape ran).registers setting.register).due
  obtain @⟨before, after, middle, split, past, reached, rest, saw⟩ := said
  obtain ⟨same, again, read⟩ := writes_set split reached (past (turns_itself setting.register)) asked short
  cases Option.some.inj (again.symm.trans printed)
  have bound := (sprintf_length printed).1
  have told := readBack_held setting middle (by rw [read]; omega)
  rw [saw, read] at told
  exact ⟨text, printed, held, by rw [answered, Except.ok.inj told]⟩

/-- What a reply says of the string: its value where the message has it, and the name in any case. -/
structure Carries (setting : StringSetting) (text : CStr) (root reply : CJson) : Prop where
  echo : mentioned root setting.register = true → find reply (path setting.register) = some (.string text)
  name : setting = .deviceid → find reply [.ofString "name"] = some (.string text)

/-- The reply to a message that spares the string. -/
theorem runCommand_carries (ran : runCommand root state = .ok (next, reply))
    (spares : ∀ register, Spares root setting register) (held : (setting.array state).text = text)
    (short : text.length ≤ 31) : Carries setting text root reply := by
  have shape := runCommand_shape ran
  have kept {registers : List Register} {middle : State} (writes : Writes root registers state middle) :
      (setting.array middle).text = text := by
    rw [writes_spare writes fun register _ => spares register, held]
  constructor
  · intro due
    obtain ⟨item, said, answered⟩ := (due ▸ shape.registers setting.register).due
    obtain @⟨before, after, middle, split, past, reached, rest, saw⟩ := said
    have told := readBack_held setting middle (by rw [kept reached]; omega)
    rw [saw, kept reached] at told
    rw [answered, Except.ok.inj told]
  · rintro rfl
    obtain ⟨name, named, answered⟩ := shape.name
    have final : next.deviceid.text = text := kept (runCommand_writes ran)
    have read := (name_ok_iff next).mpr (by rw [final]; omega)
    rw [named, final] at read
    rw [answered, Except.ok.inj read]

/-- The request that arrives, if one does, spares the string. -/
def Spared (setting : StringSetting) (state : State) (event : Event) : Prop :=
  ∀ root, event.request state = some root → ∀ register, Spares root setting register

theorem step_spares {event : Event} (spared : Spared setting state event) (stepped : step state event = .ok next) :
    setting.array next = setting.array state := by
  have quiet : Internal fun current => setting.array current = setting.array state := {
    relay := fun current x value same => (relay_spares x value).trans same
    task := fun current x y task same => (task_spares x y task).trans same }
  cases step_cases stepped with
  | @command root reply accepted commanded =>
    have request : (Event.command (some root)).request state = some root := by simp [Event.request, accepted]
    exact writes_spare (runCommand_writes commanded) fun register _ => spared root request register
  | @switchPage url slot send found looped =>
    have request : (Event.switchPage url).request state = some (switchRoot slot) := by simp [Event.request, found]
    exact writes_spare (plugs_writes looped) fun register _ => spared _ request register
  | ignored unasked message same => rw [same]
  | keyPress same => rw [same]; exact quiet.keyShortPress rfl
  | scan same => rw [same]; exact quiet.scanTasks rfl

/-- The state holds the string, and every message that spares it is answered with it. -/
structure Keeps (setting : StringSetting) (text : CStr) (state : State) : Prop where
  held : (setting.array state).text = text
  replies : ∀ root outcome reply, userFunctionCmdReceived (some root) state = .ok outcome →
    outcome.reply = some reply → (∀ register, Spares root setting register) → Carries setting text root reply
  reports : setting = .deviceid → ∀ root outcome report, userFunctionCmdReceived (some root) state = .ok outcome →
    outcome.report = some report → find report [.ofString "name"] = some (.string text)

theorem Keeps.of_held (held : (setting.array state).text = text) (short : text.length ≤ 31) :
    Keeps setting text state := by
  refine ⟨held, ?_, ?_⟩
  · intro root outcome reply ran replied spares
    cases accepted : isAccepted root state with
    | false =>
      rw [(refused_state accepted ran).2] at replied
      cases replied
    | true =>
      obtain ⟨other, commanded, same⟩ := accepted_ran accepted ran
      cases Option.some.inj (replied.symm.trans same)
      exact runCommand_carries commanded spares held short
  · rintro rfl root outcome report ran reported
    have name : state.name = .ok text := by
      have held : state.deviceid.text = text := held
      rw [(name_ok_iff state).mpr (by rw [held]; omega), held]
    obtain ⟨sent, built, ran⟩ := Runs.bind_ok.mp ran
    have same : outcome.report = sent := by
      split at ran
      · obtain ⟨done, -, ran⟩ := Runs.bind_ok.mp ran
        cases ran
        rfl
      · cases ran
        rfl
    rw [← same, reported] at built
    unfold reportSection at built
    split at built
    · obtain ⟨told, built, same⟩ := Runs.map_ok.mp built
      cases same
      simp only [deviceReport, name] at built
      cases built
      rfl
    · cases built

/-- Every string of the message can be stored, and its `ota` copied. -/
structure Printable (root : CJson) : Prop where
  text : ∀ field format, Request.text root field = some format → Storable field format
  deviceid : ∀ format, Request.deviceid root = some format → StorableDeviceid format
  ota : ¬ Request.OtaUnreadable root

theorem runCommand_printable (ran : runCommand root state = .ok (next, reply)) : Printable root := by
  have writes := runCommand_writes ran
  refine ⟨?_, ?_, runCommand_readable ran⟩
  · intro field format asked
    obtain ⟨earlier, later, before, after, -, -, write, -⟩ := writes.split (mem_allRegisters (.text field))
    cases write with
    | unasked silent => exact absurd (asked.symm.trans silent) (by simp)
    | text given stored =>
      cases Option.some.inj (given.symm.trans asked)
      exact (sprintfField_defined_iff field format before).mp ⟨after, stored⟩
  · intro format asked
    obtain ⟨earlier, later, before, after, -, -, write, -⟩ := writes.split (mem_allRegisters .deviceid)
    cases write with
    | unasked silent => exact absurd (asked.symm.trans silent) (by simp)
    | deviceid given stored =>
      cases Option.some.inj (given.symm.trans asked)
      exact (sprintfDeviceid_defined_iff format before).mp ⟨after, stored⟩

theorem Printable.servable (printable : Printable root) (sound : Sound state) : Servable root state where
  text field format current asked :=
    (sprintfField_defined_iff field format current).mpr (printable.text field format asked)
  deviceid format current asked :=
    (sprintfDeviceid_defined_iff format current).mpr (printable.deviceid format asked)
  ota := printable.ota
  reads register _ _ writes _ _ := (soundStores.writes sound writes).readBack_defined register

/-- The message stores the string and reports it, and so it stays until a message does not spare it. -/
def StoresExactly (setting : StringSetting) (text : CStr) (root : CJson) (state : State) : Prop :=
  ∃ outcome reply, userFunctionCmdReceived (some root) state = .ok outcome ∧ outcome.reply = some reply ∧
    find reply (path setting.register) = some (.string text) ∧
    ∀ later, Runs.Meets step (Spared setting) outcome.state later →
      Runs.Along step (Keeps setting text) outcome.state later

/-- In every state whose strings have an end a string of at most 31 bytes is stored, reported and kept as
it is exactly when it has no percent sign and the strings beside it can be stored. -/
theorem stores_exactly_iff (sound : Sound state) (accepted : isAccepted root state = true)
    (asked : setting.asked root = some text) (short : text.length ≤ 31) :
    StoresExactly setting text root state ↔ 37 ∉ text.bytes ∧ Printable root := by
  constructor
  · intro exactly
    obtain ⟨outcome, reply, ran, replied, told, -⟩ := exactly
    obtain ⟨other, commanded, same⟩ := accepted_ran accepted ran
    cases Option.some.inj (replied.symm.trans same)
    obtain ⟨stored, printed, held, answered⟩ := runCommand_sets commanded asked short
    refine ⟨?_, runCommand_printable commanded⟩
    intro percent
    have shorter := (sprintf_length printed).2 percent
    rw [CJson.string.inj (Option.some.inj (answered.symm.trans told))] at shorter
    exact Nat.lt_irrefl _ shorter
  · intro both
    obtain ⟨plain, printable⟩ := both
    obtain ⟨report, reported⟩ := reportSection_defined root fun _ => sound.name_defined
    obtain ⟨⟨next, reply⟩, ran⟩ := runCommand_defined (printable.servable sound)
    obtain ⟨stored, printed, held, answered⟩ := runCommand_sets ran asked short
    cases (sprintf_plain plain).symm.trans printed
    refine ⟨_, reply, accepted_served accepted reported ran, rfl, answered, ?_⟩
    intro later spared
    apply spared.along (Keeps setting text) (.of_held held short)
    intro current event after keeps here stepped
    exact .of_held (by rw [step_spares here stepped, keeps.held]) short

theorem stores_exactly_iff_lamp :
    StoresExactly (.config (.plugName 0)) (.ofString "lamp") (exampleName (.ofString "lamp")) exampleBoot ↔
      37 ∉ (CStr.ofString "lamp").bytes ∧ Printable (exampleName (.ofString "lamp")) := by
  have sound : Sound exampleBoot := boot_sound exampleMac (.ofString "192.168.1.20")
  exact stores_exactly_iff sound (by decide) rfl (by decide)

/-- `sprintf` takes the two percent signs of `100%%` for one. -/
theorem percent_altered :
    ¬ ∀ (strMac strIp : CStr) (past : List Event) (state : State) (root : CJson) (setting : StringSetting)
      (text : CStr), Runs.run step (boot strMac strIp) past = .ok state → isAccepted root state = true →
      setting.asked root = some text → text.length ≤ 31 → StoresExactly setting text root state := by
  intro assumed
  let text : CStr := .ofString "100%%"
  obtain ⟨outcome, reply, ran, -, -, kept⟩ :=
    assumed _ _ [] exampleBoot (exampleName text) (.config (.plugName 0)) text rfl (by decide) rfl (by decide)
  have held : (outcome.state.uConfig.plug 0).name.text = text := (kept [] trivial).held
  obtain ⟨other, again, short⟩ : ∃ outcome,
      userFunctionCmdReceived (some (exampleName text)) exampleBoot = .ok outcome ∧
      (outcome.state.uConfig.plug 0).name.text = .ofString "100%" := Runs.map_ok.mp (by decide +kernel)
  cases ran.symm.trans again
  rw [held] at short
  revert short
  decide

end PhicommTC1.Proofs.StringValues
