import PhicommTC1.Proofs.CommandReply
import PhicommTC1.Proofs.RelayRecords
import PhicommTC1.Proofs.RepeatedCommand

/-! A reply as a message. What a reply says of a setting is what a message says to have it so, and its name has it
accepted by any device. -/

namespace PhicommTC1.Proofs.ReplyRestores
open CText LastWriter Entries PhicommTC1 CommandReply CommandDefined CommandEffect CommandWrites ReplyShape
open RepeatedCommand (Closed)
variable {root reply : CJson} {state next other : State}

/-- What the handler makes of the member a register belongs to. -/
def told : (register : Register) → CJson → Option register.Value
  | .switch _, item => item.numberValue.map fun value => .driven (toByte value)
  | .task _ _, item => taskOf item
  | .text _, item => item.valuestring
  | .deviceid, item => item.valuestring
  | .mqttPort, item => item.numberValue

theorem value_find (root : CJson) (register : Register) :
    Request.value root register = (find root (path register)).bind (told register) := by
  cases register with
  | switch x =>
    simp only [Request.value, Request.on, path, part, within, find, Option.bind_eq_bind]
    cases root.getObjectItem (plugStr x) with
    | none => rfl
    | some plug =>
      cases found : plug.getObjectItem (.ofString "on") with
      | none => simp [found]
      | some item => cases number : item.numberValue <;> simp [found, number, told]
  | task x y =>
    simp only [Request.value, Request.task, path, part, within, find, Option.bind_eq_bind, Option.bind_assoc,
      Option.bind_some]
    rfl
  | text field =>
    cases field <;>
      (simp only [Request.value, Request.text, Request.setting, Request.plugName, path, part, within, find,
        Option.bind_eq_bind, Option.bind_assoc, Option.bind_some]
       rfl)
  | deviceid | mqttPort =>
    simp only [Request.value, Request.deviceid, Request.mqttPort, Request.setting, path, part, within, find,
      Option.bind_eq_bind, Option.bind_assoc, Option.bind_some]
    rfl

theorem toByte_ofNat (byte : UInt8) : toByte (Int32.ofNat byte.toNat) = byte := by
  apply UInt8.toNat_inj.mp
  have small := byte.toNat_lt
  have bits : (Int32.ofNat byte.toNat).toUInt32 = UInt32.ofNat byte.toNat := rfl
  rw [toByte, bits, UInt32.toNat_toUInt8, UInt32.toNat_ofNat']
  omega

theorem taskOf_echoTask (task : UserPlugTaskConfig) : taskOf (echoTask task) = some task := by
  have bytes : taskOf (echoTask task) = some ⟨toByte (Int32.ofNat task.hour.toNat),
      toByte (Int32.ofNat task.minute.toNat), toByte (Int32.ofNat task.repeats.toNat),
      toByte (Int32.ofNat task.action.toNat), toByte (Int32.ofNat task.on.toNat)⟩ := rfl
  simp only [bytes, toByte_ofNat]

/-- What is shown of a register is read as its value. -/
theorem told_shown (settled : RelayRecords.Settled state) (register : Register) :
    told register (shown register (state.registers register)) = some (state.registers register) := by
  cases register with
  | switch x =>
    have driven : state.registers (.switch x) = Switch.driven (state.switch x).record := settled x
    simp only [told, shown, CJson.numberValue, Option.map_some, toByte_ofNat, driven]
    rfl
  | task x y => exact taskOf_echoTask _
  | _ => rfl

theorem getObjectItem_mem {send : Members} {key : CStr} {item : CJson}
    (found : (CJson.object send).getObjectItem key = some item) : ∃ name, (name, item) ∈ send ∧ sameKey name key = true := by
  obtain ⟨member, first, rfl⟩ := Option.map_eq_some_iff.mp found
  have matched := List.find?_some first
  exact ⟨member.1, List.mem_of_find?_eq_some first, matched⟩

/-- Under the key of `ota` there are only strings. -/
def OtaStrings (send : Members) : Prop :=
  ∀ member ∈ send, sameKey member.1 (.ofString "ota") = true → member.2.valuestring ≠ none

theorem OtaStrings.nil : OtaStrings [] := fun _ listed => absurd listed List.not_mem_nil

theorem valuestring_string (text : CStr) : (CJson.string text).valuestring ≠ none := Option.some_ne_none text

theorem OtaStrings.addItem {send : Members} {key : CStr} {item : CJson} (strings : OtaStrings send)
    (good : sameKey key (.ofString "ota") = true → item.valuestring ≠ none) : OtaStrings (send.addItem key item) := by
  intro member listed
  rcases List.mem_append.mp listed with earlier | newest
  · exact strings member earlier
  · rw [List.mem_singleton.mp newest]
    exact good

theorem OtaStrings.echoString {key : CStr} {p : Option CJson} {stored : Exec CStr} {send after : Members}
    (strings : OtaStrings send) (ran : echoString key p stored send = .ok after) : OtaStrings after := by
  cases p with
  | none => cases ran; exact strings
  | some member =>
    obtain ⟨text, -, added⟩ := Runs.bind_ok.mp ran
    cases added
    exact strings.addItem fun _ => valuestring_string text

theorem echoSetting_strings {pSetting : CJson} {send : Members} (ran : echoSetting pSetting state = .ok send) :
    OtaStrings send := by
  obtain ⟨withOta, ota, ran⟩ := Runs.bind_ok.mp ran
  obtain ⟨withName, name, ran⟩ := Runs.bind_ok.mp ran
  obtain ⟨withIp, ip, ran⟩ := Runs.bind_ok.mp ran
  obtain ⟨withUser, user, password⟩ := Runs.bind_ok.mp ran
  have first : OtaStrings withOta := by
    cases found : pSetting.getObjectItem (.ofString "ota") with
    | none =>
      rw [found] at ota
      cases ota
      exact .nil
    | some item =>
      cases text : item.valuestring with
      | none => simp only [echoOta, found, text, Members.addString] at ota; cases ota
      | some text' =>
        simp only [echoOta, found, text, Members.addString] at ota
        cases ota
        exact OtaStrings.nil.addItem fun _ => valuestring_string text'
  have port : OtaStrings (echoMqttPort (pSetting.getObjectItem (.ofString "mqtt_port")) state.uConfig withIp) := by
    unfold echoMqttPort
    split
    · exact ((first.echoString name).echoString ip).addItem fun same => absurd same (by decide)
    · exact (first.echoString name).echoString ip
  exact (port.echoString user).echoString password

/-- Under the key of `setting` there are only objects with a readable `ota`. -/
def OtaReadable (send : Members) : Prop := ∀ member ∈ send, sameKey member.1 (.ofString "setting") = true →
  ∀ ota, member.2.getObjectItem (.ofString "ota") = some ota → ota.valuestring ≠ none

theorem OtaReadable.append {send more : Members} (readable : OtaReadable send)
    (others : ∀ member ∈ more, sameKey member.1 (.ofString "setting") = false) : OtaReadable (send ++ more) := by
  intro member listed same
  rcases List.mem_append.mp listed with earlier | newest
  · exact readable member earlier same
  · rw [others member newest] at same
    cases same

private theorem other_keys : (∀ x : Plug, sameKey (plugStr x) (.ofString "setting") = false) ∧
    sameKey (.ofString "mac") (.ofString "setting") = false ∧
    sameKey (.ofString "version") (.ofString "setting") = false ∧
    sameKey (.ofString "name") (.ofString "setting") = false := by decide

theorem reply_readable (ran : runCommand root state = .ok (next, reply)) : ¬ Request.OtaUnreadable reply := by
  obtain ⟨plugKeys, macKey, versionKey, nameKey⟩ := other_keys
  unfold runCommand at ran
  obtain ⟨withMac, mac, ran⟩ := Runs.bind_ok.mp ran
  obtain ⟨withVersion, version, ran⟩ := Runs.bind_ok.mp ran
  obtain ⟨⟨configured, withSetting⟩, setting, ran⟩ := Runs.bind_ok.mp ran
  obtain ⟨⟨last, withPlugs⟩, looped, ran⟩ := Runs.bind_ok.mp ran
  obtain ⟨name, named, ran⟩ := Runs.bind_ok.mp ran
  obtain ⟨send, added, ran⟩ := Runs.bind_ok.mp ran
  cases ran
  cases mac
  cases added
  have first : OtaReadable withVersion := by
    have versioned := versionSection_members version
    rw [versioned]
    apply OtaReadable.append
    · intro member listed same
      cases List.mem_singleton.mp listed
      exact absurd (macKey.symm.trans same) nofun
    · intro member listed
      cases asked : root.getObjectItem (.ofString "version") with
      | none => rw [asked] at listed; cases listed
      | some item =>
        rw [asked] at listed
        cases List.mem_singleton.mp listed
        exact versionKey
  have second : OtaReadable withSetting := by
    unfold settingSection at setting
    split at setting
    next => cases setting; exact first
    next pSetting found =>
      obtain ⟨stored, -, setting⟩ := Runs.bind_ok.mp setting
      obtain ⟨echoed, echoes, setting⟩ := Runs.bind_ok.mp setting
      cases setting
      intro member listed same ota present
      rcases List.mem_append.mp listed with earlier | newest
      · exact first member earlier same ota present
      · rw [List.mem_singleton.mp newest] at present
        obtain ⟨key, inside, matched⟩ := getObjectItem_mem present
        exact echoSetting_strings echoes _ inside matched
  have third : OtaReadable withPlugs := by
    obtain ⟨plugs, grown, keys, -⟩ := plugs_members looped
    dsimp only at grown
    rw [grown]
    apply second.append
    intro member listed
    obtain ⟨entry, inside, written⟩ := List.mem_filterMap.mp listed
    obtain ⟨item, -, rfl⟩ := Option.map_eq_some_iff.mp written
    have key : entry.1 ∈ (List.finRange 6).map plugStr := keys ▸ List.mem_map_of_mem inside
    obtain ⟨x, -, same⟩ := List.mem_map.mp key
    rw [← same]
    exact plugKeys x
  have whole : OtaReadable (withPlugs.addItem (.ofString "name") (.string name)) := by
    apply third.append
    intro member listed
    rw [List.mem_singleton.mp listed]
    exact nameKey
  rintro ⟨ota, present, unread⟩
  obtain ⟨setting, found, present⟩ := Option.bind_eq_some_iff.mp present
  obtain ⟨key, listed, matched⟩ := getObjectItem_mem found
  exact whole _ listed matched ota present unread

theorem mentioned_reply (describes : Describes root next reply) (register : Register) :
    mentioned reply register = mentioned root register := by
  have said := describes.registers register
  have present (other : ∀ x, register ≠ .switch x) : mentioned reply register = mentioned root register := by
    have reads : mentioned reply register = (find reply (path register)).isSome := by
      cases register with
      | switch x => exact absurd rfl (other x)
      | _ => rfl
    rw [reads, said]
    cases mentioned root register <;> rfl
  cases register with
  | switch x => rfl
  | _ => exact present nofun

/-- A reply asks for every setting it mentions as the device that gave it had it, and for nothing else. -/
theorem value_reply (describes : Describes root next reply) (settled : RelayRecords.Settled next)
    (register : Register) : Request.value reply register =
      if mentioned root register then some (next.registers register) else none := by
  rw [value_find, describes.registers register]
  split
  next => rw [Option.bind_some, told_shown settled]
  next => rfl

theorem settled_run {strMac strIp : CStr} {events : List Event} (fits : ∀ event ∈ events, event.Fits)
    (reached : Runs.run step (boot strMac strIp) events = .ok state) : RelayRecords.Settled state :=
  DeviceSteps.run_switch (fun switch => switch = .driven switch.record) (fun _ => rfl) (fun _ => rfl) fits reached

theorem Sound.deviceid_short (sound : Sound state) : state.deviceid.text.length < 32 :=
  Nat.lt_of_le_of_lt (CharArray.text_length_le _ sound.deviceid) (by decide)

theorem legible (closed : Closed state) (sound : Sound state) (root : CJson) : Legible root state where
  deviceid _ := Sound.deviceid_short sound
  text field _ _ := .inl (closed field)

/-- A reply is a backup of every setting it mentions. Any device in any state accepts it as a message and has
those settings afterwards as they were reported, its others as they were, and reports the same in its turn. -/
theorem reply_restores (strMac strIp otherMac otherIp : CStr) (past otherPast : List Event) (state other : State)
    (root reply : CJson) (outcome : Outcome) (fits : ∀ event ∈ past, event.Fits)
    (otherFits : ∀ event ∈ otherPast, event.Fits) (reached : Runs.run step (boot strMac strIp) past = .ok state)
    (otherReached : Runs.run step (boot otherMac otherIp) otherPast = .ok other) (plain : Request.Plain root)
    (ran : userFunctionCmdReceived (some root) state = .ok outcome) (replied : outcome.reply = some reply)
    (replyPlain : Request.Plain reply) : ∃ restored again,
      userFunctionCmdReceived (some reply) other = .ok restored ∧ restored.reply = some again ∧
      (∀ register, restored.state.registers register =
        if mentioned root register then outcome.state.registers register else other.registers register) ∧
      ∀ register, find again (path register) = find reply (path register) := by
  have sound : Sound state := DeviceSteps.run_sound reached
  have otherSound : Sound other := DeviceSteps.run_sound otherReached
  have accepted : isAccepted root state = true := by
    by_contra refused
    rw [(refused_state (by simpa using refused) ran).2] at replied
    cases replied
  obtain ⟨made, commanded, same⟩ := accepted_ran accepted ran
  cases Option.some.inj (same.symm.trans replied)
  have describes := describes_of_legible (legible (RepeatedCommand.run_closed fits reached) sound root) plain commanded
  have stepped : step state (.command (some root)) = .ok outcome.state := Runs.bind_ok.mpr ⟨outcome, ran, rfl⟩
  have eventFits : Event.Fits (.command (some root)) := plain.fits
  have settled : RelayRecords.Settled outcome.state :=
    DeviceSteps.step_switch (fun switch => switch = .driven switch.record) (fun _ => rfl) (settled_run fits reached)
      eventFits stepped
  -- The other device: the reply is a message it can serve.
  have welcome : isAccepted reply other = true := by
    have name := describes.name
    rw [find_one] at name
    simp [isAccepted, name, CJson.valuestring]
  obtain ⟨report, reported⟩ := reportSection_defined reply fun _ => otherSound.name_defined
  obtain ⟨⟨restored, again⟩, served⟩ := runCommand_defined (otherSound.servable replyPlain (reply_readable commanded))
  have told := describes_of_legible (legible (RepeatedCommand.run_closed otherFits otherReached) otherSound reply)
    replyPlain served
  have registers (register : Register) : restored.registers register =
      if mentioned root register then outcome.state.registers register else other.registers register := by
    rw [(runCommand_registers replyPlain.fits served).1, deliver, replyPlain.printed_eq,
      value_reply describes settled register]
    cases mentioned root register <;> rfl
  refine ⟨_, again, accepted_served welcome reported served, rfl, registers, ?_⟩
  intro register
  rw [told.registers, describes.registers, mentioned_reply describes, registers register]
  cases mentioned root register <;> rfl

def alarm : CJson := exampleTask ⟨7, 30, 127, 1, 1⟩

theorem plain_of_no_strings (fields : ∀ x, Request.text root (.plugName x) = none)
    (others : [Request.text root .mqttIp, Request.text root .mqttUser, Request.text root .mqttPassword,
      Request.deviceid root] = [none, none, none, none]) : Request.Plain root := by
  simp only [List.cons.injEq, and_true] at others
  obtain ⟨ip, user, password, deviceid⟩ := others
  constructor
  · intro field format asked
    have silent : Request.text root field = none := by
      cases field with
      | plugName x => exact fields x
      | mqttIp => exact ip
      | mqttUser => exact user
      | mqttPassword => exact password
    rw [silent] at asked
    cases asked
  · intro format asked
    rw [deviceid] at asked
    cases asked

/-- The alarm is copied to a device with another address, whose button was pressed before. -/
theorem reply_restores_alarm : ∃ outcome reply restored again,
    userFunctionCmdReceived (some alarm) exampleBoot = .ok outcome ∧ outcome.reply = some reply ∧
      userFunctionCmdReceived (some reply) (keyShortPress (boot (.ofString "d0bae4646f02") (.ofString "192.168.1.21"))) =
        .ok restored ∧ restored.reply = some again ∧
      (∀ register, restored.state.registers register = if mentioned alarm register then outcome.state.registers register
        else (keyShortPress (boot (.ofString "d0bae4646f02") (.ofString "192.168.1.21"))).registers register) ∧
      ∀ register, find again (path register) = find reply (path register) := by
  obtain ⟨outcome, ran, silent⟩ : ∃ outcome, userFunctionCmdReceived (some alarm) exampleBoot = .ok outcome ∧
      outcome.reply.map (fun reply => ((List.finRange 6).map fun x => Request.text reply (.plugName x),
        [Request.text reply .mqttIp, Request.text reply .mqttUser, Request.text reply .mqttPassword,
          Request.deviceid reply])) = some ((List.finRange 6).map fun _ => none, [none, none, none, none]) :=
    Runs.map_ok.mp (by decide +kernel)
  obtain ⟨reply, replied, silent⟩ := Option.map_eq_some_iff.mp silent
  simp only [Prod.mk.injEq, List.map_inj_left] at silent
  have replyPlain : Request.Plain reply := plain_of_no_strings (fun x => silent.1 x (List.mem_finRange x)) silent.2
  have plain : Request.Plain alarm := plain_of_no_strings (by decide) (by decide)
  obtain ⟨restored, again, served⟩ := reply_restores exampleMac (.ofString "192.168.1.20") (.ofString "d0bae4646f02")
    (.ofString "192.168.1.21") [] [.keyPress] exampleBoot _ alarm reply outcome nofun
    (by simp [Event.Fits]) rfl rfl plain ran replied replyPlain
  exact ⟨outcome, reply, restored, again, ran, replied, served⟩

end PhicommTC1.Proofs.ReplyRestores
