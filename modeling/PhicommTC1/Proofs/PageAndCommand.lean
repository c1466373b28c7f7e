import PhicommTC1.Proofs.DeviceSteps
import PhicommTC1.Proofs.PrintedText

/-! The page and the command handler drive the plugs alike. A page request has the effect of the
command that lists the same positions, and one that is refused has none. -/

namespace PhicommTC1.Proofs.PageAndCommand
open CText PhicommTC1 CommandDefined CommandWrites CommandEffect DeviceSteps PrintedText ScanPass
variable {state : State} {slot : Plug → CStr}

/-- `{"mac": strMac, "plug_0": {"on": v0}, …, "plug_5": {"on": v5}}` -/
def plugCommand (strMac : CStr) (slot : Plug → CStr) : CJson :=
  .object ((.ofString "mac", .string strMac) :: (List.finRange 6).map fun k =>
    (plugStr k, .object [(.ofString "on", .number (if slot k = one then 1 else 0))]))

/-- `{"plug_0": {"on": …}, …, "plug_5": {"on": …}}` with the values recorded in the settings. -/
def recorded (config : UConfig) : CJson :=
  .object ((List.finRange 6).map fun k =>
    (plugStr k, .object (Members.addByte [] (.ofString "on") (config.plug k).on)))

theorem plugCommand_plug (strMac : CStr) (slot : Plug → CStr) (i : Plug) :
    (plugCommand strMac slot).getObjectItem (plugStr i) = (switchRoot slot).getObjectItem (plugStr i) :=
  getObjectItem_skip (mac_plug i) _ _

/-- The command has no member but the address and the plugs. -/
theorem plugCommand_absent (strMac : CStr) (slot : Plug → CStr) {key : CStr}
    (other : sameIgnoringCase (CStr.ofString "mac").bytes key.bytes = false)
    (noPlug : ∀ k : Plug, sameIgnoringCase (plugStr k).bytes key.bytes = false) :
    (plugCommand strMac slot).getObjectItem key = none := by
  refine (getObjectItem_skip other _ _).trans ?_
  simp [CJson.getObjectItem, List.find?_map, Function.comp_def, noPlug]

theorem plugCommand_setting (strMac : CStr) (slot : Plug → CStr) :
    (plugCommand strMac slot).getObjectItem (.ofString "setting") = none :=
  plugCommand_absent strMac slot (by decide) (by decide)

theorem plugCommand_analysis (strMac : CStr) (slot : Plug → CStr) :
    jsonPlugAnalysis (plugCommand strMac slot) = jsonPlugAnalysis (switchRoot slot) := by
  funext work x
  simp only [jsonPlugAnalysis, plugCommand_plug]

theorem plugCommand_plain (strMac : CStr) (slot : Plug → CStr) : Request.Plain (plugCommand strMac slot) := by
  have setting (key : CStr) : Request.setting (plugCommand strMac slot) key = none := by
    simp [Request.setting, plugCommand_setting]
  have text (field : TextField) : Request.text (plugCommand strMac slot) field = none := by
    cases field with
    | plugName x => simp only [Request.text, Request.plugName, plugCommand_plug, switchRoot_plug]; rfl
    | _ => simp only [Request.text, setting]; rfl
  constructor
  · intro field format asked
    rw [text] at asked
    cases asked
  · intro format asked
    simp [Request.deviceid, setting] at asked

theorem plugCommand_accepted (state : State) (slot : Plug → CStr) :
    isAccepted (plugCommand state.strMac slot) state = true := by
  have mac : (plugCommand state.strMac slot).getObjectItem (.ofString "mac") = some (.string state.strMac) := rfl
  simp [isAccepted, mac, CJson.valuestring]

/-- The state a plug is analysed in decides the state it leaves, whatever the reply holds so far. -/
theorem plugAnalysis_state {root : CJson} {work other after : State × Members} (x : Plug) (same : work.1 = other.1)
    (ran : jsonPlugAnalysis root work x = .ok after) :
    ∃ result, jsonPlugAnalysis root other x = .ok result ∧ after.1 = result.1 := by
  obtain ⟨⟨updated, plugSend⟩, analysed, ran⟩ := Runs.bind_ok.mp ran
  cases ran
  rw [same] at analysed
  exact ⟨_, Runs.bind_ok.mpr ⟨_, analysed, rfl⟩, rfl⟩

theorem plugs_state {root : CJson} {plugs : List Plug} {work other after : State × Members} (same : work.1 = other.1)
    (looped : plugs.foldlM (jsonPlugAnalysis root) work = .ok after) :
    ∃ result, plugs.foldlM (jsonPlugAnalysis root) other = .ok result ∧ after.1 = result.1 := by
  apply IndexedLoop.foldlM_simulates (fun work other : State × Members => work.1 = other.1) _ same looped
  intro work other x next same ran
  exact plugAnalysis_state x same ran

/-- The command is served and leaves the state the page leaves. -/
theorem command_leaves (sound : Sound state) (slot : Plug → CStr) :
    ∃ outcome send, userFunctionCmdReceived (some (plugCommand state.strMac slot)) state = .ok outcome ∧
      (List.finRange 6).foldlM (jsonPlugAnalysis (switchRoot slot)) (state, []) = .ok (outcome.state, send) := by
  have readable : ¬ Request.OtaUnreadable (plugCommand state.strMac slot) := by
    intro unreadable
    obtain ⟨ota, member, -⟩ := unreadable
    simp [Request.setting, plugCommand_setting] at member
  obtain ⟨outcome, ran⟩ := (command_defined_iff sound (plugCommand_plain state.strMac slot)).mpr
    fun unread => readable unread.2
  obtain ⟨reply, commanded, -⟩ := accepted_ran (plugCommand_accepted state slot) ran
  obtain ⟨withVersion, work, send, configured, looped⟩ := runCommand_parts commanded
  rw [plugCommand_setting] at configured
  cases configured
  rw [plugCommand_analysis] at looped
  have start : (state, withVersion).1 = (state, ([] : Members)).1 := rfl
  obtain ⟨result, followed, same⟩ := plugs_state start looped
  have last : outcome.state = result.1 := same
  refine ⟨outcome, result.2, ran, ?_⟩
  rw [last]
  exact followed

theorem slot_number {value : CStr} (binary : value = zero ∨ value = one) :
    decimal (if value = one then 1 else 0 : Int32).toInt = value.bytes := by
  rcases binary with rfl | rfl <;> decide

theorem switchRoot_entries (slot : Plug → CStr) :
    switchRoot slot = .object ([0, 1, 2, 3, 4, 5].map fun k : Plug =>
      (plugStr k, .object [(.ofString "on", .number (if slot k = one then 1 else 0))])) := rfl

set_option maxRecDepth 4000 in
theorem sendBuf_printed (binary : ∀ k, slot k = zero ∨ slot k = one) :
    (sendBuf slot).bytes = CJson.printUnformatted (switchRoot slot) := by
  have number (k : Plug) := slot_number (binary k)
  rw [switchRoot_entries]
  simp only [CJson.printUnformatted, List.map_cons, List.map_nil, CJson.printValue, CJson.printMembers,
    CJson.printMember, CJson.layout, List.isEmpty_cons, List.isEmpty_nil, Bool.false_eq_true, if_false, if_true, number,
    sendBuf, CStr.append_bytes, List.append_assoc, List.nil_append]
  rfl

theorem switchRoot_readable (slot : Plug → CStr) : Readable (switchRoot slot) := by
  have number (k : Plug) : Exact (if slot k = one then 1 else 0) := by
    split <;> simp [Exact]
  apply readable_entries plugStr fun k => .object [(.ofString "on", .number (if slot k = one then 1 else 0))]
  intro k
  exact ⟨number k, trivial⟩

theorem sendBuf_parses (convert : Numeral → Int32) (binary : ∀ k, slot k = zero ∨ slot k = one) :
    cJSONParse convert (sendBuf slot) = .ok (some (switchRoot slot)) :=
  parse_print convert false (switchRoot_readable slot) (sendBuf_printed binary)

/-- What the page sends in is what the settings have recorded after it. -/
theorem switchPlugs_recorded {next : State} {send : Members}
    (looped : (List.finRange 6).foldlM (jsonPlugAnalysis (switchRoot slot)) (state, []) = .ok (next, send)) :
    recorded next.uConfig = switchRoot slot := by
  obtain ⟨registers, -⟩ := switchPlugs_registers looped
  have record (k : Plug) : (next.uConfig.plug k).on = if slot k = one then 1 else 0 := by
    rw [← switch_record, request_switch registers, switchRoot_on]
    rfl
  have number (k : Plug) :
      Int32.ofNat (if slot k = one then (1 : UInt8) else 0).toNat = if slot k = one then 1 else 0 := by
    split <;> rfl
  simp only [recorded, Members.addByte, Members.addItem, record, number, List.nil_append]
  rfl

/-- In every reachable state a page request that lists all six slots leaves what the command with the
same positions leaves and returns the recorded values; any other request leaves everything as it was. -/
theorem page_agrees_with_command {strMac strIp : CStr} {past : List Event}
    (reached : Runs.run step (boot strMac strIp) past = .ok state) (url : CStr) :
    (∀ slot, httpdArgFind url = some slot → ∃ next rsp outcome,
      switchCbk url state = .ok (next, rsp) ∧
      userFunctionCmdReceived (some (plugCommand state.strMac slot)) state = .ok outcome ∧ next = outcome.state ∧
      ∀ convert, cJSONParse convert rsp = .ok (some (recorded next.uConfig))) ∧
    (httpdArgFind url = none → ∃ rsp, switchCbk url state = .ok (state, rsp)) := by
  constructor
  · intro slot found
    obtain ⟨outcome, send, ran, looped⟩ := command_leaves (run_sound reached) slot
    have page : switchCbk url state = .ok (outcome.state, sendBuf slot) := by
      simp only [switchCbk, found]
      exact Runs.bind_ok.mpr ⟨_, looped, rfl⟩
    refine ⟨outcome.state, sendBuf slot, outcome, page, ran, rfl, ?_⟩
    intro convert
    rw [switchPlugs_recorded looped]
    exact sendBuf_parses convert (httpdArgFind_binary found)
  · intro absent
    refine ⟨.ofString "ret > 0", ?_⟩
    simp only [switchCbk, absent]

def allSlots : CStr := .ofString "/switch?slot0=1&slot1=0&slot2=0&slot3=0&slot4=0&slot5=1"

theorem page_agrees_with_command_allSlots : ∃ slot next rsp outcome, httpdArgFind allSlots = some slot ∧
    switchCbk allSlots exampleBoot = .ok (next, rsp) ∧
    userFunctionCmdReceived (some (plugCommand exampleBoot.strMac slot)) exampleBoot = .ok outcome ∧
    next = outcome.state ∧ ∀ convert, cJSONParse convert rsp = .ok (some (recorded next.uConfig)) := by
  have booted : Runs.run step exampleBoot [] = .ok exampleBoot := rfl
  obtain ⟨slot, found⟩ := Option.isSome_iff_exists.mp (by decide +kernel : (httpdArgFind allSlots).isSome = true)
  obtain ⟨next, rsp, outcome, agreed⟩ := (page_agrees_with_command booted allSlots).1 slot found
  exact ⟨slot, next, rsp, outcome, found, agreed⟩

end PhicommTC1.Proofs.PageAndCommand
