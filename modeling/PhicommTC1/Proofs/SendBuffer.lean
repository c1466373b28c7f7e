import PhicommTC1.Proofs.PrintedText
import PhicommTC1.Proofs.ReplySize
import PhicommTC1.Proofs.ReportEntries
import PhicommTC1.UserUdp

/-! Whether what the firmware sends fits the send buffer. Reports always do. A reply does not when
the request asks for enough of the settings back. -/

namespace PhicommTC1.Proofs.SendBuffer
open CText PhicommTC1 CommandWrites CommandDefined DeviceSteps StoreRules PrintedSize ReplySize
  ReportEntries
variable {root : CJson} {state : State}

def isHexDigit (byte : UInt8) : Bool := 48 ≤ byte && byte ≤ 57 || 65 ≤ byte && byte ≤ 70 || 97 ≤ byte && byte ≤ 102

/-- The texts in `char strMac[13]` and `char strIp[32]`. The first is an address such as "ACCF23FF8888". -/
structure Identity where
  strMac : CStr
  strIp : CStr
  macFits : strMac.length < 13
  macDigits : ∀ byte ∈ strMac.bytes, isHexDigit byte = true
  ipFits : strIp.length < 32

namespace Identity
variable (identity : Identity)

def boot : State := PhicommTC1.boot identity.strMac identity.strIp

def Of (state : State) : Prop := state.strMac = identity.strMac ∧ state.strIp = identity.strIp

theorem kept : Preserved identity.Of where
  relay state i y same := ⟨(userRelaySet_strMac i y state).trans same.1, (userRelaySet_strIp i y state).trans same.2⟩
  deviceid format state next same stored := by
    obtain ⟨text, -, -, rfl⟩ := sprintfDeviceid_cases stored
    exact same
  text field format state next same stored := by
    obtain ⟨config, -, stored⟩ := Runs.bind_ok.mp stored
    cases stored
    exact same
  mqttPort _ _ same := same
  task _ _ _ _ same := same

end Identity

theorem numberSize_byte (byte : UInt8) : numberSize (Int32.ofNat byte.toNat) ≤ 3 := by
  have small := byte.toNat_lt
  have value : (Int32.ofNat byte.toNat).toInt = byte.toNat := Int32.toInt_ofNat_of_lt (by omega)
  have positive : ¬ (byte.toNat : Int) < 0 := by omega
  rw [numberSize, value]
  simp only [decimal, if_neg positive, List.length_map, Int.natAbs_natCast]
  rw [Nat.length_toDigits_le_iff (by decide) (by decide)]
  omega

theorem byteMember_le (depth : Nat) (key : CStr) (byte : UInt8) :
    byteMember depth key byte ≤ depth + quotedSize key + 7 := by
  have := numberSize_byte byte
  simp only [byteMember, memberSize]
  omega

theorem textMember_le (depth : Nat) (key : CStr) {text : CStr} {size : Nat} (bound : quotedSize text ≤ size) :
    textMember depth key text ≤ depth + quotedSize key + size + 4 := by
  simp only [textMember, memberSize]
  omega

theorem quotedSize_plain {text : CStr} (plain : ∀ byte ∈ text.bytes, escapedSize byte = 1) :
    quotedSize text = text.length + 2 := by
  have ones : text.bytes.map escapedSize = List.replicate text.bytes.length 1 := by
    rw [List.map_congr_left plain, List.map_const']
  rw [quotedSize, ones, List.sum_replicate_nat, Nat.mul_one]
  rfl

theorem Identity.mac_quoted (identity : Identity) : quotedSize identity.strMac ≤ 14 := by
  have short := identity.macFits
  rw [quotedSize_plain]
  · omega
  · intro byte member
    have digit := identity.macDigits byte member
    simp only [isHexDigit, Bool.or_eq_true, Bool.and_eq_true, decide_eq_true_eq, UInt8.le_iff_toNat_le,
      UInt8.reduceToNat] at digit
    have plain : 31 < byte ∧ byte ≠ 34 ∧ byte ≠ 92 := by
      simp only [UInt8.lt_iff_toNat_lt, ne_eq, ← UInt8.toNat_inj, UInt8.reduceToNat]
      omega
    exact if_pos plain

theorem deviceReport_fits {identity : Identity} {report : CJson} (same : identity.Of state) (sound : Sound state)
    (made : deviceReport state = .ok report) : fitsData report := by
  obtain ⟨name, named, made⟩ := Runs.bind_ok.mp made
  obtain ⟨withName, name_added, made⟩ := Runs.bind_ok.mp made
  obtain ⟨withMac, mac_added, made⟩ := Runs.bind_ok.mp made
  obtain ⟨withType, type_added, made⟩ := Runs.bind_ok.mp made
  obtain ⟨root, ip_added, made⟩ := Runs.bind_ok.mp made
  cases made
  have nonempty : root ≠ [] := by
    cases ip_added
    simp [Members.addItem]
  have short : name.length ≤ 31 := by
    rw [readCStr_eq named]
    exact CharArray.text_length_le state.deviceid sound.deviceid
  have nameQuoted := quotedSize_le name
  have ipQuoted := quotedSize_le identity.strIp
  have ipShort := identity.ipFits
  have nameSize : textMember 1 (.ofString "name") name ≤ 1 + quotedSize (.ofString "name") + 188 + 4 :=
    textMember_le 1 _ (by omega)
  have macSize := textMember_le 1 (.ofString "mac") identity.mac_quoted
  have ipSize : textMember 1 (.ofString "ip") identity.strIp ≤ 1 + quotedSize (.ofString "ip") + 188 + 4 :=
    textMember_le 1 _ (by omega)
  have keys : quotedSize (.ofString "name") = 6 ∧ quotedSize (.ofString "mac") = 5 ∧ quotedSize (.ofString "ip") = 4 ∧
      memberSize 1 (.ofString "type") (CJson.printValue true 1 (.number TYPE)).length = 12 ∧
      textMember 1 (.ofString "type_name") TYPE_NAME = 22 := by decide
  obtain ⟨nameKey, macKey, ipKey, type, typeName⟩ := keys
  rw [fitsData, print_length nonempty, addString_size ip_added, addString_size type_added, membersSize_addItem,
    addString_size mac_added, addString_size name_added, same.1, same.2, type, typeName]
  simp only [membersSize, List.map_nil, List.sum_nil, MAX_UDP_DATA_SIZE]
  omega

theorem taskSize_le (task : UserPlugTaskConfig) : taskSize task ≤ 94 := by
  have hour := byteMember_le 4 (.ofString "hour") task.hour
  have minute := byteMember_le 4 (.ofString "minute") task.minute
  have repeats := byteMember_le 4 (.ofString "repeat") task.repeats
  have action := byteMember_le 4 (.ofString "action") task.action
  have on := byteMember_le 4 (.ofString "on") task.on
  have keys : quotedSize (.ofString "hour") = 6 ∧ quotedSize (.ofString "minute") = 8 ∧
      quotedSize (.ofString "repeat") = 8 ∧ quotedSize (.ofString "action") = 8 ∧
      quotedSize (.ofString "on") = 4 := by decide
  obtain ⟨hourKey, minuteKey, repeatKey, actionKey, onKey⟩ := keys
  simp only [taskSize, objectSize]
  omega

theorem strTemp2_quoted (marker : UInt8) : quotedSize (strTemp2 marker) ≤ 13 := by
  have every : ∀ n < 256, quotedSize (strTemp2 (UInt8.ofNat n)) ≤ 13 := by decide +kernel
  rw [← UInt8.ofNat_toNat (x := marker)]
  exact every marker.toNat marker.toNat_lt

theorem plugEntry_length (beyond : Plug → Nat → UserPlugTaskConfig) (config : UConfig) (i : Plug) (marker : UInt8) :
    memberSize 1 (plugStr i) (CJson.printValue true 1 (plugEntry beyond config i marker)).length ≤ 162 := by
  have on := byteMember_le (0 + 2) (.ofString "on") (config.plug i).on
  have task := taskSize_le (taskAt beyond config i marker.toNat)
  have slot := strTemp2_quoted marker
  have keys : quotedSize (.ofString "on") = 4 ∧ quotedSize (.ofString "setting") = 9 := by decide
  have plug : ∀ i : Plug, quotedSize (plugStr i) = 8 := by decide
  obtain ⟨onKey, settingKey⟩ := keys
  rw [plugEntry, object_length, membersSize_addItem, object_length, membersSize_addItem, echoTask_length, addByte_size]
  simp only [membersSize, List.map_nil, List.sum_nil, memberSize, objectSize, plug]
  omega

theorem schedulerReport_fits {identity : Identity} (beyond : Plug → Nat → UserPlugTaskConfig) {scan : Scan}
    (same : identity.Of scan.state) : fitsData (.object (Report.build beyond scan).jsonSend) := by
  let plugs : Members := (List.finRange 6).map fun i =>
    (plugStr i, plugEntry beyond scan.state.uConfig i (scan.taskFlag i))
  have entries : membersSize 1 plugs ≤ 6 * 162 := by
    have each : ∀ size ∈ plugs.map fun member => memberSize 1 member.1 (CJson.printValue true 1 member.2).length,
        size ≤ 162 := by
      simp only [plugs, List.map_map, List.mem_map]
      intro size member
      obtain ⟨i, -, rfl⟩ := member
      exact plugEntry_length beyond scan.state.uConfig i (scan.taskFlag i)
    have sum := List.sum_le_card_nsmul _ 162 each
    simp only [List.length_map, plugs, List.length_finRange, smul_eq_mul] at sum
    exact sum
  have mac := textMember_le 1 (.ofString "mac") identity.mac_quoted
  have key : quotedSize (.ofString "mac") = 5 := by decide
  have whole : membersSize 1 (Report.build beyond scan).jsonSend =
      textMember 1 (.ofString "mac") identity.strMac + membersSize 1 plugs := by
    rw [build_eq, same.1]
    simp only [membersSize, List.map_cons, List.sum_cons, textMember, CJson.printValue, printStringPtr_length, plugs]
  have nonempty : (Report.build beyond scan).jsonSend ≠ [] := by
    rw [build_eq]
    exact List.cons_ne_nil _ _
  rw [fitsData, print_length nonempty, whole, MAX_UDP_DATA_SIZE]
  omega

/-- The reply as counted from the request and the memory before it stays within the buffer. -/
abbrev ReplyFits (root : CJson) (state : State) : Prop := replySize root state ≤ MAX_UDP_DATA_SIZE

theorem reportSection_fits {identity : Identity} {report : Option CJson} (same : identity.Of state)
    (sound : Sound state) (made : reportSection root state = .ok report) : ∀ text ∈ report.toList, fitsData text := by
  unfold reportSection at made
  split at made
  · obtain ⟨report, built, rfl⟩ := Runs.map_ok.mp made
    intro text member
    cases List.mem_singleton.mp member
    exact deviceReport_fits same sound built
  · cases made
    intro text member
    cases member

theorem command_fits_iff {identity : Identity} {outcome : Outcome} (same : identity.Of state) (sound : Sound state)
    (accepted : isAccepted root state = true) (ran : userFunctionCmdReceived (some root) state = .ok outcome) :
    (∀ text ∈ outcome.sent, fitsData text) ↔ ReplyFits root state := by
  obtain ⟨report, made, ran⟩ := Runs.bind_ok.mp ran
  rw [if_pos accepted] at ran
  obtain ⟨⟨last, reply⟩, commanded, ran⟩ := Runs.bind_ok.mp ran
  cases ran
  have fits : fitsData reply ↔ ReplyFits root state := by
    rw [fitsData, runCommand_size commanded]
  rw [← fits]
  constructor
  · intro all
    exact all reply (List.mem_append_right _ (List.mem_singleton.mpr rfl))
  · intro replyFits text member
    rcases List.mem_append.mp member with reported | replied
    · exact reportSection_fits same sound made text reported
    · rw [List.mem_singleton.mp replied]
      exact replyFits

/-- In every reachable state the texts an accepted message makes the handler send fit the buffer exactly
when the reply counted from it does, and the report of a scan pass fits whatever the pass finds. -/
theorem sent_texts_fit_iff (identity : Identity) {past : List Event}
    (reached : Runs.run step identity.boot past = .ok state) :
    (∀ root outcome, isAccepted root state = true → userFunctionCmdReceived (some root) state = .ok outcome →
      ((∀ text ∈ outcome.sent, fitsData text) ↔ ReplyFits root state)) ∧
    ∀ beyond tm taskFlag report, (scanPass tm (.start state taskFlag)).report beyond = some report →
      fitsData (.object report.jsonSend) := by
  have same : identity.Of state := identity.kept.run ⟨rfl, rfl⟩ reached
  have sound : Sound state := run_sound reached
  constructor
  · intro root outcome accepted ran
    exact command_fits_iff same sound accepted ran
  · intro beyond tm taskFlag report reported
    unfold Scan.report at reported
    split at reported
    · cases reported
      apply schedulerReport_fits
      apply identity.kept.scanPass
      exact same
    · cases reported

def exampleIdentity : Identity :=
  ⟨exampleMac, .ofString "192.168.1.20", by decide, List.all_eq_true.mp (by decide), by decide⟩

/-- `{"name": "", "plug_0": {"setting": {"task_0": 0, …, "task_4": 0}}, …, "plug_5": …}` -/
def crowded : CJson :=
  .object ((.ofString "name", .string (.ofString "")) :: (List.finRange 6).map fun x => (plugStr x,
    .object [(.ofString "setting", .object ((List.finRange 5).map fun y => (plugTaskStr y, .number 0)))]))

/-- After a command that names a plug the reply to `crowded` is still too long. -/
theorem sent_texts_fit_iff_crowded :
    ∃ state outcome, Runs.run step exampleBoot [.command (some (exampleName (.ofString "Lamp")))] = .ok state ∧
      userFunctionCmdReceived (some crowded) state = .ok outcome ∧
      (¬ ∀ text ∈ outcome.sent, fitsData text) ∧
      ∀ beyond tm taskFlag report, (scanPass tm (.start state taskFlag)).report beyond = some report →
        fitsData (.object report.jsonSend) := by
  obtain ⟨state, reached, known⟩ : ∃ state,
      Runs.run step exampleBoot [.command (some (exampleName (.ofString "Lamp")))] = .ok state ∧
      (isAccepted crowded state, (userFunctionCmdReceived (some crowded) state).toOption.isSome,
        decide (ReplyFits crowded state)) = (true, true, false) := Runs.map_ok.mp (by decide +kernel)
  simp only [Prod.mk.injEq, decide_eq_false_iff_not] at known
  obtain ⟨accepted, defined, long⟩ := known
  cases ran : userFunctionCmdReceived (some crowded) state with
  | error fault =>
    rw [ran] at defined
    cases defined
  | ok outcome =>
    obtain ⟨commands, reports⟩ := sent_texts_fit_iff exampleIdentity reached
    exact ⟨state, outcome, reached, ran, mt (commands crowded outcome accepted ran).mp long, reports⟩

def crowdedMessage : CStr := ⟨CJson.printUnformatted crowded, by decide +kernel⟩

theorem crowded_readable : PrintedText.Readable crowded := by
  have task (y : Slot) : PrintedText.Readable (.number 0) := by simp [PrintedText.Readable, PrintedText.Exact]
  have setting : PrintedText.Readable (.object ((List.finRange 5).map fun y => (plugTaskStr y, .number 0))) :=
    PrintedText.readable_entries plugTaskStr _ (List.finRange 5) task
  exact ⟨trivial, PrintedText.readable_entries plugStr _ (List.finRange 6) fun _ => ⟨setting, trivial⟩⟩

/-- A message of 479 bytes mentions all thirty tasks. Its reply has 3288. -/
theorem crowded_leaves_buffer :
    ¬ ∀ (identity : Identity) (past : List Event) (state : State) (convert : Numeral → Int32) (message : CStr)
      (root : CJson) (outcome : Outcome), Runs.run step identity.boot past = .ok state → message.length ≤ 511 →
      cJSONParse convert message = .ok (some root) → isAccepted root state = true →
      userFunctionCmdReceived (some root) state = .ok outcome → ∀ text ∈ outcome.sent, fitsData text := by
  intro assumed
  have short : crowdedMessage.length ≤ 511 := by decide +kernel
  have parsed : cJSONParse (fun _ => 0) crowdedMessage = .ok (some crowded) :=
    PrintedText.parse_print _ false crowded_readable rfl
  obtain ⟨outcome, ran, -⟩ : ∃ outcome, userFunctionCmdReceived (some crowded) exampleBoot = .ok outcome ∧
      outcome.reply.isSome = true := Runs.map_ok.mp (by decide +kernel)
  have accepted : isAccepted crowded exampleBoot = true := by decide
  obtain ⟨reply, commanded, replied⟩ := accepted_ran accepted ran
  have booted : Runs.run step exampleIdentity.boot [] = .ok exampleBoot := rfl
  have sent : reply ∈ outcome.sent := by simp [Outcome.sent, replied]
  have fits := assumed exampleIdentity [] exampleBoot _ crowdedMessage crowded outcome booted short parsed accepted ran
    reply sent
  have size : replySize crowded exampleBoot = 3288 := by decide +kernel
  rw [fitsData, runCommand_size commanded, size] at fits
  exact absurd fits (by decide)

end PhicommTC1.Proofs.SendBuffer
