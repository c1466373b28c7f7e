import PhicommTC1.Device
import PhicommTC1.Proofs.CommandDefined
import PhicommTC1.Proofs.CommandEffect

/-! A reply as the only confirmation a client gets. What the handler reads back is what it leaves
behind, as long as a string the message does not set ends where its array does. -/

namespace PhicommTC1.Proofs.CommandReply
open CText LastWriter PhicommTC1 CommandDefined CommandEffect CommandWrites ReplyShape SettingMemory
variable {root reply : CJson} {registers : List Register} {state current next : State}

/-- The reply holds the given state: its name, the positions of its plugs, and what was asked for. -/
structure Describes (root : CJson) (state : State) (reply : CJson) : Prop where
  mac : find reply [.ofString "mac"] = some (.string state.strMac)
  name : find reply [.ofString "name"] = some (.string state.deviceid.text)
  version : find reply [.ofString "version"] = (find root [.ofString "version"]).map fun _ => .string VERSION
  setting : (find reply [.ofString "setting"]).isSome = (find root [.ofString "setting"]).isSome
  plugSetting : ∀ x, (find reply [plugStr x, .ofString "setting"]).isSome =
    (find root [plugStr x, .ofString "setting"]).isSome
  registers : ∀ register, find reply (path register) =
    if mentioned root register then some (shown register (state.registers register)) else none

/-- The message is answered by one reply, which describes the state it leaves. -/
def RepliesTruly (root : CJson) (state : State) : Prop := ∃ outcome reply,
  userFunctionCmdReceived (some root) state = .ok outcome ∧ outcome.reply = some reply ∧
    Describes root outcome.state reply

/-- The byte behind a string setting when the handler reads it back. -/
def byteBehind (root : CJson) (state : State) : TextField → UInt8
  | .mqttIp => intByte ((Request.mqttPort root).getD state.uConfig.mqttPort) ⟨0, by decide⟩
  | .mqttUser => ((Request.text root .mqttPassword).getD state.uConfig.mqttPassword.text).bytes.headD 0
  | .mqttPassword => state.uConfig.mqttDeviceId ⟨0, by decide⟩
  | .plugName x => (Request.on root x).getD (state.uConfig.plug x).on

/-- A string that is read back without being set ends inside its array, or with a zero behind it. -/
structure Legible (root : CJson) (state : State) : Prop where
  deviceid : isDeviceReport root = true ∨ Request.deviceid root = none → state.deviceid.text.length < 32
  text : ∀ field, mentioned root (.text field) = true → Request.text root field = none →
    (field.array state.uConfig).text.length < 32 ∨ byteBehind root state field = 0

theorem writes_register (plain : Request.Plain root) (writes : Writes root registers state current)
    {register : Register} (past : register ∈ registers) :
    current.registers register = (Request.value root register).getD (state.registers register) := by
  rw [(writes_delivers plain.fits writes).1, foldl_assign, if_pos past, plain.printed_eq]

theorem headD_text (array : Setting) : array.text.bytes.headD 0 = array 0 := by
  simp only [CharArray.text, CStr.upToNul, List.ofFn_succ]
  by_cases ends : array 0 = 0 <;> simp [ends]

theorem behind_get (plain : Request.Plain root) (writes : Writes root registers state current) {field : TextField}
    (past : turns (.text field) ⊆ registers) : (behind field).get current.uConfig = byteBehind root state field := by
  have written (register : Register) (turn : register ∈ turns (.text field)) :=
    writes_register plain writes (past turn)
  cases field with
  | mqttIp =>
    have port : current.uConfig.mqttPort = (Request.mqttPort root).getD state.uConfig.mqttPort :=
      written .mqttPort (by simp [turns])
    simp only [behind, Cell.get, byteBehind, port]
    rfl
  | mqttUser =>
    have password : current.uConfig.mqttPassword.text =
        (Request.text root .mqttPassword).getD state.uConfig.mqttPassword.text :=
      written (.text .mqttPassword) (by simp [turns])
    simp only [behind, Cell.get, byteBehind, ← password, headD_text]
  | mqttPassword =>
    have kept : current.uConfig.mqttDeviceId = state.uConfig.mqttDeviceId :=
      congrArg Kept.mqttDeviceId (writes_delivers plain.fits writes).2
    simp only [behind, Cell.get, byteBehind, kept]
    rfl
  | plugName x =>
    have switch : current.switch x = ((Request.on root x).map Switch.driven).getD (state.switch x) :=
      written (.switch x) (by simp [turns])
    have record : (current.uConfig.plug x).on = (current.switch x).record := rfl
    simp only [behind, Cell.get, byteBehind, record, switch]
    cases Request.on root x <;> rfl

theorem readBack_text_iff (plain : Request.Plain root) (writes : Writes root registers state current)
    {field : TextField} (past : turns (.text field) ⊆ registers) :
    readBack (.text field) current = .ok (shown (.text field) (current.registers (.text field))) ↔
      (Request.text root field = none →
        (field.array state.uConfig).text.length < 32 ∨ byteBehind root state field = 0) := by
  have written : (field.array current.uConfig).text =
      (Request.text root field).getD (field.array state.uConfig).text :=
    writes_register plain writes (past (turns_itself (.text field)))
  refine string_ok.trans ?_
  rw [State.registers, read_array_iff, behind_get plain writes past, written]
  cases asked : Request.text root field with
  | none => simp
  | some text =>
    have short := (plain.1 field text asked).1
    simp only [Option.getD_some, reduceCtorEq, false_implies, iff_true]
    exact .inl (Nat.lt_succ_of_le short)

theorem name_ok_after_iff (plain : Request.Plain root) (writes : Writes root registers state current)
    (past : .deviceid ∈ registers) : current.name = .ok current.deviceid.text ↔
      (Request.deviceid root = none → state.deviceid.text.length < 32) := by
  have written : current.deviceid.text = (Request.deviceid root).getD state.deviceid.text :=
    writes_register plain writes past
  rw [name_ok_iff, written]
  cases asked : Request.deviceid root with
  | none => simp
  | some text =>
    have short := (plain.2 text asked).1
    simp only [Option.getD_some, reduceCtorEq, false_implies, iff_true]
    exact Nat.lt_succ_of_le short

/-- In a legible state every register is read back as it stands. -/
theorem Legible.readBack (legible : Legible root state) (plain : Request.Plain root)
    (writes : Writes root registers state current) {register : Register} (past : turns register ⊆ registers)
    (due : mentioned root register = true ∨ register = .deviceid) :
    readBack register current = .ok (shown register (current.registers register)) := by
  cases register with
  | text field =>
    rcases due with due | other
    · exact (readBack_text_iff plain writes past).mpr (legible.text field due)
    · cases other
  | deviceid =>
    exact string_ok.mpr ((name_ok_after_iff plain writes (past (by simp [turns]))).mpr fun unset =>
      legible.deviceid (.inr unset))
  | _ => rfl

/-- What was said of a register is read at a point after which it does not change. -/
theorem said_final (plain : Request.Plain root) {register : Register} {item : CJson}
    (said : Said root allRegisters register state next item) : ∃ before middle,
      turns register ⊆ before ∧ Writes root before state middle ∧ readBack register middle = .ok item ∧
        next.registers register = middle.registers register := by
  obtain @⟨before, after, middle, split, past, reached, rest, saw⟩ := said
  refine ⟨before, middle, past, reached, saw, ?_⟩
  -- The register had its turn before it was read, and none has two.
  have passed : register ∉ after := by
    have nodup := allRegisters_nodup
    rw [← split] at nodup
    intro again
    exact (List.nodup_append.mp nodup).2.2 register (past (turns_itself register)) register again rfl
  rw [(writes_delivers plain.fits rest).1, foldl_assign, if_neg passed]

theorem describes_of_legible (legible : Legible root state) (plain : Request.Plain root)
    (ran : runCommand root state = .ok (next, reply)) : Describes root next reply := by
  have writes := runCommand_writes ran
  have shape := runCommand_shape ran
  obtain ⟨name, named, told⟩ := shape.name
  have whole := (name_ok_after_iff plain writes (mem_allRegisters _)).mpr fun unset => legible.deviceid (.inr unset)
  have strMac : next.strMac = state.strMac := congrArg Kept.strMac (writes_delivers plain.fits writes).2
  refine ⟨?_, ?_, shape.version, shape.setting, shape.plugSetting, ?_⟩
  · rw [shape.mac, strMac]
  · rw [told, ← Except.ok.inj (named.symm.trans whole)]
  · intro register
    have answers := shape.registers register
    cases due : mentioned root register with
    | false => exact (due ▸ answers).undue
    | true =>
      obtain ⟨item, said, answered⟩ := (due ▸ answers).due
      obtain ⟨before, middle, past, reached, saw, final⟩ := said_final plain said
      have read := legible.readBack plain reached past (.inl due)
      rw [answered, if_pos rfl, final, ← Except.ok.inj (saw.symm.trans read)]

/-- A reply that describes the state had nothing illegible to read. -/
theorem legible_of_describes {outcome : Outcome} (accepted : isAccepted root state = true)
    (plain : Request.Plain root) (ran : userFunctionCmdReceived (some root) state = .ok outcome)
    (replied : outcome.reply = some reply) (describes : Describes root outcome.state reply) : Legible root state := by
  obtain ⟨other, commanded, same⟩ := accepted_ran accepted ran
  cases Option.some.inj (replied.symm.trans same)
  have writes := runCommand_writes commanded
  have shape := runCommand_shape commanded
  constructor
  · rintro (reported | unset)
    · obtain ⟨report, sent, -⟩ := Runs.bind_ok.mp ran
      rw [reportSection, if_pos reported] at sent
      obtain ⟨reported, built, -⟩ := Runs.map_ok.mp sent
      obtain ⟨name, named, -⟩ := Runs.bind_ok.mp built
      have ended : 0 ∈ List.ofFn state.deviceid := by
        by_contra endless
        rw [State.name, readCStr, if_neg endless] at named
        cases named
      exact (CharArray.text_length_lt_iff _).mpr ended
    · obtain ⟨name, named, told⟩ := shape.name
      have read : outcome.state.name = .ok outcome.state.deviceid.text := by
        rw [named, CJson.string.inj (Option.some.inj (told.symm.trans describes.name))]
      exact (name_ok_after_iff plain writes (mem_allRegisters _)).mp read unset
  · intro field due
    obtain ⟨item, said, answered⟩ := (due ▸ shape.registers (.text field)).due
    obtain ⟨before, middle, past, reached, saw, final⟩ := said_final plain said
    have told := describes.registers (.text field)
    rw [if_pos due, answered] at told
    apply (readBack_text_iff plain reached past).mp
    rw [saw, Option.some.inj told, final]

/-- The reply to an accepted message with plain strings describes the state the message leaves
exactly when every string it reads back without setting it ends in time. -/
theorem replies_truly_iff (accepted : isAccepted root state = true) (plain : Request.Plain root)
    (readable : ¬ Request.OtaUnreadable root) : RepliesTruly root state ↔ Legible root state := by
  constructor
  · intro replies
    obtain ⟨outcome, reply, ran, replied, describes⟩ := replies
    exact legible_of_describes accepted plain ran replied describes
  · intro legible
    have servable : Servable root state :=
      .of_plain plain readable fun register _ _ writes past due => ⟨_, legible.readBack plain writes past due⟩
    obtain ⟨report, reported⟩ := reportSection_defined root fun asked =>
      ⟨_, (name_ok_iff state).mpr (legible.deviceid (.inl asked))⟩
    obtain ⟨⟨next, reply⟩, ran⟩ := runCommand_defined servable
    exact ⟨_, reply, accepted_served accepted reported ran, rfl, describes_of_legible legible plain ran⟩

/-- `{"mac": …, "plug_0": {"setting": {"name": 0, "task_0": …}}}`, which asks for the name with a number. -/
def askName : CJson :=
  .object [(.ofString "mac", .string exampleMac), (.ofString "plug_0", .object [(.ofString "setting",
    .object [(.ofString "name", .number 0), (.ofString "task_0", .object [(.ofString "hour", .number 0),
      (.ofString "minute", .number 0), (.ofString "repeat", .number 0), (.ofString "action", .number 0),
      (.ofString "on", .number 0)])])])]

theorem askName_text (field : TextField) : Request.text askName field = none := by
  cases field with
  | plugName x => revert x; decide
  | _ => decide

theorem askName_plain : Request.Plain askName := by
  have deviceid : Request.deviceid askName = none := by decide
  constructor
  · intro field format asked
    rw [askName_text] at asked
    cases asked
  · intro format asked
    rw [deviceid] at asked
    cases asked

theorem askName_readable : ¬ Request.OtaUnreadable askName := by
  intro unreadable
  obtain ⟨ota, present, -⟩ := unreadable
  have absent : Request.setting askName (.ofString "ota") = none := by decide
  rw [absent] at present
  cases present

theorem replies_truly_iff_askName : RepliesTruly askName exampleBoot ↔ Legible askName exampleBoot :=
  replies_truly_iff (by decide) askName_plain askName_readable

/-- A name of 40 bytes is reported with the bytes that follow it, and then its task is overwritten. -/
theorem askName_misreported :
    ¬ ∀ (strMac strIp : CStr) (past : List Event) (state : State) (root : CJson),
      Runs.run step (boot strMac strIp) past = .ok state → isAccepted root state = true → Request.Plain root →
      ¬ Request.OtaUnreadable root → RepliesTruly root state := by
  intro assumed
  let name : CStr := .ofString "aaaaaaaaaaaaaaaaaaaaaaaaaaaaaaaaaaaaaaaa"
  obtain ⟨state, reached, known⟩ : ∃ state, Runs.run step exampleBoot [.command (some (exampleName name))] = .ok state ∧
      (isAccepted askName state, ((state.uConfig.plug 0).name.text.length), (state.uConfig.plug 0).on) =
        (true, 32, 97) := Runs.map_ok.mp (by decide +kernel)
  simp only [Prod.mk.injEq] at known
  obtain ⟨accepted, full, on⟩ := known
  obtain ⟨outcome, reply, ran, replied, describes⟩ :=
    assumed _ _ _ state askName reached accepted askName_plain askName_readable
  have legible := legible_of_describes accepted askName_plain ran replied describes
  rcases legible.text (.plugName 0) (by decide) (askName_text _) with short | zero
  · have early : (state.uConfig.plug 0).name.text.length < 32 := short
    omega
  · have unset : Request.on askName 0 = none := by decide
    simp only [byteBehind, unset, Option.getD_none, on] at zero
    cases zero

end PhicommTC1.Proofs.CommandReply
