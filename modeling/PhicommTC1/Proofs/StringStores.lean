import PhicommTC1.Device
import PhicommTC1.Foundation.Faults
import PhicommTC1.Proofs.SettingMemory
import PhicommTC1.StoreStop

/-! A string setting stored by `sprintf`, byte by byte. The copy goes on behind the array when the
text is longer, so which bytes change depends on the length alone, not on the field. -/

namespace PhicommTC1.Proofs.StringStores
open CText Faults PhicommTC1 SettingMemory
open PhicommTC1.StoreStop (Halt stopAt ComesToStore)
variable {config next : UConfig} {field : TextField} {format : CStr} {root : CJson} {state : State}

abbrev byteAt (config : UConfig) (offset : Fin sizeofUConfig) : UInt8 := (Cell.ofOffset offset).get config

def offsetof : Cell → Nat
  | .mqttIp position => position.val
  | .mqttPort position => 32 + position.val
  | .mqttUser position => 36 + position.val
  | .mqttPassword position => 68 + position.val
  | .mqttDeviceId position => 100 + position.val
  | .version => 132
  | .name x position => offsetofPlug + sizeofPlug * x.val + position.val
  | .on x => offsetofPlug + sizeofPlug * x.val + 32
  | .task x y member => offsetofPlug + sizeofPlug * x.val + 33 + 5 * y.val + member.val
  | .padding position => 481 + position.val

theorem offsetof_ofOffset (offset : Fin sizeofUConfig) : offsetof (Cell.ofOffset offset) = offset.val := by
  have bound : offset.val < 484 := offset.isLt
  dsimp only [Cell.ofOffset]
  split_ifs <;> simp only [offsetof, offsetofPlug, sizeofPlug] <;> omega

theorem ofOffset_injective {first second : Fin sizeofUConfig} (same : Cell.ofOffset first = Cell.ofOffset second) :
    first = second := by
  apply Fin.ext
  rw [← offsetof_ofOffset first, ← offsetof_ofOffset second, same]

/-- A digit of a number to a base of 256, replaced. -/
theorem digit_replaced (bits byte : Nat) (small : byte < 256) (position other : Fin 4) :
    (bits - bits / 256 ^ position.val % 256 * 256 ^ position.val + byte * 256 ^ position.val) /
      256 ^ other.val % 256 = if other = position then byte else bits / 256 ^ other.val % 256 := by
  match position, other with
  | 0, 0 | 0, 1 | 0, 2 | 0, 3 => simp; omega
  | 1, 0 | 1, 1 | 1, 2 | 1, 3 => simp; omega
  | 2, 0 | 2, 1 | 2, 2 | 2, 3 => simp; omega
  | 3, 0 | 3, 1 | 3, 2 | 3, 3 => simp; omega

theorem intByte_setIntByte (value : Int32) (byte : UInt8) (position other : Fin 4) :
    intByte (setIntByte value position byte) other = if other = position then byte else intByte value other := by
  have small := byte.toNat_lt
  have range := value.toUInt32.toNat_lt
  have digit := digit_replaced value.toUInt32.toNat byte.toNat small position other
  have fits : value.toUInt32.toNat - value.toUInt32.toNat / 256 ^ position.val % 256 * 256 ^ position.val +
      byte.toNat * 256 ^ position.val < 2 ^ 32 := by
    match position with
    | 0 | 1 | 2 | 3 => simp; omega
  have back : (setIntByte value position byte).toUInt32.toNat =
      value.toUInt32.toNat - value.toUInt32.toNat / 256 ^ position.val % 256 * 256 ^ position.val +
      byte.toNat * 256 ^ position.val := UInt32.toNat_ofNat_of_lt' fits
  have low (n : Nat) : UInt8.ofNat n = UInt8.ofNat (n % 256) := UInt8.ofNat_mod_size.symm
  rw [intByte, back, low, digit]
  split
  · exact UInt8.ofNat_toNat
  · exact (low _).symm

theorem byte_setByte (task : UserPlugTaskConfig) (byte : UInt8) (member other : Fin 5) :
    (task.setByte byte member).byte other = if other = member then byte else task.byte other := by
  match member, other with
  | 0, 0 | 0, 1 | 0, 2 | 0, 3 | 0, 4 => rfl
  | 1, 0 | 1, 1 | 1, 2 | 1, 3 | 1, 4 => rfl
  | 2, 0 | 2, 1 | 2, 2 | 2, 3 | 2, 4 => rfl
  | 3, 0 | 3, 1 | 3, 2 | 3, 3 | 3, 4 => rfl
  | 4, 0 | 4, 1 | 4, 2 | 4, 3 | 4, 4 => rfl

theorem get_set_same (config : UConfig) (byte : UInt8) (cell : Cell) : cell.get (cell.set config byte) = byte := by
  cases cell with
  | mqttPort position => exact (intByte_setIntByte _ _ _ _).trans (if_pos rfl)
  | task x y member => simp [Cell.get, Cell.set, byte_setByte]
  | _ => simp [Cell.get, Cell.set]

theorem get_set_other (config : UConfig) (byte : UInt8) {cell other : Cell} (apart : other ≠ cell) :
    other.get (cell.set config byte) = other.get config := by
  cases cell with
  | name x position =>
    cases other with
    | name z place =>
      by_cases same : z = x
      · have moved : place ≠ position := fun equal => apart (by rw [same, equal])
        simp [Cell.get, Cell.set, same, moved]
      · simp [Cell.get, Cell.set, same]
    | on z | task z => by_cases same : z = x <;> simp [Cell.get, Cell.set, same]
    | _ => rfl
  | on x =>
    cases other with
    | on z =>
      have elsewhere : z ≠ x := fun same => apart (by rw [same])
      simp [Cell.get, Cell.set, elsewhere]
    | name z | task z => by_cases same : z = x <;> simp [Cell.get, Cell.set, same]
    | _ => rfl
  | task x y member =>
    cases other with
    | task z slot part =>
      by_cases same : z = x
      · by_cases here : slot = y
        · have moved : part ≠ member := fun equal => apart (by rw [same, here, equal])
          simp [Cell.get, Cell.set, same, here, byte_setByte, moved]
        · simp [Cell.get, Cell.set, same, here]
      · simp [Cell.get, Cell.set, same]
    | name z | on z => by_cases same : z = x <;> simp [Cell.get, Cell.set, same]
    | _ => rfl
  | mqttPort position =>
    cases other with
    | mqttPort place => exact (intByte_setIntByte _ _ _ _).trans (if_neg fun same => apart (by rw [same]))
    | _ => rfl
  | mqttIp position | mqttUser position | mqttPassword position | mqttDeviceId position | padding position =>
    cases other <;> first | rfl | exact Function.update_of_ne (fun same => apart (by rw [same])) _ _
  | version => cases other <;> first | rfl | exact absurd rfl apart

theorem store_defined_iff (config : UConfig) (offset : Nat) (bytes : List UInt8) :
    (∃ next, config.store offset bytes = .ok next) ↔
      ∀ position < bytes.length, offset + position < sizeofUConfig := by
  induction bytes generalizing config offset with
  | nil => simp [UConfig.store]
  | cons byte bytes ih =>
    simp only [UConfig.store]
    split
    next inside =>
      rw [ih]
      constructor
      · intro room position bound
        cases position with
        | zero => exact inside
        | succ position =>
          have := room position (Nat.lt_of_succ_lt_succ bound)
          omega
      · intro room position bound
        have := room (position + 1) (Nat.succ_lt_succ bound)
        omega
    next outside =>
      constructor
      · intro defined
        obtain ⟨next, stored⟩ := defined
        cases stored
      · intro room
        exact absurd (room 0 (Nat.succ_pos _)) outside

/-- A store that succeeds puts its bytes where they belong and leaves the rest. -/
theorem store_byteAt {start : Nat} {bytes : List UInt8} (stored : config.store start bytes = .ok next)
    (offset : Fin sizeofUConfig) :
    byteAt next offset =
      if start ≤ offset.val then (bytes[offset.val - start]?).getD (byteAt config offset)
      else byteAt config offset := by
  induction bytes generalizing config start with
  | nil => cases stored; simp
  | cons byte bytes ih =>
    simp only [UConfig.store] at stored
    split at stored
    next inside =>
      rw [ih stored]
      by_cases here : offset.val = start
      · have same : offset = ⟨start, inside⟩ := Fin.ext here
        subst same
        simp [byteAt, get_set_same]
      · have apart : Cell.ofOffset offset ≠ Cell.ofOffset ⟨start, inside⟩ :=
          fun same => here (congrArg Fin.val (ofOffset_injective same))
        simp only [byteAt, get_set_other config byte apart]
        by_cases before : start ≤ offset.val
        · have shifted : offset.val - start = offset.val - (start + 1) + 1 := by omega
          rw [if_pos (by omega), if_pos before, shifted, List.getElem?_cons_succ]
        · rw [if_neg (by omega), if_neg before]
    next => cases stored

/-- Every byte outside the array of the field is as it was. -/
def TouchesOnly (field : TextField) (before after : UConfig) : Prop :=
  ∀ offset : Fin sizeofUConfig, offset.val < field.offset ∨ field.offset + 32 ≤ offset.val →
    byteAt after offset = byteAt before offset

namespace TouchesOnly
variable {before after : UConfig}

/-- The cells of a plug behind its name. -/
theorem cell {rest : Nat} (touches : TouchesOnly field before after) (cell : Cell) (x : Plug) (behind : 32 ≤ rest)
    (within : rest < 58)
    (there : ∀ inside : 133 + 58 * x.val + rest < sizeofUConfig, Cell.ofOffset ⟨_, inside⟩ = cell) :
    cell.get after = cell.get before := by
  have plug := x.isLt
  have inside : 133 + 58 * x.val + rest < sizeofUConfig := by
    simp only [sizeofUConfig]
    omega
  rw [← there inside]
  apply touches
  cases field <;> simp only [TextField.offset, offsetofPlug, sizeofPlug] <;> omega

theorem on (touches : TouchesOnly field before after) (x : Plug) : (after.plug x).on = (before.plug x).on := by
  apply touches.cell (.on x) x (Nat.le_refl 32) (by decide)
  intro inside
  rw [cell_of_plug x 32 (by decide) inside, dif_neg (by decide), if_pos rfl]

theorem task (touches : TouchesOnly field before after) (x : Plug) (y : Slot) :
    (after.plug x).task y = (before.plug x).task y := by
  have slot := y.isLt
  have byte (member : Fin 5) : ((after.plug x).task y).byte member = ((before.plug x).task y).byte member := by
    have part := member.isLt
    have within : 33 + 5 * y.val + member.val < 58 := by omega
    apply touches.cell (.task x y member) x (by omega) within
    intro inside
    rw [cell_of_plug x _ within inside, dif_neg (by omega), if_neg (by omega)]
    congr 1 <;> apply Fin.ext <;> simp only <;> omega
  exact UserPlugTaskConfig.ext (byte 0) (byte 1) (byte 2) (byte 3) (byte 4)

end TouchesOnly

theorem sprintfField_eq {text : CStr} (printed : CText.sprintf format = some text) :
    sprintfField field format state =
      (state.uConfig.store field.offset (text.bytes ++ [0])).map fun config => { state with uConfig := config } := by
  simp only [sprintfField, TextField.sprintf, printed]
  cases state.uConfig.store field.offset (text.bytes ++ [0]) <;> rfl

/-- A string that is stored has no conversion, and its bytes lie inside the structure. -/
theorem sprintfField_cases {next : State} (stored : sprintfField field format state = .ok next) :
    ∃ text config, CText.sprintf format = some text ∧
      state.uConfig.store field.offset (text.bytes ++ [0]) = .ok config ∧ next = { state with uConfig := config } := by
  cases printed : CText.sprintf format with
  | none =>
    simp only [sprintfField, TextField.sprintf, printed] at stored
    cases stored
  | some text =>
    rw [sprintfField_eq printed] at stored
    obtain ⟨config, copied, rfl⟩ := Runs.map_ok.mp stored
    exact ⟨text, config, rfl, copied, rfl⟩

/-- The store succeeds and nothing outside the array has changed, no record of a relay and no task. -/
def StoresOnly (field : TextField) (before : State) (after : Exec State) : Prop :=
  ∃ next, after = .ok next ∧ TouchesOnly field before.uConfig next.uConfig ∧
    ∀ x, (next.uConfig.plug x).on = (before.uConfig.plug x).on ∧
      (next.uConfig.plug x).task = (before.uConfig.plug x).task

theorem sprintfField_storesOnly {text : CStr} (printed : CText.sprintf format = some text) (fits : text.length ≤ 31) :
    StoresOnly field state (sprintfField field format state) := by
  have bound := offset_bound field
  have length : (text.bytes ++ [0]).length ≤ 32 := by
    rw [CStr.length] at fits
    rw [List.length_append, List.length_singleton]
    omega
  obtain ⟨config, stored⟩ := (store_defined_iff state.uConfig field.offset (text.bytes ++ [0])).mpr (by omega)
  have touches : TouchesOnly field state.uConfig config := by
    intro offset outside
    rw [store_byteAt stored]
    split
    next behind => rw [List.getElem?_eq_none (by omega), Option.getD_none]
    next => rfl
  refine ⟨{ state with uConfig := config }, ?_, touches, ?_⟩
  · rw [sprintfField_eq printed, stored]
    rfl
  · intro x
    exact ⟨touches.on x, funext (touches.task x)⟩

/-- A store that leaves the byte behind the array alone puts none there, or the one that stands there. -/
theorem StoresOnly.fits (storesOnly : StoresOnly field state (sprintfField field format state))
    {offset : Fin sizeofUConfig} (behind : offset.val = field.offset + 32) {text : CStr}
    (printed : CText.sprintf format = some text)
    (different : ∀ byte, (text.bytes ++ [0])[32]? = some byte → byteAt state.uConfig offset ≠ byte) :
    text.length ≤ 31 := by
  obtain ⟨next, stored, touches, -⟩ := storesOnly
  obtain ⟨text', config, printed', copied, rfl⟩ := sprintfField_cases stored
  cases printed.symm.trans printed'
  have written := store_byteAt copied offset
  have kept : byteAt config offset = byteAt state.uConfig offset := touches offset (.inr behind.ge)
  have position : offset.val - field.offset = 32 := by omega
  rw [kept, if_pos (by omega), position] at written
  cases present : (text.bytes ++ [0])[32]? with
  | some byte =>
    rw [present, Option.getD_some] at written
    exact absurd written (different byte present)
  | none =>
    have short := List.getElem?_eq_none_iff.mp present
    rw [List.length_append, List.length_singleton] at short
    exact Nat.le_of_succ_le_succ short

section Watched
variable {before : State} {after : Exec State}

/-- No such store is due: the message asks for no string that would be stored so. -/
def Foreign (root : CJson) (field : TextField) (before : State) (after : Exec State) : Prop :=
  ∀ format, Request.text root field = some format → after ≠ sprintfField field format before

theorem lifted_avoids {α : Type} (ran : Exec α) : Avoids (Halt.store before after) (ran.mapError .fault) := by
  cases ran with
  | ok value => exact .ok value
  | error fault => exact .other nofun

theorem storeText_avoids (foreign : Foreign root field before after) {other : TextField} {p : Option CJson}
    (asked : Request.text root other = p.bind CJson.valuestring) (state : State) :
    Avoids (Halt.store before after) (StoreStop.storeText (stopAt field) other p state) := by
  unfold StoreStop.storeText
  split
  next format found =>
    unfold stopAt
    split
    next same =>
      subst same
      apply Avoids.other
      intro stops
      cases stops
      exact foreign format (asked.trans found) rfl
    next => exact lifted_avoids _
  next => exact .ok state

theorem settingSection_avoids (foreign : Foreign root field before after) (work : State × Members) :
    Avoids (Halt.store before after) (StoreStop.settingSection (fun ran => ran.mapError Halt.fault) (stopAt field)
      (root.getObjectItem (.ofString "setting")) work) := by
  unfold StoreStop.settingSection
  split
  next => exact .ok work
  next pSetting found =>
    have text (key : CStr) : (Request.setting root key).bind CJson.valuestring =
        (pSetting.getObjectItem key).bind CJson.valuestring := by
      simp [Request.setting, found]
    have ip : Request.text root .mqttIp = _ := text (.ofString "mqtt_uri")
    have user : Request.text root .mqttUser = _ := text (.ofString "mqtt_user")
    have password : Request.text root .mqttPassword = _ := text (.ofString "mqtt_password")
    have stores : Avoids (Halt.store before after)
        (StoreStop.storeSetting (fun ran => ran.mapError Halt.fault) (stopAt field) pSetting work.1) := by
      refine (lifted_avoids _).bind fun named _ => ?_
      refine (storeText_avoids foreign ip _).bind fun withIp _ => ?_
      exact (storeText_avoids foreign user _).bind fun withUser _ => storeText_avoids foreign password _
    exact stores.bind fun stored _ => (lifted_avoids _).bind fun send _ => .ok _

theorem plugAnalysis_avoids (foreign : Foreign root field before after) (work : State × Members) (x : Plug) :
    Avoids (Halt.store before after)
      (StoreStop.jsonPlugAnalysis (fun ran => ran.mapError Halt.fault) (stopAt field) root work x) := by
  refine Avoids.bind ?_ fun analysed _ => .ok _
  unfold StoreStop.jsonPlugObject
  split
  next => exact .ok _
  next plug found =>
    split
    next => exact .ok _
    next setting present =>
      have asked : Request.text root (.plugName x) =
          (setting.getObjectItem (.ofString "name")).bind CJson.valuestring := by
        simp [Request.text, Request.plugName, found, present]
      refine Avoids.bind ?_ fun configured _ => .ok _
      refine (storeText_avoids foreign asked _).bind fun named _ => ?_
      exact (lifted_avoids _).bind fun send _ => .ok _

theorem comesToStore_asked (comes : ComesToStore field root state before after) :
    ∃ format, Request.text root field = some format ∧ after = sprintfField field format before := by
  by_contra foreign
  have apart : Foreign root field before after := fun format asked same => foreign ⟨format, asked, same⟩
  apply absurd comes
  refine (lifted_avoids _).bind fun report _ => ?_
  split
  next =>
    refine Avoids.bind ?_ fun commanded _ => .ok _
    refine (lifted_avoids _).bind fun withMac _ => ?_
    refine (lifted_avoids _).bind fun withVersion _ => ?_
    refine (settingSection_avoids apart _).bind fun configured _ => ?_
    refine (Avoids.foldlM (plugAnalysis_avoids apart) _ _).bind fun last _ => ?_
    exact (lifted_avoids _).bind fun name _ => (lifted_avoids _).bind fun send _ => .ok _
  next => exact .ok _

end Watched

/-- A message that asks for one string and nothing else. -/
def single (strMac : CStr) (field : TextField) (format : CStr) : CJson :=
  let member : CStr × CJson :=
    match field with
    | .mqttIp => (.ofString "setting", .object [(.ofString "mqtt_uri", .string format)])
    | .mqttUser => (.ofString "setting", .object [(.ofString "mqtt_user", .string format)])
    | .mqttPassword => (.ofString "setting", .object [(.ofString "mqtt_password", .string format)])
    | .plugName x => (plugStr x, .object [(.ofString "setting", .object [(.ofString "name", .string format)])])
  .object [(.ofString "mac", .string strMac), member]

theorem single_accepted (field : TextField) (format : CStr) (state : State) :
    isAccepted (single state.strMac field format) state = true := by
  have mac : (single state.strMac field format).getObjectItem (.ofString "mac") = some (.string state.strMac) := by
    cases field <;> rfl
  rw [isAccepted, mac]
  simp [CJson.valuestring]

theorem single_text (field : TextField) (format strMac : CStr) :
    Request.text (single strMac field format) field = some format := by
  cases field with
  | plugName x => match x with
    | 0 | 1 | 2 | 3 | 4 | 5 => rfl
  | _ => rfl

/-- Such a message is answered without a report, and its string is stored over the state it finds. -/
theorem single_comes (field : TextField) (format : CStr) (state : State) :
    ComesToStore field (single state.strMac field format) state state (sprintfField field format state) := by
  have quiet : reportSection (single state.strMac field format) state = .ok none := by
    cases field with
    | plugName x => match x with
      | 0 | 1 | 2 | 3 | 4 | 5 => rfl
    | _ => rfl
  rw [ComesToStore, StoreStop.userFunctionCmdReceived, quiet]
  simp only [single_accepted, if_true]
  cases field with
  | plugName x => match x with
    | 0 | 1 | 2 | 3 | 4 | 5 => rfl
  | _ => rfl

theorem exists_different (config : UConfig) (offset : Fin sizeofUConfig) (byte : UInt8) :
    ∃ other : UConfig, byteAt other offset ≠ byte := by
  refine ⟨(Cell.ofOffset offset).set config (byte + 1), ?_⟩
  rw [byteAt, get_set_same]
  intro same
  have moved := congrArg UInt8.toNat same
  have small := byte.toNat_lt
  rw [UInt8.toNat_add, UInt8.toNat_one] at moved
  omega

/-- Whatever the message asks besides and whatever the state is, the store of a string changes nothing
outside its array exactly for the strings of which `sprintf` makes a text of at most 31 bytes. -/
theorem stores_only_iff (field : TextField) (format : CStr) :
    (∀ root state before after, isAccepted root state = true → Request.text root field = some format →
      ComesToStore field root state before after → StoresOnly field before after) ↔
      ∃ text, CText.sprintf format = some text ∧ text.length ≤ 31 := by
  constructor
  · intro every
    have only (state : State) : StoresOnly field state (sprintfField field format state) :=
      every _ state _ _ (single_accepted field format state) (single_text field format state.strMac)
        (single_comes field format state)
    obtain ⟨next, stored, -⟩ := only exampleBoot
    obtain ⟨text, config, printed, -⟩ := sprintfField_cases stored
    have inside : field.offset + 32 < sizeofUConfig := by
      cases field <;> simp only [TextField.offset, offsetofPlug, sizeofPlug, sizeofUConfig] <;> omega
    let behind : Fin sizeofUConfig := ⟨field.offset + 32, inside⟩
    have position : behind.val = field.offset + 32 := rfl
    obtain ⟨config, different⟩ := exists_different exampleBoot.uConfig behind ((text.bytes ++ [0])[32]?.getD 0)
    refine ⟨text, printed, (only { exampleBoot with uConfig := config }).fits position printed ?_⟩
    intro byte present
    rw [present] at different
    exact different
  · intro short
    obtain ⟨text, printed, fits⟩ := short
    intro root state before after accepted asked comes
    obtain ⟨format', asked', rfl⟩ := comesToStore_asked comes
    cases asked.symm.trans asked'
    exact sprintfField_storesOnly printed fits

/-- `{"mac": …, "plug_0": {"setting": {"name": …}}}` with a name of 32 bytes. -/
def longName : CStr := .ofString "aaaaaaaaaaaaaaaaaaaaaaaaaaaaaaaa"

def longNameCommand : CJson :=
  .object [(.ofString "mac", .string exampleMac), (.ofString "plug_0", .object [(.ofString "setting",
    .object [(.ofString "name", .string longName)])])]

/-- `{"mac": …, "plug_0": {"on": 1}}` -/
def switchOn : CJson := .object [(.ofString "mac", .string exampleMac),
  (.ofString "plug_0", .object [(.ofString "on", .number 1)])]

/-- The terminator of a name that fills its array switches the record of a plug that is on. Its pin stays high. -/
theorem longName_leaves_array :
    (∃ state outcome, Runs.run step exampleBoot [.command (some switchOn)] = .ok state ∧
      userFunctionCmdReceived (some longNameCommand) state = .ok outcome ∧ (state.uConfig.plug 0).on = 1 ∧
      (outcome.state.uConfig.plug 0).on = 0 ∧ outcome.state.relay 0 = true) ∧
    ¬ ∀ (strMac strIp : CStr) (past : List Event) (state : State) (root : CJson) (field : TextField) (format : CStr)
      (before : State) (after : Exec State), Runs.run step (boot strMac strIp) past = .ok state →
      isAccepted root state = true → Request.text root field = some format →
      ComesToStore field root state before after → StoresOnly field before after := by
  obtain ⟨state, reached, known⟩ : ∃ state, Runs.run step exampleBoot [.command (some switchOn)] = .ok state ∧
      (state.strMac, (state.uConfig.plug 0).on,
        (userFunctionCmdReceived (some longNameCommand) state).toOption.map fun outcome =>
          ((outcome.state.uConfig.plug 0).on, outcome.state.relay 0),
        (sprintfField (.plugName 0) longName state).toOption.map fun next => (next.uConfig.plug 0).on) =
        (exampleMac, 1, some (0, true), some 0) := Runs.map_ok.mp (by decide +kernel)
  simp only [Prod.mk.injEq] at known
  obtain ⟨mac, on, ended, off⟩ := known
  have message : single state.strMac (.plugName 0) longName = longNameCommand := congrArg (single · _ _) mac
  constructor
  · cases ran : userFunctionCmdReceived (some longNameCommand) state with
    | error fault =>
      rw [ran] at ended
      cases ended
    | ok outcome =>
      rw [ran] at ended
      obtain ⟨cleared, high⟩ := Prod.mk.injEq .. ▸ Option.some.inj ended
      exact ⟨state, outcome, reached, ran, on, cleared, high⟩
  · intro assumed
    have accepted : isAccepted longNameCommand state = true := message ▸ single_accepted (.plugName 0) longName state
    have asked : Request.text longNameCommand (.plugName 0) = some longName := rfl
    have comes := message ▸ single_comes (.plugName 0) longName state
    obtain ⟨next, stored, -, same⟩ := assumed _ _ _ _ _ _ _ _ _ reached accepted asked comes
    rw [stored] at off
    have cleared : (next.uConfig.plug 0).on = 0 := Option.some.inj off
    obtain ⟨kept, -⟩ := same 0
    rw [cleared, on] at kept
    cases kept

end PhicommTC1.Proofs.StringStores
