import PhicommTC1.Foundation.Overlay
import PhicommTC1.Proofs.CommandWrites
import PhicommTC1.Proofs.StringStores

/-! What a request leaves in the memory of `u_config`. Each write of the handler puts a piece there,
and a reader that is not stopped by the end of an array reads whatever pieces lie behind it. -/

namespace PhicommTC1.Proofs.SettingBytes
open CText Overlay PhicommTC1 CommandWrites SettingMemory StringStores
variable {root : CJson} {state next : State} {config after : UConfig}

abbrev Memory := CharArray sizeofUConfig

/-- What the handler puts into the memory at the turn of a register. The port's place is the one
behind the array of the broker's address. -/
def puts (root : CJson) : Register → List (Put UInt8)
  | .switch x => ((Request.on root x).map fun value => ⟨offsetof (.on x), [value]⟩).toList
  | .task x y => ((Request.task root x y).map fun task => ⟨offsetof (.task x y 0), List.ofFn task.byte⟩).toList
  | .text field =>
    (((Request.text root field).bind CText.sprintf).map fun text => ⟨field.offset, text.bytes ++ [0]⟩).toList
  | .deviceid => []
  | .mqttPort => ((Request.mqttPort root).map fun port => ⟨offsetof (behind .mqttIp), List.ofFn (intByte port)⟩).toList

/-- The memory after the turns of some registers, from the request and the bytes before it. -/
def memoryAfter (root : CJson) (state : State) (registers : List Register) : Memory :=
  overlay (registers.flatMap (puts root)) (byteAt state.uConfig)

theorem offsetof_lt (cell : Cell) : offsetof cell < sizeofUConfig := by
  cases cell <;> simp only [offsetof, offsetofPlug, sizeofPlug, sizeofUConfig] <;> omega

def textFrom (memory : Memory) (field : TextField) : CStr := .upToNul ((List.ofFn memory).drop field.offset)

def cellFrom (memory : Memory) (cell : Cell) : UInt8 := memory ⟨offsetof cell, offsetof_lt cell⟩

def taskFrom (memory : Memory) (x : Plug) (y : Slot) : UserPlugTaskConfig :=
  let byte (member : Fin 5) := cellFrom memory (.task x y member)
  ⟨byte 0, byte 1, byte 2, byte 3, byte 4⟩

/-- The number a little-endian processor finds in the four bytes of the port. -/
def portFrom (memory : Memory) : Int32 :=
  let byte (position : Fin 4) := (cellFrom memory (.mqttPort position)).toNat
  ⟨UInt32.ofNat ((List.ofFn byte).foldr (fun digit rest => digit + 256 * rest) 0)⟩

theorem ofOffset_offsetof (cell : Cell) (inside : offsetof cell < sizeofUConfig) :
    Cell.ofOffset ⟨offsetof cell, inside⟩ = cell := by
  cases cell with
  | mqttIp position =>
    have first : 0 + position.val < sizeofUConfig := by
      rw [Nat.zero_add]
      exact inside
    exact (congrArg Cell.ofOffset (Fin.ext (Nat.zero_add _).symm)).trans (cell_at .mqttIp position first)
  | mqttUser position => exact cell_at .mqttUser position inside
  | mqttPassword position => exact cell_at .mqttPassword position inside
  | name x position => exact cell_at (.plugName x) position inside
  | on x => exact cell_of_plug x 32 (by decide) inside
  | task x y member =>
    have within : 33 + 5 * y.val + member.val < 58 := by omega
    have there : offsetof (.task x y member) = 133 + 58 * x.val + (33 + 5 * y.val + member.val) := by
      simp only [offsetof, offsetofPlug, sizeofPlug]
      omega
    have moved : 133 + 58 * x.val + (33 + 5 * y.val + member.val) < sizeofUConfig := there ▸ inside
    refine (congrArg Cell.ofOffset (Fin.ext there)).trans ((cell_of_plug x _ within moved).trans ?_)
    rw [dif_neg (by omega), if_neg (by omega)]
    congr 1 <;> apply Fin.ext <;> simp only <;> omega
  | mqttPort position =>
    dsimp only [Cell.ofOffset, offsetof]
    rw [dif_neg (by omega), dif_pos (by omega)]
    simp only [Nat.add_sub_cancel_left]
  | mqttDeviceId position =>
    dsimp only [Cell.ofOffset, offsetof]
    rw [dif_neg (by omega), dif_neg (by omega), dif_neg (by omega), dif_neg (by omega), dif_pos (by omega)]
    simp only [Nat.add_sub_cancel_left]
  | padding position =>
    dsimp only [Cell.ofOffset, offsetof]
    rw [dif_neg (by omega), dif_neg (by omega), dif_neg (by omega), dif_neg (by omega), dif_neg (by omega),
      if_neg (by omega), dif_neg (by omega)]
    simp only [Nat.add_sub_cancel_left]
  | version => rfl

theorem cellFrom_byteAt (cell : Cell) : cellFrom (byteAt config) cell = cell.get config := by
  rw [cellFrom, byteAt, ofOffset_offsetof]

theorem taskFrom_byteAt (x : Plug) (y : Slot) : taskFrom (byteAt config) x y = (config.plug x).task y := by
  simp only [taskFrom, cellFrom_byteAt]
  rfl

theorem portFrom_byteAt : portFrom (byteAt config) = config.mqttPort := by
  have bits := config.mqttPort.toUInt32.toNat_lt
  have digit (position : Fin 4) : (cellFrom (byteAt config) (.mqttPort position)).toNat =
      config.mqttPort.toUInt32.toNat / 256 ^ position.val % 256 := by
    rw [cellFrom_byteAt, Cell.get, intByte, UInt8.toNat_ofNat']
  have whole : (List.ofFn fun position : Fin 4 => config.mqttPort.toUInt32.toNat / 256 ^ position.val % 256).foldr
      (fun digit rest => digit + 256 * rest) 0 = config.mqttPort.toUInt32.toNat := by
    simp only [List.ofFn_succ, List.ofFn_zero, List.foldr_cons, List.foldr_nil, Fin.val_succ, Fin.val_zero,
      Fin.val_eq_zero]
    omega
  simp only [portFrom, digit, whole, UInt32.ofNat_toNat]

theorem offsetof_injective {first second : Cell} (same : offsetof first = offsetof second) : first = second := by
  rw [← ofOffset_offsetof first (offsetof_lt first), ← ofOffset_offsetof second (offsetof_lt second)]
  exact congrArg Cell.ofOffset (Fin.ext same)

theorem store_overlay {start : Nat} {bytes : List UInt8} (stored : config.store start bytes = .ok after) :
    byteAt after = overlay [⟨start, bytes⟩] (byteAt config) := by
  funext offset
  rw [overlay_one, store_byteAt stored, Put.at?]
  split <;> rfl

/-- Cells next to each other with new values, and no other cell changed. -/
theorem cells_overlay {n start : Nat} (cell : Fin n → Cell) (value : Fin n → UInt8)
    (placed : ∀ position, offsetof (cell position) = start + position.val)
    (inside : ∀ position, (cell position).get after = value position)
    (outside : ∀ other, (∀ position, other ≠ cell position) → other.get after = other.get config) :
    byteAt after = overlay [⟨start, List.ofFn value⟩] (byteAt config) := by
  funext offset
  obtain ⟨other, rfl⟩ : ∃ other, offset = ⟨offsetof other, offsetof_lt other⟩ :=
    ⟨_, Fin.ext (offsetof_ofOffset offset).symm⟩
  rw [overlay_one, byteAt, byteAt, ofOffset_offsetof, Put.at?]
  by_cases covered : ∃ position, other = cell position
  · obtain ⟨position, rfl⟩ := covered
    rw [inside, if_pos (by simp only [placed]; omega)]
    simp [placed]
  · have elsewhere (position : Fin n) : other ≠ cell position := fun same => covered ⟨position, same⟩
    rw [outside other elsewhere]
    split
    next behind =>
      rw [List.getElem?_eq_none, Option.getD_none]
      rw [List.length_ofFn]
      by_contra within
      let position : Fin n := ⟨offsetof other - start, Nat.lt_of_not_le within⟩
      apply elsewhere position
      apply offsetof_injective
      rw [placed position]
      exact (Nat.add_sub_cancel' behind).symm
    next => rfl

theorem setOn_overlay (x : Plug) (value : UInt8) :
    byteAt (config.setOn x value) = overlay [⟨offsetof (.on x), [value]⟩] (byteAt config) := by
  apply cells_overlay (fun _ : Fin 1 => Cell.on x) (fun _ => value)
  · intro position
    omega
  · intro position
    exact get_set_same config value (.on x)
  · intro other apart
    exact get_set_other config value (by exact apart 0)

theorem setTask_overlay (x : Plug) (y : Slot) (task : UserPlugTaskConfig) :
    byteAt (config.setTask x y task) = overlay [⟨offsetof (.task x y 0), List.ofFn task.byte⟩] (byteAt config) := by
  apply cells_overlay (Cell.task x y) task.byte
  · intro member
    rfl
  · intro member
    simp [Cell.get, UConfig.setTask]
  · intro other apart
    cases other with
    | task z slot member =>
      by_cases same : z = x
      · have elsewhere : slot ≠ y := fun equal => apart member (by rw [same, equal])
        simp [Cell.get, UConfig.setTask, same, elsewhere]
      · simp [Cell.get, UConfig.setTask, same]
    | name z | on z => by_cases same : z = x <;> simp [Cell.get, UConfig.setTask, same]
    | _ => rfl

theorem mqttPort_overlay (port : Int32) :
    byteAt { config with mqttPort := port } =
      overlay [⟨offsetof (behind .mqttIp), List.ofFn (intByte port)⟩] (byteAt config) := by
  apply cells_overlay Cell.mqttPort (intByte port)
  · intro position
    rfl
  · intro position
    rfl
  · intro other apart
    cases other with
    | mqttPort position => exact absurd rfl (apart position)
    | _ => rfl

/-- The bytes behind the writes of some registers, whatever they were written over. -/
theorem write_overlay {register : Register} (write : Write root state register next) :
    byteAt next.uConfig = overlay (puts root register) (byteAt state.uConfig) := by
  cases write with
  | unasked silent =>
    have none : puts root register = [] := by
      cases register with
      | switch x => simp [puts, Option.map_eq_none_iff.mp silent]
      | text field => simp [puts, show Request.text root field = none from silent]
      | task x y => simp [puts, show Request.task root x y = none from silent]
      | mqttPort => simp [puts, show Request.mqttPort root = none from silent]
      | deviceid => rfl
    rw [none, overlay_nil]
  | @relay x value asked =>
    simp only [puts, asked, userRelaySet_uConfig]
    exact setOn_overlay x value
  | @task x y task asked =>
    simp only [puts, asked]
    exact setTask_overlay x y task
  | @text field format next asked stored =>
    obtain ⟨text, config, printed, copied, rfl⟩ := sprintfField_cases stored
    simp only [puts, asked, Option.bind_some, printed]
    exact store_overlay copied
  | deviceid asked stored =>
    obtain ⟨text, -, -, rfl⟩ := sprintfDeviceid_cases stored
    rfl
  | @mqttPort port asked =>
    simp only [puts, asked]
    exact mqttPort_overlay port

theorem writes_memory {registers : List Register} (writes : Writes root registers state next) :
    byteAt next.uConfig = memoryAfter root state registers := by
  induction writes with
  | nil => rfl
  | cons write _ ih => rw [ih, memoryAfter, memoryAfter, List.flatMap_cons, overlay_append, write_overlay write]

end PhicommTC1.Proofs.SettingBytes
