import PhicommTC1.AppMain
import Mathlib.Tactic.SplitIfs

/-! String settings in memory. A text that fits its array changes nothing else, and no store
that stays inside the structure can remove the zero at its end. -/

namespace PhicommTC1.Proofs.SettingMemory
open CText PhicommTC1

def cell : TextField → Fin 32 → Cell
  | .mqttIp => .mqttIp
  | .mqttUser => .mqttUser
  | .mqttPassword => .mqttPassword
  | .plugName x => .name x

theorem offset_bound (field : TextField) : field.offset + 32 ≤ sizeofUConfig := by
  cases field with
  | plugName x => have := x.isLt; simp only [TextField.offset, offsetofPlug, sizeofPlug, sizeofUConfig]; omega
  | _ => decide

theorem cell_of_plug (x : Plug) (rest : Nat) (within : rest < 58) (inside : 133 + 58 * x.val + rest < sizeofUConfig) :
    Cell.ofOffset ⟨133 + 58 * x.val + rest, inside⟩ =
      if early : rest < 32 then .name x ⟨rest, early⟩
      else if rest = 32 then .on x
      else .task x ⟨(rest - 33) / 5, by omega⟩ ⟨(rest - 33) % 5, by omega⟩ := by
  have plug := x.isLt
  have quotient : (133 + 58 * x.val + rest - 133) / 58 = x.val := by omega
  have remainder : (133 + 58 * x.val + rest - 133) % 58 = rest := by omega
  dsimp only [Cell.ofOffset]
  rw [dif_neg (by omega), dif_neg (by omega), dif_neg (by omega), dif_neg (by omega), dif_neg (by omega),
    if_neg (by omega), dif_pos (by omega)]
  simp only [quotient, remainder]

theorem cell_at (field : TextField) (position : Fin 32) (inside : field.offset + position.val < sizeofUConfig) :
    Cell.ofOffset ⟨field.offset + position.val, inside⟩ = cell field position := by
  have small := position.isLt
  cases field with
  | mqttIp => simp [Cell.ofOffset, TextField.offset, cell]
  | mqttUser =>
    dsimp only [Cell.ofOffset, TextField.offset, cell]
    rw [dif_neg (by omega), dif_neg (by omega), dif_pos (by omega)]
    simp only [Nat.add_sub_cancel_left]
  | mqttPassword =>
    dsimp only [Cell.ofOffset, TextField.offset, cell]
    rw [dif_neg (by omega), dif_neg (by omega), dif_neg (by omega), dif_pos (by omega)]
    simp only [Nat.add_sub_cancel_left]
  | plugName x => exact (cell_of_plug x position.val (by omega) inside).trans (dif_pos small)

theorem set_cell (field : TextField) (config : UConfig) (position : Fin 32) (byte : UInt8) :
    (cell field position).set config byte =
      field.setArray config (Function.update (field.array config) position byte) := by
  cases field <;> rfl

theorem array_setArray (field : TextField) (config : UConfig) (value : Setting) :
    field.array (field.setArray config value) = value := by
  cases field <;> simp [TextField.array, TextField.setArray, UConfig.setPlug]

theorem setArray_setArray (field : TextField) (config : UConfig) (first last : Setting) :
    field.setArray (field.setArray config first) last = field.setArray config last := by
  cases field <;> simp [TextField.setArray, UConfig.setPlug]

theorem setArray_array (field : TextField) (config : UConfig) :
    field.setArray config (field.array config) = config := by
  cases field <;> simp [TextField.array, TextField.setArray, UConfig.setPlug]

theorem store_inside (field : TextField) (config : UConfig) (start : Nat) (bytes : List UInt8)
    (fits : start + bytes.length ≤ 32) :
    config.store (field.offset + start) bytes =
      .ok (field.setArray config ((field.array config).overwrite start bytes)) := by
  induction bytes generalizing config start with
  | nil => rw [UConfig.store, CharArray.overwrite_nil, setArray_array]
  | cons byte bytes ih =>
    simp only [List.length_cons] at fits
    have bound := offset_bound field
    have inside : field.offset + start < sizeofUConfig := by omega
    let position : Fin 32 := ⟨start, by omega⟩
    have here : Cell.ofOffset ⟨field.offset + start, inside⟩ = cell field position := cell_at field position inside
    rw [UConfig.store, dif_pos inside, here, set_cell, Nat.add_assoc, ih _ _ (by omega), array_setArray,
      setArray_setArray]
    exact congrArg (fun value => Except.ok (field.setArray config value))
      (CharArray.overwrite_cons (field.array config) position byte bytes)

theorem sprintf_fits (field : TextField) {format text : CStr} (config : UConfig)
    (printed : CText.sprintf format = some text) (fits : text.length < 32) :
    field.sprintf format config =
      .ok (field.setArray config ((field.array config).overwrite 0 (text.bytes ++ [0]))) := by
  simp only [TextField.sprintf, printed]
  have room : 0 + (text.bytes ++ [0]).length ≤ 32 := by
    simp only [CStr.length] at fits
    simp only [List.length_append, List.length_singleton]
    omega
  exact store_inside field config 0 _ room

/-- The last byte of the structure is zero, so every string inside it has an end. -/
def Ended (config : UConfig) : Prop := config.padding 2 = 0

theorem set_keeps_padding (config : UConfig) (byte : UInt8) {cell : Cell} (other : cell ≠ .padding 2) :
    (cell.set config byte).padding 2 = config.padding 2 := by
  cases cell with
  | padding position =>
    apply Function.update_of_ne
    intro same
    exact other (congrArg Cell.padding same.symm)
  | _ => rfl

theorem last_cell (offset : Fin sizeofUConfig) (early : offset.val ≠ 483) : Cell.ofOffset offset ≠ .padding 2 := by
  have bound : offset.val < 484 := offset.isLt
  dsimp only [Cell.ofOffset]
  split_ifs <;> simp only [ne_eq, reduceCtorEq, not_false_eq_true, Cell.padding.injEq, Fin.ext_iff]
  omega

theorem end_cell : Cell.ofOffset ⟨483, by decide⟩ = .padding 2 := by
  simp [Cell.ofOffset]

theorem store_keeps_end {config last : UConfig} {offset : Nat} {text : List UInt8} (ended : Ended config)
    (stored : config.store offset (text ++ [0]) = .ok last) : Ended last := by
  induction text generalizing config offset with
  | nil =>
    simp only [List.nil_append, UConfig.store] at stored
    split at stored
    next inside =>
      cases stored
      by_cases final : offset = 483
      · subst final
        simp [Ended, Cell.ofOffset, Cell.set]
      · exact (set_keeps_padding config 0 (last_cell ⟨offset, inside⟩ final)).trans ended
    next => cases stored
  | cons byte text ih =>
    simp only [List.cons_append, UConfig.store] at stored
    split at stored
    next inside =>
      refine ih ?_ stored
      have early : offset ≠ 483 := by
        intro final
        subst final
        cases text <;> simp [UConfig.store, sizeofUConfig] at stored
      exact (set_keeps_padding config byte (last_cell ⟨offset, inside⟩ early)).trans ended
    next => cases stored

theorem sprintf_keeps_end {field : TextField} {format : CStr} {config last : UConfig} (ended : Ended config)
    (stored : field.sprintf format config = .ok last) : Ended last := by
  unfold TextField.sprintf at stored
  split at stored
  · cases stored
  · exact store_keeps_end ended stored

theorem readCStr_ok {bytes : List UInt8} (ended : 0 ∈ bytes) : readCStr bytes = .ok (.upToNul bytes) := if_pos ended

/-- What is read at an array is its text exactly when it ends in there or right behind. -/
theorem readCStr_array_iff {size : Nat} (array : CharArray size) (byte : UInt8) (rest : List UInt8) :
    readCStr (List.ofFn array ++ byte :: rest) = .ok array.text ↔ array.text.length < size ∨ byte = 0 := by
  by_cases ended : 0 ∈ List.ofFn array
  · have early := CStr.upToNul_length_lt ended
    have kept : CStr.upToNul (List.ofFn array ++ byte :: rest) = array.text := by
      apply CStr.ext
      simp only [CStr.upToNul, CStr.length] at early
      simp only [CStr.upToNul, CharArray.text, List.takeWhile_append, if_neg (Nat.ne_of_lt early)]
    rw [readCStr_ok (by simp [ended]), kept]
    simp [(CharArray.text_length_lt_iff array).mpr ended]
  · have whole := CharArray.text_whole ended
    simp only [CharArray.text, CStr.upToNul] at whole
    rw [or_iff_right (mt (CharArray.text_length_lt_iff array).mp ended)]
    constructor
    · intro read
      by_contra nonzero
      unfold readCStr at read
      split at read
      · have same := congrArg (·.bytes) (Except.ok.inj read)
        simp [CStr.upToNul, CharArray.text, List.takeWhile_append, whole, nonzero] at same
      · cases read
    · rintro rfl
      rw [readCStr_ok (by simp)]
      congr 1
      apply CStr.ext
      simp [CStr.upToNul, CharArray.text, List.takeWhile_append, whole]

/-- The byte behind the array of a field. -/
def behind : TextField → Cell
  | .mqttIp => .mqttPort 0
  | .mqttUser => .mqttPassword 0
  | .mqttPassword => .mqttDeviceId 0
  | .plugName x => .on x

theorem cell_behind (field : TextField) (inside : field.offset + 32 < sizeofUConfig) :
    Cell.ofOffset ⟨field.offset + 32, inside⟩ = behind field := by
  cases field with
  | plugName x => exact (cell_of_plug x 32 (by omega) inside).trans (by simp [behind])
  | _ => simp [Cell.ofOffset, TextField.offset, behind]

theorem get_cell (field : TextField) (config : UConfig) (position : Fin 32) :
    (cell field position).get config = field.array config position := by
  cases field <;> rfl

theorem bytes_at (field : TextField) (config : UConfig) : ∃ rest,
    config.bytes.drop field.offset = List.ofFn (field.array config) ++ (behind field).get config :: rest := by
  have room : field.offset + 32 < sizeofUConfig := by
    cases field with
    | plugName x => have := x.isLt; simp only [TextField.offset, offsetofPlug, sizeofPlug, sizeofUConfig]; omega
    | _ => decide
  have length : config.bytes.length = sizeofUConfig := List.length_ofFn
  have array : (config.bytes.drop field.offset).take 32 = List.ofFn (field.array config) := by
    apply List.ext_getElem
    · simp only [List.length_take, List.length_drop, List.length_ofFn, length]
      omega
    · intro position inside _
      simp only [List.length_take, Nat.lt_min] at inside
      have here := cell_at field ⟨position, inside.1⟩ (by simp only; omega)
      simp only [List.getElem_take, List.getElem_drop, UConfig.bytes, List.getElem_ofFn]
      rw [← get_cell field config ⟨position, inside.1⟩, ← here]
  have next : (config.bytes.drop field.offset).drop 32 =
      (behind field).get config :: config.bytes.drop (field.offset + 32 + 1) := by
    rw [List.drop_drop, List.drop_eq_getElem_cons (by omega)]
    simp only [UConfig.bytes, List.getElem_ofFn, cell_behind field room]
  exact ⟨_, by rw [← array, ← next, List.take_append_drop]⟩

theorem read_array_iff (field : TextField) (config : UConfig) :
    field.read config = .ok (field.array config).text ↔
      (field.array config).text.length < 32 ∨ (behind field).get config = 0 := by
  obtain ⟨rest, bytes⟩ := bytes_at field config
  rw [TextField.read, bytes]
  exact readCStr_array_iff _ _ _

theorem read_ok {config : UConfig} (ended : Ended config) (field : TextField) :
    ∃ text, field.read config = .ok text := by
  refine ⟨_, readCStr_ok ?_⟩
  have bound := offset_bound field
  have last : config.bytes.length = 484 := List.length_ofFn
  have final : config.bytes[483] = 0 := by
    refine (List.getElem_ofFn _).trans ?_
    rw [end_cell]
    exact ended
  have inside : 483 - field.offset < (config.bytes.drop field.offset).length := by
    simp only [List.length_drop, last, sizeofUConfig] at bound ⊢
    omega
  refine List.mem_iff_getElem.mpr ⟨483 - field.offset, inside, ?_⟩
  simp only [sizeofUConfig] at bound
  have same : field.offset + (483 - field.offset) = 483 := by omega
  simp only [List.getElem_drop, same, final]

end PhicommTC1.Proofs.SettingMemory
