import Mathlib.Algebra.Order.BigOperators.Group.List
import Mathlib.Algebra.Order.Ring.Nat
import PhicommTC1.DevParam

/-! The device type in flash. What was set reads back, whatever the record held before and whatever
commands were refused since; a record that no set wrote is read past its end when it has no terminator. -/

namespace PhicommTC1.Proofs.DeviceType
open CText PhicommTC1
variable {σ : Type} {bin : UserBin σ} {area : σ} {wechatType : CharArray 21}

/-- The text of a record, behind its mark and its checksum. -/
def typeText (type : CharArray 21) : CStr := .upToNul ((List.ofFn type).drop 2)

/-- One of the bytes 2 to 20 is zero. -/
def Terminated (type : CharArray 21) : Prop := ∃ i : Fin 21, 2 ≤ i.val ∧ type i = 0

theorem terminated_iff (type : CharArray 21) : Terminated type ↔ 0 ∈ (List.ofFn type).drop 2 := by
  rw [List.mem_drop_iff_getElem]
  constructor
  · intro terminated
    obtain ⟨i, behind, zero⟩ := terminated
    refine ⟨i.val - 2, by simp; omega, ?_⟩
    rw [List.getElem_ofFn, ← zero]
    congr 1
    exact Fin.ext (by simp; omega)
  · intro member
    obtain ⟨position, inside, zero⟩ := member
    rw [List.getElem_ofFn] at zero
    exact ⟨_, by simp, zero⟩

theorem typeText_short {type : CharArray 21} (terminated : Terminated type) : ¬ 18 < (typeText type).length := by
  have shorter := CStr.upToNul_length_lt ((terminated_iff type).mp terminated)
  simp only [List.length_drop, List.length_ofFn] at shorter
  rw [typeText]
  omega

theorem devParamRead_unmarked (unmarked : bin.read area 0 ≠ 0x5A) :
    devParamRead bin area wechatType = .ok (-1, wechatType) := if_neg unmarked

theorem devParamRead_marked (marked : bin.read area 0 = 0x5A) (terminated : Terminated (bin.read area)) :
    devParamRead bin area wechatType = .ok
      (if bin.read area 1 = crc (typeText (bin.read area)) then
        (HF_SUCCESS, wechatType.overwrite 0 ((typeText (bin.read area)).bytes ++ [0]))
      else (-1, wechatType)) := by
  have text : readCStr ((List.ofFn (bin.read area)).drop 2) = .ok (typeText (bin.read area)) :=
    if_pos ((terminated_iff _).mp terminated)
  simp only [devParamRead, marked, if_true, text]
  dsimp only [bind, Except.bind]
  rw [if_neg (typeText_short terminated)]
  split <;> rfl

theorem devParamRead_overrun (marked : bin.read area 0 = 0x5A) (unterminated : ¬ Terminated (bin.read area)) :
    devParamRead bin area wechatType = .error .outOfBounds := by
  have text : readCStr ((List.ofFn (bin.read area)).drop 2) = .error .outOfBounds :=
    if_neg (mt (terminated_iff _).mpr unterminated)
  simp only [devParamRead, marked, if_true, text]
  rfl

theorem foldl_add (bytes : List UInt8) (start : UInt8) :
    (bytes.foldl (· + ·) start).toNat = (start.toNat + (bytes.map UInt8.toNat).sum) % 256 := by
  induction bytes generalizing start with
  | nil => simp [Nat.mod_eq_of_lt start.toNat_lt]
  | cons byte bytes ih =>
    rw [List.foldl_cons, ih, UInt8.toNat_add, List.map_cons, List.sum_cons]
    omega

theorem crc_sum (text : CStr) : (crc text).toNat = (text.bytes.map UInt8.toNat).sum % 256 := by
  rw [crc, foldl_add]
  simp

/-- The record is one that the text was written to: the mark, a terminator and the text before it, with
its sum in byte 1. -/
structure HoldsType (type : CharArray 21) (p : CStr) : Prop where
  mark : type 0 = 0x5A
  terminated : Terminated type
  text : p = typeText type
  sum : (type 1).toNat = (p.bytes.map UInt8.toNat).sum % 256

/-- A read gives the text of a record that holds one, and otherwise -1 and the caller's array as it was. -/
def ReadsExactly (bin : UserBin σ) (area : σ) (wechatType : CharArray 21) : Prop :=
  ∃ outcome, devParamRead bin area wechatType = .ok outcome ∧
    (∀ p, HoldsType (bin.read area) p → outcome = (HF_SUCCESS, wechatType.overwrite 0 (p.bytes ++ [0]))) ∧
    ((¬ ∃ p, HoldsType (bin.read area) p) → outcome = (-1, wechatType))

theorem crc_iff {type : CharArray 21} {p : CStr} :
    type 1 = crc p ↔ (type 1).toNat = (p.bytes.map UInt8.toNat).sum % 256 := by
  rw [← crc_sum, UInt8.toNat_inj]

/-- The read is exact, and stays inside the record, exactly for records without the mark or with a terminator. -/
theorem reads_exactly_iff (bin : UserBin σ) (area : σ) (wechatType : CharArray 21) :
    ReadsExactly bin area wechatType ↔ bin.read area 0 ≠ 0x5A ∨ Terminated (bin.read area) := by
  constructor
  · intro exact
    obtain ⟨outcome, ran, -⟩ := exact
    by_contra neither
    obtain ⟨marked, unterminated⟩ := not_or.mp neither
    rw [devParamRead_overrun (not_not.mp marked) unterminated] at ran
    cases ran
  · intro condition
    by_cases marked : bin.read area 0 = 0x5A
    · have terminated := condition.resolve_left (not_not.mpr marked)
      refine ⟨_, devParamRead_marked marked terminated, ?_, ?_⟩
      · intro p holds
        cases holds.text
        exact if_pos (crc_iff.mpr holds.sum)
      · intro missing
        apply if_neg
        intro same
        exact missing ⟨_, marked, terminated, rfl, crc_iff.mp same⟩
    · refine ⟨_, devParamRead_unmarked marked, ?_, fun _ => rfl⟩
      intro p holds
      exact absurd holds.mark marked

/-- The user area of a device that keeps nothing else in it. -/
def typeArea : UserBin (CharArray 21) := ⟨id, fun type _ => type, fun _ _ => rfl⟩

/-- The mark was written and the rest of the record is still erased. -/
def erasedType : CharArray 21 := fun position => if position.val = 0 then 0x5A else 0xFF

theorem erased_type_overrun : ¬ ∀ (area wechatType : CharArray 21), ReadsExactly typeArea area wechatType := by
  intro assumed
  obtain ⟨outcome, ran, -⟩ := assumed erasedType fun _ => 0
  have unterminated : ¬ Terminated erasedType := by unfold Terminated; decide
  rw [devParamRead_overrun (by decide) unterminated] at ran
  cases ran

/-- A command and what the local array holds when it is called. -/
structure Command where
  argv : List CStr
  uninitialised : CharArray 21

def Command.run (bin : UserBin σ) (command : Command) (area : σ) : Exec AtReply × σ :=
  hfAtcmdSetType bin command.argv command.uninitialised area

def areaAfter (bin : UserBin σ) (area : σ) (commands : List Command) : σ :=
  commands.foldl (fun area command => (command.run bin area).2) area

/-- The text a command sets: it has one argument, of fewer than 18 characters. -/
def Command.sets (command : Command) : Option CStr :=
  match command.argv with
  | [arg] => if arg.length < 18 then some arg else none
  | _ => none

/-- What the last accepted command set. -/
def lastSet (commands : List Command) : Option CStr := (commands.filterMap Command.sets).getLast?

theorem typeRecord_bytes (uninitialised : CharArray 21) {text : CStr} (fits : text.length < 18) :
    ∃ rest, List.ofFn (typeRecord uninitialised text) = 0x5A :: crc text :: (text.bytes ++ 0 :: rest) := by
  have inside : 2 + (text.bytes ++ [0]).length ≤ 21 := by
    simp only [List.length_append, List.length_singleton, CStr.length] at fits ⊢
    omega
  have head : (List.ofFn (uninitialised.overwrite 0 [0x5A, crc text])).take 2 = [0x5A, crc text] := by
    rw [CharArray.ofFn_overwrite _ _ _ (by simp)]
    rfl
  refine ⟨(List.ofFn (uninitialised.overwrite 0 [0x5A, crc text])).drop (2 + (text.bytes ++ [0]).length), ?_⟩
  rw [typeRecord, CharArray.ofFn_overwrite _ _ _ inside, head]
  simp only [List.cons_append, List.nil_append, List.append_assoc]

theorem typeRecord_holds (uninitialised : CharArray 21) {text : CStr} (fits : text.length < 18) :
    HoldsType (typeRecord uninitialised text) text := by
  obtain ⟨rest, bytes⟩ := typeRecord_bytes uninitialised fits
  refine ⟨rfl, (terminated_iff _).mpr ?_, ?_, crc_sum text⟩
  · rw [bytes]
    simp
  · rw [typeText, bytes]
    exact (CStr.upToNul_append text rest).symm

theorem holdsType_read {text : CStr} (holds : HoldsType (bin.read area) text) :
    devParamRead bin area wechatType = .ok (HF_SUCCESS, wechatType.overwrite 0 (text.bytes ++ [0])) := by
  cases holds.text
  rw [devParamRead_marked holds.mark holds.terminated, if_pos (crc_iff.mpr holds.sum)]

variable {command : Command} {text : CStr}

theorem sets_some (sets : command.sets = some text) : command.argv = [text] ∧ text.length < 18 := by
  unfold Command.sets at sets
  split at sets
  next arg one =>
    split at sets
    next fits => cases sets; exact ⟨one, fits⟩
    next => cases sets
  next => cases sets

theorem run_set (bin : UserBin σ) (area : σ) (sets : command.sets = some text) :
    command.run bin area = (.ok ⟨0, none⟩, bin.write (typeRecord command.uninitialised text) area) := by
  obtain ⟨one, fits⟩ := sets_some sets
  have wrote : devParamWrite bin text command.uninitialised area =
      .ok (bin.write (typeRecord command.uninitialised text) area) := if_pos (by omega)
  simp only [Command.run, one, hfAtcmdSetType, if_pos fits, wrote]

/-- Any other command leaves the area alone, and is not accepted where it is not a query. -/
theorem run_other (bin : UserBin σ) (area : σ) (other : command.sets = none) :
    (command.run bin area).2 = area ∧
      (command.argv ≠ [] → ∀ rsp, (command.run bin area).1 ≠ .ok ⟨0, rsp⟩) := by
  unfold Command.sets at other
  unfold Command.run hfAtcmdSetType
  split at other
  next arg one =>
    split at other
    next => cases other
    next long =>
      rw [one]
      simp only [if_neg long]
      exact ⟨trivial, fun _ _ => by simp⟩
  next different =>
    split
    next query => exact ⟨rfl, fun set => absurd query set⟩
    next arg one => exact absurd one (different arg)
    next => exact ⟨rfl, fun _ _ => by simp⟩

/-- The area holds what the last accepted command set, whatever came after it. -/
theorem areaAfter_holds (bin : UserBin σ) (area : σ) {commands : List Command} (last : lastSet commands = some text) :
    HoldsType (bin.read (areaAfter bin area commands)) text := by
  induction commands using List.reverseRecOn with
  | nil => cases last
  | append_singleton commands command ih =>
    rw [areaAfter, List.foldl_append, List.foldl_cons, List.foldl_nil, ← areaAfter]
    rw [lastSet, List.filterMap_append] at last
    cases sets : command.sets with
    | none =>
      rw [List.filterMap_cons_none sets, List.filterMap_nil, List.append_nil] at last
      rw [(run_other bin _ sets).1]
      exact ih last
    | some own =>
      have same : own = text := by simpa [sets] using last
      rw [run_set bin _ sets, bin.read_write, same]
      exact typeRecord_holds _ (same ▸ (sets_some sets).2)

/-- A command is accepted exactly when it has one argument of fewer than 18 characters, any other leaves
the area as it was, and the last accepted text is what a query and a read give from then on. -/
theorem device_type_survives (bin : UserBin σ) (area : σ) (commands : List Command) :
    (∀ command : Command, ∀ area, command.argv ≠ [] →
      ((∃ rsp, (command.run bin area).1 = .ok ⟨0, rsp⟩) ↔ ∃ arg, command.argv = [arg] ∧ arg.length < 18)) ∧
    (∀ command : Command, ∀ area, (¬ ∃ arg, command.argv = [arg] ∧ arg.length < 18) →
      (command.run bin area).2 = area) ∧
    ∀ text, lastSet commands = some text →
      (∀ query : Command, query.argv = [] → (query.run bin (areaAfter bin area commands)).1 =
        .ok ⟨0, some (.ofString "=" ++ text)⟩) ∧
      ∀ wechatType, ∃ read, devParamRead bin (areaAfter bin area commands) wechatType = .ok (HF_SUCCESS, read) ∧
        read.text = text := by
  have accepts {command : Command} : command.sets ≠ none ↔ ∃ arg, command.argv = [arg] ∧ arg.length < 18 := by
    constructor
    · intro sets
      obtain ⟨arg, sets⟩ := Option.ne_none_iff_exists'.mp sets
      exact ⟨arg, sets_some sets⟩
    · intro single
      obtain ⟨arg, one, fits⟩ := single
      simp [Command.sets, one, fits]
  refine ⟨?_, ?_, ?_⟩
  · intro command area given
    rw [← accepts]
    constructor
    · intro accepted other
      obtain ⟨rsp, accepted⟩ := accepted
      exact (run_other bin area other).2 given rsp accepted
    · intro sets
      obtain ⟨arg, sets⟩ := Option.ne_none_iff_exists'.mp sets
      exact ⟨none, congrArg Prod.fst (run_set bin area sets)⟩
  · intro command area refused
    exact (run_other bin area (not_not.mp (mt accepts.mp refused))).1
  · intro text last
    have holds := areaAfter_holds bin area last
    have short : text.length < 21 := by
      cases holds.text
      have bound := typeText_short holds.terminated
      omega
    constructor
    · intro query empty
      simp only [Command.run, empty, hfAtcmdSetType, holdsType_read holds]
      dsimp only [bind, Except.bind]
      rw [if_pos rfl, CharArray.text_overwrite _ text short]
      rfl
    · intro wechatType
      exact ⟨_, holdsType_read holds, CharArray.text_overwrite wechatType text short⟩

/-- A type is set, and then a text of 18 characters is refused. -/
def setAndRefused : List Command :=
  [⟨[.ofString "gh_93a8f6a3e1b2"], fun _ => 0xFF⟩, ⟨[.ofString "gh_93a8f6a3e1b2abc"], fun _ => 0⟩]

theorem device_type_survives_refused : ∃ read,
    devParamRead typeArea (areaAfter typeArea erasedType setAndRefused) (fun _ => 0) = .ok (HF_SUCCESS, read) ∧
      read.text = .ofString "gh_93a8f6a3e1b2" :=
  ((device_type_survives typeArea erasedType setAndRefused).2.2 _ (by decide)).2 fun _ => 0

end PhicommTC1.Proofs.DeviceType
