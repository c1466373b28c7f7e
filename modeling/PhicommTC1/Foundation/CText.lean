import Mathlib.Data.List.Basic
import Mathlib.Data.List.Infix
import Mathlib.Data.List.OfFn
import Mathlib.Data.List.TakeWhile
import Mathlib.Logic.Function.Basic

/-! C strings as byte lists, the library functions that read them, and character arrays. -/

namespace CText

/-- The bytes before the terminator, so none of them is zero. -/
structure CStr where
  bytes : List UInt8
  noNul : 0 ∉ bytes
  deriving DecidableEq

namespace CStr

@[ext] theorem ext {first second : CStr} (same : first.bytes = second.bytes) : first = second := by
  cases first; cases second; cases same; rfl

def ofString (text : String) : CStr :=
  ⟨(text.toList.map fun char => UInt8.ofNat char.toNat).filter (· != 0), by simp⟩

def upToNul (bytes : List UInt8) : CStr :=
  ⟨bytes.takeWhile (· != 0), fun member => by simpa using List.mem_takeWhile_imp member⟩

def length (text : CStr) : Nat := text.bytes.length

/-- A text followed by one decimal digit, as `text[n] = digit + '0'` leaves it. -/
def withDigit (text : CStr) (digit : Fin 10) : CStr :=
  ⟨text.bytes ++ [UInt8.ofNat (48 + digit.val)], by
    have printable : ∀ digit : Fin 10, (0 : UInt8) ≠ UInt8.ofNat (48 + digit.val) := by decide
    simp only [List.mem_append, List.mem_singleton, not_or]
    exact ⟨text.noNul, printable digit⟩⟩

/-- What `sprintf` makes of texts that follow one another. -/
instance : Append CStr where
  append first second := ⟨first.bytes ++ second.bytes, by simpa using ⟨first.noNul, second.noNul⟩⟩

@[simp] theorem append_bytes (first second : CStr) : (first ++ second).bytes = first.bytes ++ second.bytes := rfl

end CStr

theorem CStr.upToNul_length_lt {bytes : List UInt8} (ended : 0 ∈ bytes) : (upToNul bytes).length < bytes.length := by
  have kept : bytes.takeWhile (· != 0) <+: bytes := List.takeWhile_prefix _
  apply Nat.lt_of_le_of_ne kept.length_le
  intro whole
  rw [← kept.eq_of_length whole] at ended
  exact (upToNul bytes).noNul ended

theorem CStr.takeWhile_append (text : CStr) (rest : List UInt8) :
    (text.bytes ++ 0 :: rest).takeWhile (· != 0) = text.bytes := by
  rw [List.takeWhile_append_of_pos]
  · simp
  · intro byte member
    simpa using fun zero : byte = 0 => text.noNul (zero ▸ member)

theorem CStr.upToNul_append (text : CStr) (rest : List UInt8) : upToNul (text.bytes ++ 0 :: rest) = text :=
  CStr.ext (text.takeWhile_append rest)

/-- Bytes with a zero behind them: the text they hold, its terminator and what comes after. -/
theorem CStr.upToNul_split (bytes : List UInt8) : ∃ rest, bytes ++ [0] = (upToNul bytes).bytes ++ 0 :: rest := by
  induction bytes with
  | nil => exact ⟨[], rfl⟩
  | cons byte bytes ih =>
    by_cases ends : byte = 0
    · exact ⟨bytes ++ [0], by simp [upToNul, ends]⟩
    · obtain ⟨rest, split⟩ := ih
      refine ⟨rest, ?_⟩
      simp only [upToNul] at split ⊢
      rw [List.cons_append, split, List.takeWhile_cons_of_pos (by simpa using ends), List.cons_append]

def tolower (byte : UInt8) : UInt8 := if 65 ≤ byte ∧ byte ≤ 90 then byte + 32 else byte

def sameIgnoringCase : List UInt8 → List UInt8 → Bool
  | [], [] => true
  | first :: firsts, second :: seconds => tolower first == tolower second && sameIgnoringCase firsts seconds
  | _, _ => false

theorem sameIgnoringCase_iff {first second : List UInt8} :
    sameIgnoringCase first second = true ↔ first.map tolower = second.map tolower := by
  induction first generalizing second with
  | nil => cases second <;> simp [sameIgnoringCase]
  | cons byte first ih => cases second <;> simp [sameIgnoringCase, ih]

def startsWith : List UInt8 → List UInt8 → Bool
  | [], _ => true
  | _ :: _, [] => false
  | byte :: needle, head :: tail => byte == head && startsWith needle tail

def strstr (needle : List UInt8) : List UInt8 → Bool
  | [] => startsWith needle []
  | head :: tail => startsWith needle (head :: tail) || strstr needle tail

theorem startsWith_iff {needle text : List UInt8} : startsWith needle text = true ↔ needle <+: text := by
  induction needle generalizing text with
  | nil => simp [startsWith]
  | cons byte needle ih =>
    cases text with
    | nil => simp [startsWith]
    | cons head tail => simp [startsWith, ih]

theorem strstr_iff {needle text : List UInt8} : strstr needle text = true ↔ needle <:+: text := by
  induction text with
  | nil => simp [strstr, startsWith_iff]
  | cons head tail ih => rw [strstr, Bool.or_eq_true, startsWith_iff, ih, List.infix_cons_iff]

theorem infix_intercalate {separator piece : List UInt8} {pieces : List (List UInt8)} (member : piece ∈ pieces) :
    piece <:+: separator.intercalate pieces := by
  induction pieces with
  | nil => cases member
  | cons head pieces ih =>
    cases pieces with
    | nil =>
      cases List.mem_singleton.mp member
      rw [List.intercalate_singleton]
    | cons next pieces =>
      rw [List.intercalate_cons_cons]
      rcases List.mem_cons.mp member with rfl | member
      · exact List.infix_append_left.trans List.infix_append_left
      · exact (ih member).trans List.infix_append_right

/-- What a text is split into occurs in it. -/
theorem infix_of_mem_splitOn {separator : UInt8} {piece text : List UInt8} (member : piece ∈ text.splitOn separator) :
    piece <:+: text := by
  have whole : [separator].intercalate (text.splitOn separator) = text := List.intercalate_splitOn separator
  rw [← whole]
  exact infix_intercalate member

def strchr (byte : UInt8) (text : CStr) : Bool := text.bytes.contains byte

/-- What `sprintf` writes for a format that comes with no arguments. `%%` prints a percent sign;
any other conversion consumes an argument that was not passed, which is undefined. -/
def formatAlone : List UInt8 → Option (List UInt8)
  | [] => some []
  | [byte] => if byte = 37 then none else some [byte]
  | byte :: next :: rest =>
    if byte = 37 then
      if next = 37 then (formatAlone rest).map (37 :: ·) else none
    else (formatAlone (next :: rest)).map (byte :: ·)

theorem formatAlone_plain {bytes : List UInt8} (plain : 37 ∉ bytes) : formatAlone bytes = some bytes := by
  induction bytes with
  | nil => rfl
  | cons byte bytes ih =>
    simp only [List.mem_cons, not_or] at plain
    cases bytes with
    | nil => simp [formatAlone, Ne.symm plain.1]
    | cons next rest => rw [formatAlone, if_neg (Ne.symm plain.1), ih (by simpa using plain.2)]; rfl

theorem formatAlone_noNul {bytes text : List UInt8} (noNul : 0 ∉ bytes) (printed : formatAlone bytes = some text) :
    0 ∉ text := by
  induction bytes using formatAlone.induct generalizing text with
  | case1 => cases printed; simp
  | case2 => simp [formatAlone] at printed
  | case3 byte different =>
    simp only [formatAlone, if_neg different] at printed
    cases printed
    exact noNul
  | case4 rest ih =>
    simp only [formatAlone, if_true, Option.map_eq_some_iff] at printed
    obtain ⟨tail, printed, rfl⟩ := printed
    simp only [List.mem_cons, not_or] at noNul ⊢
    exact ⟨noNul.1, ih noNul.2.2 printed⟩
  | case5 next rest different => simp [formatAlone, different] at printed
  | case6 byte next rest different ih =>
    simp only [formatAlone, if_neg different, Option.map_eq_some_iff] at printed
    obtain ⟨tail, printed, rfl⟩ := printed
    simp only [List.mem_cons, not_or] at noNul ⊢
    exact ⟨noNul.1, ih (by simpa using noNul.2) printed⟩

/-- What is written is no longer than the format, and shorter if there is a percent sign in it. -/
theorem formatAlone_length {bytes text : List UInt8} (printed : formatAlone bytes = some text) :
    text.length ≤ bytes.length ∧ (37 ∈ bytes → text.length < bytes.length) := by
  induction bytes using formatAlone.induct generalizing text with
  | case1 => cases printed; simp
  | case2 => simp [formatAlone] at printed
  | case3 byte different =>
    simp only [formatAlone, if_neg different] at printed
    cases printed
    exact ⟨Nat.le_refl _, fun member => absurd (List.mem_singleton.mp member).symm different⟩
  | case4 rest ih =>
    simp only [formatAlone, if_true, Option.map_eq_some_iff] at printed
    obtain ⟨tail, printed, rfl⟩ := printed
    have bound := (ih printed).1
    simp only [List.length_cons]
    omega
  | case5 next rest different => simp [formatAlone, different] at printed
  | case6 byte next rest different ih =>
    simp only [formatAlone, if_neg different, Option.map_eq_some_iff] at printed
    obtain ⟨tail, printed, rfl⟩ := printed
    obtain ⟨bound, shorter⟩ := ih printed
    simp only [List.length_cons] at bound shorter ⊢
    refine ⟨Nat.succ_le_succ bound, fun member => ?_⟩
    rcases List.mem_cons.mp member with same | member
    · exact absurd same.symm different
    · exact Nat.succ_lt_succ (shorter member)

def sprintf (format : CStr) : Option CStr :=
  match printed : formatAlone format.bytes with
  | none => none
  | some text => some ⟨text, formatAlone_noNul format.noNul printed⟩

theorem sprintf_plain {format : CStr} (plain : 37 ∉ format.bytes) : sprintf format = some format := by
  have printed := formatAlone_plain plain
  unfold sprintf
  split
  next absent => rw [printed] at absent; cases absent
  next text found => rw [printed] at found; cases found; rfl

theorem sprintf_length {format text : CStr} (printed : sprintf format = some text) :
    text.length ≤ format.length ∧ (37 ∈ format.bytes → text.length < format.length) := by
  unfold sprintf at printed
  split at printed
  next => cases printed
  next bytes found =>
    cases printed
    exact formatAlone_length found

/-- What `%d` prints. -/
def decimal (value : Int) : List UInt8 :=
  let digits := (Nat.toDigits 10 value.natAbs).map fun digit => UInt8.ofNat digit.toNat
  if value < 0 then 45 :: digits else digits

abbrev CharArray (size : Nat) := Fin size → UInt8

namespace CharArray
variable {size : Nat}

def text (array : CharArray size) : CStr := .upToNul (List.ofFn array)

/-- The array after bytes were copied into it from position `start` on. -/
def overwrite (array : CharArray size) (start : Nat) (bytes : List UInt8) : CharArray size := fun position =>
  if start ≤ position.val then (bytes[position.val - start]?).getD (array position) else array position

theorem overwrite_nil (array : CharArray size) (start : Nat) : array.overwrite start [] = array := by
  funext position
  simp [overwrite]

theorem overwrite_cons (array : CharArray size) (start : Fin size) (byte : UInt8) (bytes : List UInt8) :
    CharArray.overwrite (Function.update array start byte) (start.val + 1) bytes =
      array.overwrite start.val (byte :: bytes) := by
  funext position
  simp only [overwrite]
  by_cases same : position = start
  · subst same; simp
  · have apart : position.val ≠ start.val := fun equal => same (Fin.ext equal)
    rw [Function.update_of_ne same]
    by_cases before : start.val ≤ position.val
    · have shifted : position.val - start.val = position.val - (start.val + 1) + 1 := by omega
      rw [if_pos (by omega), if_pos before, shifted, List.getElem?_cons_succ]
    · rw [if_neg (by omega), if_neg before]

theorem text_length_le (array : CharArray size) {position : Fin size} (ended : array position = 0) :
    array.text.length ≤ position.val := by
  by_contra long
  simp only [text, CStr.upToNul, CStr.length, Nat.not_le] at long
  have whole := (List.takeWhile_prefix (· != 0) (l := List.ofFn array)).getElem long
  have kept := List.mem_takeWhile_imp (List.getElem_mem long)
  rw [whole, List.getElem_ofFn, ended] at kept
  cases kept

theorem text_whole {array : CharArray size} (endless : 0 ∉ List.ofFn array) : array.text.bytes = List.ofFn array := by
  apply List.takeWhile_eq_self_iff.mpr
  intro byte member
  simpa using fun zero : byte = 0 => endless (zero ▸ member)

theorem text_length_lt_iff (array : CharArray size) : array.text.length < size ↔ 0 ∈ List.ofFn array := by
  constructor
  · intro short
    by_contra endless
    simp [CStr.length, text_whole endless] at short
  · intro ended
    have shorter := CStr.upToNul_length_lt ended
    rwa [List.length_ofFn] at shorter

/-- The bytes of the array after a copy that stays inside it. -/
theorem ofFn_overwrite (array : CharArray size) (start : Nat) (bytes : List UInt8)
    (fits : start + bytes.length ≤ size) :
    List.ofFn (array.overwrite start bytes) =
      (List.ofFn array).take start ++ (bytes ++ (List.ofFn array).drop (start + bytes.length)) := by
  have before : ((List.ofFn array).take start).length = start := by
    simp only [List.length_take, List.length_ofFn]
    omega
  apply List.ext_getElem
  · simp only [List.length_ofFn, List.length_append, List.length_take, List.length_drop]
    omega
  · intro position inside _
    simp only [List.getElem_ofFn, overwrite]
    by_cases early : position < start
    · rw [if_neg (by omega), List.getElem_append_left (by omega), List.getElem_take, List.getElem_ofFn]
    · rw [if_pos (by omega), List.getElem_append_right (by omega)]
      simp only [before]
      by_cases within : position - start < bytes.length
      · rw [List.getElem_append_left within, List.getElem?_eq_getElem within, Option.getD_some]
      · rw [List.getElem?_eq_none (by omega), Option.getD_none, List.getElem_append_right (by omega),
          List.getElem_drop, List.getElem_ofFn]
        congr 2
        omega

theorem text_overwrite (array : CharArray size) (text : CStr) (fits : text.length < size) :
    (array.overwrite 0 (text.bytes ++ [0])).text = text := by
  have inside : 0 + (text.bytes ++ [0]).length ≤ size := by
    simp only [List.length_append, List.length_singleton, CStr.length] at fits ⊢
    omega
  rw [CharArray.text, ofFn_overwrite array 0 _ inside, List.take_zero, List.nil_append, List.append_assoc]
  exact CStr.upToNul_append text _

end CharArray

end CText
