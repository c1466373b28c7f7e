import Mathlib.Algebra.Group.Nat.Defs
import Mathlib.Data.List.TakeWhile
import Mathlib.Tactic.SplitIfs
import PhicommTC1.CJson

/-! cJSON as text: `cJSON_Print` of the trees the firmware builds, and `cJSON_Parse`. The end of a
list of bytes is the terminating zero; a pointer that moves past it has left its object. -/

namespace PhicommTC1
open CText

namespace CJson

def hexDigit (value : UInt8) : UInt8 := if value < 10 then 48 + value else 87 + value

/-- One byte of a string. The unescaped copy of `print_string_ptr` is the case in which every
byte stands for itself. -/
def printByte (token : UInt8) : List UInt8 :=
  if 31 < token ∧ token ≠ 34 ∧ token ≠ 92 then [token]
  else if token = 92 then [92, 92]
  else if token = 34 then [92, 34]
  else if token = 8 then [92, 98]
  else if token = 12 then [92, 102]
  else if token = 10 then [92, 110]
  else if token = 13 then [92, 114]
  else if token = 9 then [92, 116]
  else [92, 117, 48, 48, hexDigit (token / 16), hexDigit (token % 16)]

def printStringPtr (text : CStr) : List UInt8 := 34 :: text.bytes.flatMap printByte ++ [34]

/-- What is printed for the eye only. -/
def layout (fmt : Bool) (spaces : List UInt8) : List UInt8 := if fmt then spaces else []

def tabs (depth : Nat) : List UInt8 := List.replicate depth 9

mutual

/-- Numbers are those the firmware adds itself, so `valuedouble` is the integer. -/
def printValue (fmt : Bool) (depth : Nat) : CJson → List UInt8
  | .jsonNull => (CStr.ofString "null").bytes
  | .jsonFalse => (CStr.ofString "false").bytes
  | .jsonTrue => (CStr.ofString "true").bytes
  | .number valueint => decimal valueint.toInt
  | .string valuestring => printStringPtr valuestring
  | .array child => 91 :: printItems fmt (depth + 1) child ++ [93]
  | .object child =>
    if child.isEmpty then 123 :: layout fmt (10 :: tabs (depth - 1)) ++ [125]
    else 123 :: layout fmt [10] ++ printMembers fmt (depth + 1) child ++ layout fmt (tabs depth) ++ [125]
termination_by structural item => item

def printItems (fmt : Bool) (depth : Nat) : List CJson → List UInt8
  | [] => []
  | child :: next =>
    printValue fmt depth child ++ (if next.isEmpty then [] else 44 :: layout fmt [32]) ++ printItems fmt depth next
termination_by structural items => items

def printMember (fmt : Bool) (depth : Nat) : CStr × CJson → List UInt8
  | (key, child) =>
    layout fmt (tabs depth) ++ printStringPtr key ++ 58 :: layout fmt [9] ++ printValue fmt depth child
termination_by structural member => member

def printMembers (fmt : Bool) (depth : Nat) : List (CStr × CJson) → List UInt8
  | [] => []
  | child :: next =>
    printMember fmt depth child ++ (if next.isEmpty then [] else [44]) ++ layout fmt [10] ++
      printMembers fmt depth next
termination_by structural members => members

end

/-- `cJSON_Print` -/
def print (item : CJson) : List UInt8 := printValue true 0 item

/-- `cJSON_PrintUnformatted` -/
def printUnformatted (item : CJson) : List UInt8 := printValue false 0 item

end CJson

def isDigit (byte : UInt8) : Bool := 48 ≤ byte && byte ≤ 57

/-- The rest of the text behind a byte, if the text begins with it. -/
def accept (byte : UInt8) : List UInt8 → Option (List UInt8)
  | head :: tail => if head = byte then some tail else none
  | [] => none

def skip : List UInt8 → List UInt8
  | byte :: rest => if byte ≤ 32 then skip rest else byte :: rest
  | [] => []

/-- What `parse_number` reads of a number. -/
structure Numeral where
  negative : Bool
  integer : List UInt8
  fraction : List UInt8
  exponentNegative : Bool
  exponent : List UInt8

namespace Numeral

def signPart (text : List UInt8) : Bool × List UInt8 :=
  match accept 45 text with
  | some rest => (true, rest)
  | none => (false, text)

/-- One leading zero is passed over; what follows is read if it begins with 1 to 9. -/
def integerPart (text : List UInt8) : List UInt8 × List UInt8 :=
  let text := (accept 48 text).getD text
  if (text.head?.any fun byte => 49 ≤ byte && byte ≤ 57) then text.span isDigit else ([], text)

def fractionPart (text : List UInt8) : List UInt8 × List UInt8 :=
  match accept 46 text with
  | some rest => if rest.head?.any isDigit then rest.span isDigit else ([], text)
  | none => ([], text)

def exponentPart (text : List UInt8) : Bool × List UInt8 × List UInt8 :=
  match (accept 101 text).or (accept 69 text) with
  | some rest =>
    match accept 43 rest with
    | some digits => (false, digits.span isDigit)
    | none =>
      let (negative, digits) := signPart rest
      (negative, digits.span isDigit)
  | none => (false, [], text)

def parse (text : List UInt8) : Numeral × List UInt8 :=
  let (negative, text) := signPart text
  let (integer, text) := integerPart text
  let (fraction, text) := fractionPart text
  let (exponentNegative, exponent, text) := exponentPart text
  (⟨negative, integer, fraction, exponentNegative, exponent⟩, text)

def magnitude (numeral : Numeral) : Nat := numeral.integer.foldl (fun n digit => n * 10 + (digit.toNat - 48)) 0

/-- `valueint`. An integer in the range of `int` is exact in a `double`; for the rest the arithmetic
of `double` and its conversion to `int` are a parameter. -/
def valueint (convert : Numeral → Int32) (numeral : Numeral) : Int32 :=
  if numeral.fraction = [] ∧ numeral.exponent = [] ∧ numeral.magnitude < 2 ^ 31 then
    Int32.ofInt (if numeral.negative then -numeral.magnitude else numeral.magnitude)
  else convert numeral

end Numeral

/-- Something read from the front of a text, and what is left behind it. -/
structure Parsed (α : Type) (text : List UInt8) where
  item : α
  rest : List UInt8
  shorter : rest.length < text.length

theorem drop_shorter (n : Nat) (head : UInt8) (tail : List UInt8) : (tail.drop n).length < (head :: tail).length := by
  rw [List.length_drop, List.length_cons]
  omega

theorem accept_length {byte : UInt8} {text rest : List UInt8} (found : accept byte text = some rest) :
    rest.length < text.length := by
  cases text with
  | nil => cases found
  | cons head tail =>
    simp only [accept] at found
    split at found
    · cases found; simp
    · cases found

theorem accept_getD_length (byte : UInt8) (text : List UInt8) :
    ((accept byte text).getD text).length ≤ text.length := by
  cases found : accept byte text with
  | none => exact Nat.le_refl _
  | some rest => exact Nat.le_of_lt (accept_length found)

theorem skip_length (text : List UInt8) : (skip text).length ≤ text.length := by
  induction text with
  | nil => exact Nat.le_refl _
  | cons byte rest ih =>
    simp only [skip]
    split
    · exact Nat.le_succ_of_le ih
    · exact Nat.le_refl _

theorem span_length (text : List UInt8) : (text.span isDigit).2.length ≤ text.length := by
  rw [List.span_eq_takeWhile_dropWhile]
  exact List.length_dropWhile_le isDigit text

namespace Numeral
variable (text : List UInt8)

theorem signPart_length : (signPart text).2.length ≤ text.length := by
  unfold signPart
  split
  next rest found => exact Nat.le_of_lt (accept_length found)
  next => exact Nat.le_refl _

theorem integerPart_length : (integerPart text).2.length ≤ text.length := by
  have zero := accept_getD_length 48 text
  unfold integerPart
  dsimp only
  split
  · exact Nat.le_trans (span_length _) zero
  · exact zero

theorem fractionPart_length : (fractionPart text).2.length ≤ text.length := by
  unfold fractionPart
  split
  next rest found =>
    split
    · exact Nat.le_trans (span_length rest) (Nat.le_of_lt (accept_length found))
    · exact Nat.le_refl _
  next => exact Nat.le_refl _

theorem exponentPart_length : (exponentPart text).2.2.length ≤ text.length := by
  unfold exponentPart
  split
  next rest found =>
    have shorter : rest.length < text.length := by
      rcases Option.or_eq_some_iff.mp found with small | ⟨-, big⟩
      · exact accept_length small
      · exact accept_length big
    split
    next digits plus =>
      exact Nat.le_trans (span_length digits) (Nat.le_of_lt (Nat.lt_trans (accept_length plus) shorter))
    next => exact Nat.le_trans (span_length _) (Nat.le_trans (signPart_length rest) (Nat.le_of_lt shorter))
  next => exact Nat.le_refl _

theorem integerPart_shorter {head : UInt8} {tail : List UInt8} (digit : isDigit head = true) :
    (integerPart (head :: tail)).2.length < (head :: tail).length := by
  unfold integerPart
  by_cases zero : head = 48
  · have passed : accept 48 (head :: tail) = some tail := if_pos zero
    simp only [passed, Option.getD_some, List.length_cons]
    split
    · exact Nat.lt_succ_of_le (span_length tail)
    · exact Nat.lt_succ_self _
  · have kept : accept 48 (head :: tail) = none := if_neg zero
    have first : ((head :: tail).head?.any fun byte => 49 ≤ byte && byte ≤ 57) = true := by
      simp only [isDigit, Bool.and_eq_true, decide_eq_true_eq, UInt8.le_iff_toNat_le, UInt8.reduceToNat] at digit
      have apart : head.toNat ≠ 48 := fun same => zero (UInt8.toNat_inj.mp same)
      simp only [List.head?_cons, Option.any_some, Bool.and_eq_true, decide_eq_true_eq, UInt8.le_iff_toNat_le,
        UInt8.reduceToNat]
      omega
    simp only [kept, Option.getD_none, first, if_true, List.span_eq_takeWhile_dropWhile,
      List.dropWhile_cons_of_pos digit, List.length_cons]
    exact Nat.lt_succ_of_le (List.length_dropWhile_le isDigit tail)

theorem parse_shorter {head : UInt8} {tail : List UInt8} (starts : head = 45 ∨ isDigit head = true) :
    (parse (head :: tail)).2.length < (head :: tail).length := by
  have rest (text : List UInt8) : (exponentPart (fractionPart text).2).2.2.length ≤ text.length :=
    Nat.le_trans (exponentPart_length _) (fractionPart_length text)
  suffices integer : (integerPart (signPart (head :: tail)).2).2.length < (head :: tail).length from
    Nat.lt_of_le_of_lt (rest _) integer
  by_cases minus : head = 45
  · have signed : signPart (head :: tail) = (true, tail) := by simp [signPart, accept, minus]
    rw [signed]
    exact Nat.lt_succ_of_le (integerPart_length tail)
  · have unsigned : signPart (head :: tail) = (false, head :: tail) := by simp [signPart, accept, minus]
    rw [unsigned]
    exact integerPart_shorter (starts.resolve_left minus)

end Numeral

def hexValue (byte : UInt8) : Option Nat :=
  if 48 ≤ byte ∧ byte ≤ 57 then some (byte.toNat - 48)
  else if 65 ≤ byte ∧ byte ≤ 70 then some (byte.toNat - 55)
  else if 97 ≤ byte ∧ byte ≤ 102 then some (byte.toNat - 87)
  else none

/-- Zero where one of the four is no hexadecimal digit. -/
def parseHex4 (text : List UInt8) : Nat :=
  match (text.take 4).mapM hexValue with
  | some [a, b, c, d] => ((a * 16 + b) * 16 + c) * 16 + d
  | _ => 0

/-- The UTF-8 bytes of a code point. -/
def utf8 (uc : Nat) : List UInt8 :=
  let tail (bits : Nat) : UInt8 := UInt8.ofNat (bits % 64 + 128)
  if uc < 0x80 then [UInt8.ofNat uc]
  else if uc < 0x800 then [UInt8.ofNat (uc / 64 + 0xC0), tail uc]
  else if uc < 0x10000 then [UInt8.ofNat (uc / 4096 + 0xE0), tail (uc / 64), tail uc]
  else [UInt8.ofNat (uc / 262144 + 0xF0), tail (uc / 4096), tail (uc / 64), tail uc]

/-- What follows `\u`: the bytes it stands for and how many characters the pointer passes. A code
that is no character stands for nothing. -/
def transcode (text : List UInt8) : List UInt8 × Nat :=
  let uc := parseHex4 text
  if 0xDC00 ≤ uc ∧ uc ≤ 0xDFFF ∨ uc = 0 then ([], 4)
  else if 0xD800 ≤ uc ∧ uc ≤ 0xDBFF then
    match (accept 92 (text.drop 4)).bind (accept 117) with
    | none => ([], 4)
    | some second =>
      let uc2 := parseHex4 second
      if uc2 < 0xDC00 ∨ 0xDFFF < uc2 then ([], 10)
      else (utf8 (0x10000 + (uc % 1024 * 1024 + uc2 % 1024)), 10)
  else (utf8 uc, 4)

def escapedByte (token : UInt8) : UInt8 :=
  if token = 98 then 8
  else if token = 102 then 12
  else if token = 110 then 10
  else if token = 114 then 13
  else if token = 116 then 9
  else token

/-- The first loop of `parse_string`, which counts the bytes to allocate. -/
def stringLength : List UInt8 → Exec Nat
  | [] => .ok 0
  | [byte] => if byte = 34 then .ok 0 else if byte = 92 then .error .outOfBounds else .ok 1
  | byte :: token :: rest =>
    if byte = 34 then .ok 0
    else if byte = 92 then (stringLength rest).map (· + 1)
    else (stringLength (token :: rest)).map (· + 1)

/-- The second loop: the bytes written and the text from the closing quote on. -/
def unescape (text : List UInt8) : Exec (List UInt8 × {rest : List UInt8 // rest.length ≤ text.length}) :=
  match text with
  | [] => .ok ([], ⟨[], Nat.le_refl _⟩)
  | byte :: rest =>
    if byte = 34 then .ok ([], ⟨byte :: rest, Nat.le_refl _⟩)
    else if byte ≠ 92 then do
      let (out, ⟨left, shorter⟩) ← unescape rest
      return (byte :: out, ⟨left, Nat.le_succ_of_le shorter⟩)
    else
      match rest with
      | [] => .error .outOfBounds
      | token :: rest =>
        if token ≠ 117 then do
          let (out, ⟨left, shorter⟩) ← unescape rest
          return (escapedByte token :: out, ⟨left, Nat.le_succ_of_le (Nat.le_succ_of_le shorter)⟩)
        else
          let (written, used) := transcode rest
          if used ≤ rest.length then do
            let (out, ⟨left, shorter⟩) ← unescape (rest.drop used)
            return (written ++ out, ⟨left, Nat.le_of_lt (Nat.lt_succ_of_lt (Nat.lt_of_le_of_lt shorter
              (drop_shorter used token rest)))⟩)
          else .error .outOfBounds
termination_by text.length
decreasing_by
  · exact Nat.lt_succ_self _
  · exact Nat.lt_succ_of_lt (Nat.lt_succ_self _)
  · exact Nat.lt_succ_of_lt (drop_shorter used token rest)

/-- `parse_string`: nothing where the text does not begin with a quote. -/
def parseString (text : List UInt8) : Exec (Option (Parsed CStr text)) :=
  match opened : accept 34 text with
  | none => .ok none
  | some body => do
    let len ← stringLength body
    let (out, ⟨left, shorter⟩) ← unescape body
    -- `len + 1` bytes were allocated, one of them for the terminator.
    if len < out.length then .error .outOfBounds
    else return some ⟨.upToNul out, (accept 34 left).getD left,
      Nat.lt_of_le_of_lt (Nat.le_trans (accept_getD_length 34 left) shorter) (accept_length opened)⟩

section Shorter
variable {byte : UInt8} {text rest : List UInt8}

/-- What comes behind a byte that may have space in front of it. -/
theorem accept_skip_length (found : accept byte (skip text) = some rest) : rest.length < text.length :=
  Nat.lt_of_lt_of_le (accept_length found) (skip_length text)

theorem skip_accept_skip_length (found : accept byte (skip text) = some rest) : (skip rest).length < text.length :=
  Nat.lt_of_le_of_lt (skip_length rest) (accept_skip_length found)

end Shorter

variable (convert : Numeral → Int32)

mutual

/-- `parse_value`, nothing where the text is malformed. -/
def parseValue (text : List UInt8) : Exec (Option (Parsed CJson text)) :=
  match text with
  | [] => .ok none
  | head :: tail =>
    if startsWith (CStr.ofString "null").bytes (head :: tail) then
      .ok (some ⟨.jsonNull, tail.drop 3, drop_shorter _ head tail⟩)
    else if startsWith (CStr.ofString "false").bytes (head :: tail) then
      .ok (some ⟨.jsonFalse, tail.drop 4, drop_shorter _ head tail⟩)
    else if startsWith (CStr.ofString "true").bytes (head :: tail) then
      .ok (some ⟨.jsonTrue, tail.drop 3, drop_shorter _ head tail⟩)
    else if head = 34 then do
      let parsed ← parseString (head :: tail)
      return parsed.map fun parsed => ⟨.string parsed.item, parsed.rest, parsed.shorter⟩
    else if starts : head = 45 ∨ isDigit head = true then
      .ok (some ⟨.number ((Numeral.parse (head :: tail)).1.valueint convert), (Numeral.parse (head :: tail)).2,
        Numeral.parse_shorter starts⟩)
    else if head = 91 then
      match closed : accept 93 (skip tail) with
      | some rest => .ok (some ⟨.array [], rest, Nat.lt_succ_of_lt (accept_skip_length closed)⟩)
      | none => do
        match ← parseItems (skip tail) with
        | none => return none
        | some items =>
          return some ⟨.array items.item, items.rest,
            Nat.lt_succ_of_lt (Nat.lt_of_lt_of_le items.shorter (skip_length tail))⟩
    else if head = 123 then
      match closed : accept 125 (skip tail) with
      | some rest => .ok (some ⟨.object [], rest, Nat.lt_succ_of_lt (accept_skip_length closed)⟩)
      | none => do
        match ← parseMembers (skip tail) with
        | none => return none
        | some members =>
          return some ⟨.object members.item, members.rest,
            Nat.lt_succ_of_lt (Nat.lt_of_lt_of_le members.shorter (skip_length tail))⟩
    else .ok none
termination_by 2 * text.length
decreasing_by
  all_goals
    have := skip_length tail
    simp only [List.length_cons]
    omega

/-- The items of an array, each but the last with a comma behind it, and the closing bracket. -/
def parseItems (text : List UInt8) : Exec (Option (Parsed (List CJson) text)) := do
  match ← parseValue text with
  | none => return none
  | some first =>
    match comma : accept 44 (skip first.rest) with
    | some rest =>
      match ← parseItems (skip rest) with
      | none => return none
      | some items =>
        return some ⟨first.item :: items.item, items.rest,
          Nat.lt_trans items.shorter (Nat.lt_trans (skip_accept_skip_length comma) first.shorter)⟩
    | none =>
      match closed : accept 93 (skip first.rest) with
      | some rest => return some ⟨[first.item], rest, Nat.lt_trans (accept_skip_length closed) first.shorter⟩
      | none => return none
termination_by 2 * text.length + 1
decreasing_by
  · exact Nat.lt_succ_self _
  · have := Nat.lt_trans (skip_accept_skip_length comma) first.shorter
    omega

/-- The members of an object, each with its key and a colon. -/
def parseMembers (text : List UInt8) : Exec (Option (Parsed Members text)) := do
  match ← parseString text with
  | none => return none
  | some key =>
    match colon : accept 58 (skip key.rest) with
    | none => return none
    | some behind =>
      match ← parseValue (skip behind) with
      | none => return none
      | some first =>
        have member : first.rest.length < text.length :=
          Nat.lt_trans first.shorter (Nat.lt_trans (skip_accept_skip_length colon) key.shorter)
        match comma : accept 44 (skip first.rest) with
        | some rest =>
          match ← parseMembers (skip rest) with
          | none => return none
          | some members =>
            return some ⟨(key.item, first.item) :: members.item, members.rest,
              Nat.lt_trans members.shorter (Nat.lt_trans (skip_accept_skip_length comma) member)⟩
        | none =>
          match closed : accept 125 (skip first.rest) with
          | some rest =>
            return some ⟨[(key.item, first.item)], rest, Nat.lt_trans (accept_skip_length closed) member⟩
          | none => return none
termination_by 2 * text.length + 1
decreasing_by
  · have := Nat.lt_trans (skip_accept_skip_length colon) key.shorter
    omega
  · have := Nat.lt_trans (skip_accept_skip_length comma) member
    omega

end

/-- `cJSON_Parse` of the text a pointer leads to. What follows the value is not looked at. -/
def cJSONParse (text : CStr) : Exec (Option CJson) := do
  let parsed ← parseValue convert (skip text.bytes)
  return parsed.map Parsed.item

end PhicommTC1
