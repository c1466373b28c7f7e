import Mathlib.Algebra.Order.BigOperators.Group.List
import Mathlib.Algebra.Order.Ring.Nat
import PhicommTC1.CJsonHeap
import PhicommTC1.CJsonText

/-! `cJSON_Parse` and `cJSON_Print` as they use memory: the items a text is read into, and the strings that
are put together to one. `malloc` does not fail. -/

namespace PhicommTC1.OnHeap
open CText Separation

section Parsing
variable (convert : Numeral → Int32)

/-- Like each of the parsing functions, fills the item it is given and returns what is left of the text, or nothing
where the text is malformed. -/
def parseNumber (item : Nat) (num : List UInt8) : OnHeap (List UInt8) := do
  let (numeral, rest) := Numeral.parse num
  modifyItem item fun item => { item with kind := .number, valueint := numeral.valueint convert }
  return rest

def parseString (item : Nat) (str : List UInt8) : OnHeap (Option (List UInt8)) := do
  match ← lift (PhicommTC1.parseString str) with
  | none => return none
  | some parsed => do
    let out ← alloc (.text parsed.item)
    modifyItem item fun item => { item with kind := .string, valuestring := some out }
    return some parsed.rest

/-- `child->next=new_item;new_item->prev=child` -/
def newItemBehind (child : Nat) : OnHeap Nat := do
  let newItem ← cJSONNewItem
  setNext child (some newItem)
  setPrev newItem (some child)
  return newItem

mutual

def parseValue : Nat → Nat → List UInt8 → OnHeap (Option (List UInt8))
  | 0, _, _ => fault .loops
  | _ + 1, _, [] => return none
  | fuel + 1, item, head :: tail =>
    if startsWith (CStr.ofString "null").bytes (head :: tail) then do
      modifyItem item fun item => { item with kind := .jsonNull }
      return some (tail.drop 3)
    else if startsWith (CStr.ofString "false").bytes (head :: tail) then do
      modifyItem item fun item => { item with kind := .jsonFalse }
      return some (tail.drop 4)
    else if startsWith (CStr.ofString "true").bytes (head :: tail) then do
      modifyItem item fun item => { item with kind := .jsonTrue, valueint := 1 }
      return some (tail.drop 3)
    else if head = 34 then parseString item (head :: tail)
    else if head = 45 ∨ isDigit head = true then some <$> parseNumber convert item (head :: tail)
    else if head = 91 then do
      modifyItem item fun item => { item with kind := .array }
      match accept 93 (skip tail) with
      | some rest => return some rest
      | none => do
        let child ← cJSONNewItem
        setChild item (some child)
        parseItems fuel child (skip tail)
    else if head = 123 then do
      modifyItem item fun item => { item with kind := .object }
      match accept 125 (skip tail) with
      | some rest => return some rest
      | none => do
        let child ← cJSONNewItem
        setChild item (some child)
        parseMembers fuel child (skip tail)
    else return none

/-- `parse_array` from its first item on. -/
def parseItems : Nat → Nat → List UInt8 → OnHeap (Option (List UInt8))
  | 0, _, _ => fault .loops
  | fuel + 1, child, value => do
    match ← parseValue fuel child value with
    | none => return none
    | some value =>
      match accept 44 (skip value) with
      | some rest => do
        let newItem ← newItemBehind child
        parseItems fuel newItem (skip rest)
      | none => return accept 93 (skip value)

/-- `parse_object` from its first member on. The key is read into `valuestring` and moved. -/
def parseMembers : Nat → Nat → List UInt8 → OnHeap (Option (List UInt8))
  | 0, _, _ => fault .loops
  | fuel + 1, child, value => do
    match ← parseString child value with
    | none => return none
    | some value => do
      modifyItem child fun child => { child with string := child.valuestring, valuestring := none }
      match accept 58 (skip value) with
      | none => return none
      | some value =>
        match ← parseValue fuel child (skip value) with
        | none => return none
        | some value =>
          match accept 44 (skip value) with
          | some rest => do
            let newItem ← newItemBehind child
            parseMembers fuel newItem (skip rest)
          | none => return accept 125 (skip value)

end

def cJSONParse (fuel : Nat) (value : CStr) : OnHeap Pointer := do
  let c ← cJSONNewItem
  match ← parseValue convert fuel c (skip value.bytes) with
  | some _ => return some c
  | none => do
    cJSONDelete fuel (some c)
    return none

end Parsing

/-- `malloc(size)` and a text written there with its terminator. -/
def allocText (size : Nat) (text : List UInt8) : OnHeap Nat :=
  if text.length < size then alloc (.text (.upToNul text)) else fault (.undefined .outOfBounds)

/-- Bytes written behind the text in a buffer of a given size. -/
def appendText (out size : Nat) (bytes : List UInt8) : OnHeap Unit := do
  let text ← loadText (some out)
  if text.length + bytes.length < size then store .badAddress out (.text (.upToNul (text.bytes ++ bytes)))
  else fault (.undefined .outOfBounds)

def pointersOf : Block → OnHeap (List Pointer)
  | .pointers entries => pure entries
  | _ => fault .badAddress

/-- `entries[i]` -/
def entryAt (entries i : Nat) : OnHeap Pointer := do
  let pointers ← load .badAddress entries >>= pointersOf
  match pointers[i]? with
  | some entry => return entry
  | none => fault (.undefined .outOfBounds)

/-- `entries[i]=ret` -/
def setEntry (entries i ret : Nat) : OnHeap Unit := do
  let pointers ← load .badAddress entries >>= pointersOf
  if i < pointers.length then store .badAddress entries (.pointers (pointers.set i (some ret)))
  else fault (.undefined .outOfBounds)

/-- The bytes a byte of a string takes when it is printed. -/
def tokenLength (token : UInt8) : Nat :=
  if token = 34 ∨ token = 92 ∨ token = 8 ∨ token = 12 ∨ token = 10 ∨ token = 13 ∨ token = 9 then 2
  else if token < 32 then 6
  else 1

/-- `len` in `print_string_ptr`: the length of the string where nothing in it is escaped. -/
def printedLength (str : CStr) : Nat :=
  if str.bytes.any fun byte => byte < 32 || byte == 34 || byte == 92 then (str.bytes.map tokenLength).sum else str.length

def printStringPtr (str : Pointer) : OnHeap Nat := do
  let str ← loadText str
  allocText (printedLength str + 3) (CJson.printStringPtr str)

def printNumber (number : Int32) : OnHeap Nat :=
  if number = 0 then allocText 2 (CStr.ofString "0").bytes else allocText 21 (decimal number.toInt)

/-- Copies an entry to the end of `out`. -/
def appendEntry (out size entries i : Nat) : OnHeap Unit := do
  let entry ← entryAt entries i
  let text ← loadText entry
  appendText out size text.bytes

def freeEntry (entries i : Nat) : OnHeap Unit := do
  let entry ← entryAt entries i
  freeOf entry

section Printing
variable (fmt : Bool)

/-- What `print_array` puts behind an entry, `left` of them before the end. -/
def appendComma (out size left : Nat) : OnHeap Unit :=
  if left = 0 then pure () else appendText out size (44 :: CJson.layout fmt [32])

/-- The loop of `print_array` that composes the output; `left` of the entries are still to come. -/
def composeItems (out size entries : Nat) : Nat → Nat → OnHeap Unit
  | 0, _ => pure ()
  | left + 1, i => do
    appendEntry out size entries i
    appendComma fmt out size left
    freeEntry entries i
    composeItems out size entries left (i + 1)

/-- A member of an object, with its tabs and what stands behind it. -/
def composeMember (out size names entries depth left i : Nat) : OnHeap Unit := do
  appendText out size (CJson.layout fmt (CJson.tabs depth))
  appendEntry out size names i
  appendText out size (58 :: CJson.layout fmt [9])
  appendEntry out size entries i
  appendText out size ((if left = 0 then [] else [44]) ++ CJson.layout fmt [10])
  freeEntry names i
  freeEntry entries i

/-- The same of `print_object`. -/
def composeMembers (out size names entries depth : Nat) : Nat → Nat → OnHeap Unit
  | 0, _ => pure ()
  | left + 1, i => do
    composeMember fmt out size names entries depth left i
    composeMembers out size names entries depth left (i + 1)

/-- `print_array`; `retrieve` fills `entries` with the printed items and adds up `len`. -/
def printArray (numentries : Nat) (retrieve : Nat → OnHeap Nat) : OnHeap Nat :=
  if numentries = 0 then allocText 3 (CStr.ofString "[]").bytes
  else do
    let entries ← alloc (.pointers (.replicate numentries none))
    let len ← retrieve entries
    let out ← allocText len [91]
    composeItems fmt out len entries numentries 0
    free .badAddress entries
    appendText out len [93]
    return out

/-- `print_object`, whose members stand one deeper than the object. -/
def printObject (numentries depth : Nat) (retrieve : Nat → Nat → OnHeap Nat) : OnHeap Nat :=
  if numentries = 0 then
    allocText (if fmt then depth + 4 else 3) (123 :: CJson.layout fmt (10 :: CJson.tabs (depth - 1)) ++ [125])
  else do
    let entries ← alloc (.pointers (.replicate numentries none))
    let names ← alloc (.pointers (.replicate numentries none))
    let len ← retrieve names entries
    let out ← allocText len (123 :: CJson.layout fmt [10])
    composeMembers fmt out len names entries (depth + 1) numentries 0
    free .badAddress names
    free .badAddress entries
    appendText out len (CJson.layout fmt (CJson.tabs depth) ++ [125])
    return out

mutual

def printValue : Nat → Nat → Nat → OnHeap Nat
  | 0, _, _ => fault .loops
  | fuel + 1, depth, address => do
    let item ← loadItem address
    match item.kind with
    | .jsonNull => cJSONStrdup (.ofString "null")
    | .jsonFalse => cJSONStrdup (.ofString "false")
    | .jsonTrue => cJSONStrdup (.ofString "true")
    | .number => printNumber item.valueint
    | .string => printStringPtr item.valuestring
    | .array => do
      let numentries ← countItems fuel item.child
      printArray fmt numentries fun entries => printItems fuel (depth + 1) entries 0 item.child 5
    | .object => do
      let numentries ← countItems fuel item.child
      printObject fmt numentries depth fun names entries =>
        printMembers fuel (depth + 1) names entries 0 item.child (7 + if fmt then depth + 1 else 0)

/-- The loop of `print_array` that prints each item by itself and adds up `len`. -/
def printItems : Nat → Nat → Nat → Nat → Pointer → Nat → OnHeap Nat
  | _, _, _, _, none, len => return len
  | 0, _, _, _, some _, _ => fault .loops
  | fuel + 1, depth, entries, i, some child, len => do
    let ret ← printValue fuel depth child
    setEntry entries i ret
    let text ← loadText (some ret)
    let item ← loadItem child
    printItems fuel depth entries (i + 1) item.next (len + text.length + 2 + if fmt then 1 else 0)

/-- The same of `print_object`. -/
def printMembers : Nat → Nat → Nat → Nat → Nat → Pointer → Nat → OnHeap Nat
  | _, _, _, _, _, none, len => return len
  | 0, _, _, _, _, some _, _ => fault .loops
  | fuel + 1, depth, names, entries, i, some child, len => do
    let member ← loadItem child
    let str ← printStringPtr member.string
    setEntry names i str
    let ret ← printValue fuel depth child
    setEntry entries i ret
    let name ← loadText (some str)
    let text ← loadText (some ret)
    let item ← loadItem child
    printMembers fuel depth names entries (i + 1) item.next
      (len + text.length + name.length + 2 + if fmt then 2 + depth else 0)

end

end Printing

def cJSONPrint (fuel item : Nat) : OnHeap Nat := printValue true fuel 0 item

end PhicommTC1.OnHeap
