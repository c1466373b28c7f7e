import PhicommTC1.CJson
import PhicommTC1.Foundation.Separation

/-! cJSON as it lies in memory: items linked by pointers, each with its strings. A loop over a chain and
a descent into a tree are given a number of turns; one that needs more is reported as `loops`. -/

namespace PhicommTC1
open CText Separation

abbrev Pointer := Option Nat

/-- The low byte of `type`. -/
inductive Kind where
  | jsonFalse
  | jsonTrue
  | jsonNull
  | number
  | string
  | array
  | object
  deriving DecidableEq

/-- `cJSON` without `valuedouble`. `isReference` and `stringIsConst` are the flags in `type`. -/
structure Item where
  next : Pointer
  prev : Pointer
  child : Pointer
  kind : Kind
  isReference : Bool
  stringIsConst : Bool
  valuestring : Pointer
  valueint : Int32
  string : Pointer

/-- What `malloc` is asked for: an item, a string, or an array of pointers to strings. -/
inductive Block where
  | item (item : Item)
  | text (text : CStr)
  | pointers (entries : List Pointer)

inductive HeapFault where
  /-- the address of no block, or of a block of another kind -/
  | badAddress
  | nullPointer
  | loops
  | undefined (fault : Fault)

abbrev OnHeap := Program Block HeapFault

def fault {α : Type} (reason : HeapFault) : OnHeap α := fun _ => .error reason

/-- A computation that touches no memory. -/
def lift {α : Type} (computation : Exec α) : OnHeap α := fun heap =>
  match computation with
  | .ok value => .ok (value, heap)
  | .error reason => .error (.undefined reason)

def deref : Pointer → OnHeap Nat
  | some address => pure address
  | none => fault .nullPointer

def itemOf : Block → OnHeap Item
  | .item item => pure item
  | _ => fault .badAddress

def textOf : Block → OnHeap CStr
  | .text text => pure text
  | _ => fault .badAddress

def loadItem (address : Nat) : OnHeap Item := load .badAddress address >>= itemOf

def loadText (pointer : Pointer) : OnHeap CStr := do
  let address ← deref pointer
  load .badAddress address >>= textOf

/-- An assignment to members of the item at an address. -/
def modifyItem (address : Nat) (change : Item → Item) : OnHeap Unit := do
  let item ← loadItem address
  store .badAddress address (.item (change item))

def setNext (address : Nat) (next : Pointer) : OnHeap Unit := modifyItem address fun item => { item with next := next }

def setPrev (address : Nat) (prev : Pointer) : OnHeap Unit := modifyItem address fun item => { item with prev := prev }

def setChild (address : Nat) (child : Pointer) : OnHeap Unit :=
  modifyItem address fun item => { item with child := child }

/-- `if (p) p->next=next`, and the same of `prev` below. -/
def setNextOf (pointer next : Pointer) : OnHeap Unit :=
  match pointer with
  | some address => setNext address next
  | none => pure ()

def freeOf : Pointer → OnHeap Unit
  | some address => free .badAddress address
  | none => pure ()

/-- What `memset` leaves. -/
def Item.zero : Item := ⟨none, none, none, .jsonFalse, false, false, none, 0, none⟩

def cJSONNewItem : OnHeap Nat := alloc (.item .zero)

def cJSONStrdup (text : CStr) : OnHeap Nat := alloc (.text text)

/-- `cJSON_CreateNull`, `cJSON_CreateTrue`, `cJSON_CreateFalse`, `cJSON_CreateArray` and `cJSON_CreateObject`. -/
def cJSONCreate (kind : Kind) : OnHeap Nat := do
  let item ← cJSONNewItem
  modifyItem item fun item => { item with kind := kind }
  return item

def cJSONCreateNumber (number : Int32) : OnHeap Nat := do
  let item ← cJSONNewItem
  modifyItem item fun item => { item with kind := .number, valueint := number }
  return item

def cJSONCreateString (string : CStr) : OnHeap Nat := do
  let item ← cJSONNewItem
  let valuestring ← cJSONStrdup string
  modifyItem item fun item => { item with kind := .string, valuestring := some valuestring }
  return item

/-- Deletes the item and all that follow it. -/
def cJSONDelete : Nat → Pointer → OnHeap Unit
  | _, none => pure ()
  | 0, some _ => fault .loops
  | fuel + 1, some c => do
    let item ← loadItem c
    if item.isReference then pure () else cJSONDelete fuel item.child
    if item.isReference then pure () else freeOf item.valuestring
    if item.stringIsConst then pure () else freeOf item.string
    free .badAddress c
    cJSONDelete fuel item.next

def countItems : Nat → Pointer → OnHeap Nat
  | _, none => pure 0
  | 0, some _ => fault .loops
  | fuel + 1, some c => do
    let item ← loadItem c
    let rest ← countItems fuel item.next
    return rest + 1

/-- `!cJSON_strcasecmp(c->string,string)`: an item without a key is never the one. -/
def hasKey (key : CStr) : Pointer → OnHeap Bool
  | none => pure false
  | some string => do
    let string ← loadText (some string)
    return sameIgnoringCase string.bytes key.bytes

/-- The first item with the key, and how many come before it. -/
def seekKey (key : CStr) : Nat → Pointer → OnHeap (Nat × Pointer)
  | _, none => pure (0, none)
  | 0, some _ => fault .loops
  | fuel + 1, some c => do
    let item ← loadItem c
    if ← hasKey key item.string then return (0, some c)
    else
      let (i, found) ← seekKey key fuel item.next
      return (i + 1, found)

def cJSONGetObjectItem (fuel object : Nat) (string : CStr) : OnHeap Pointer := do
  let object ← loadItem object
  let (_, found) ← seekKey string fuel object.child
  return found

def suffixObject (prev item : Nat) : OnHeap Unit := do
  setNext prev (some item)
  setPrev item (some prev)

/-- `while (c && c->next) c=c->next` -/
def lastItem : Nat → Nat → OnHeap Nat
  | 0, _ => fault .loops
  | fuel + 1, c => do
    let item ← loadItem c
    match item.next with
    | some next => lastItem fuel next
    | none => return c

def cJSONAddItemToArray (fuel array item : Nat) : OnHeap Unit := do
  let parent ← loadItem array
  match parent.child with
  | none => setChild array (some item)
  | some c => do
    let last ← lastItem fuel c
    suffixObject last item

/-- `item->string=cJSON_strdup(string)` -/
def setString (item : Nat) (string : CStr) : OnHeap Unit := do
  let copy ← cJSONStrdup string
  modifyItem item fun item => { item with string := some copy }

def cJSONAddItemToObject (fuel object : Nat) (string : CStr) (item : Nat) : OnHeap Unit := do
  let added ← loadItem item
  freeOf added.string
  setString item string
  cJSONAddItemToArray fuel object item

def cJSONAddNumberToObject (fuel object : Nat) (name : CStr) (n : Int32) : OnHeap Unit := do
  let item ← cJSONCreateNumber n
  cJSONAddItemToObject fuel object name item

def cJSONAddStringToObject (fuel object : Nat) (name : CStr) (s : CStr) : OnHeap Unit := do
  let item ← cJSONCreateString s
  cJSONAddItemToObject fuel object name item

/-- `if (p) q=cJSON_strdup(p)` -/
def strdupOf : Pointer → OnHeap Pointer
  | none => pure none
  | some address => do
    let text ← loadText (some address)
    let copy ← cJSONStrdup text
    return some copy

/-- The copy of a child goes behind the one made last, `nptr`. -/
def linkCopy (newitem : Nat) (nptr : Pointer) (newchild : Nat) : OnHeap Unit :=
  match nptr with
  | some nptr => suffixObject nptr newchild
  | none => setChild newitem (some newchild)

mutual

/-- `cJSON_Duplicate`, with `recurse` set. -/
def cJSONDuplicate : Nat → Nat → OnHeap Nat
  | 0, _ => fault .loops
  | fuel + 1, address => do
    let item ← loadItem address
    let newitem ← cJSONNewItem
    let valuestring ← strdupOf item.valuestring
    let string ← strdupOf item.string
    modifyItem newitem fun newitem => { newitem with
      kind := item.kind
      stringIsConst := item.stringIsConst
      valueint := item.valueint
      valuestring := valuestring
      string := string }
    duplicateChildren fuel newitem none item.child
    return newitem

/-- The loop over the children. -/
def duplicateChildren : Nat → Nat → Pointer → Pointer → OnHeap Unit
  | _, _, _, none => pure ()
  | 0, _, _, some _ => fault .loops
  | fuel + 1, newitem, nptr, some cptr => do
    let newchild ← cJSONDuplicate fuel cptr
    linkCopy newitem nptr newchild
    let item ← loadItem cptr
    duplicateChildren fuel newitem (some newchild) item.next

end

end PhicommTC1
