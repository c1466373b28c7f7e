import PhicommTC1.Foundation.CText

/-! The cJSON trees the firmware reads and builds. Parsing and printing are left to cJSON. -/

namespace PhicommTC1
open CText

/-- What C leaves undefined in the modelled code: a NULL `valuestring` handed on as a string, a conversion
whose argument was not passed, and an access outside the object that holds the array. -/
inductive Fault where
  | nullString
  | badConversion
  | outOfBounds
  deriving DecidableEq, Repr

abbrev Exec := Except Fault

/-- `valueint` is all the firmware reads of a number, `string` is the key of a member. -/
inductive CJson where
  | jsonFalse
  | jsonTrue
  | jsonNull
  | number (valueint : Int32)
  | string (valuestring : CStr)
  | array (child : List CJson)
  | object (child : List (CStr × CJson))

abbrev Members := List (CStr × CJson)

namespace CJson

/-- `cJSON_GetObjectItem`: the first member whose key agrees but for case. The items of an
array have no key and a scalar has no child, so there is nothing to find in them. -/
def getObjectItem (item : CJson) (key : CStr) : Option CJson :=
  match item with
  | .object child => (child.find? fun member => sameIgnoringCase member.1.bytes key.bytes).map Prod.snd
  | _ => none

def valuestring : CJson → Option CStr
  | .string text => some text
  | _ => none

def numberValue : CJson → Option Int32
  | .number value => some value
  | _ => none

end CJson

def Members.addItem (members : Members) (key : CStr) (item : CJson) : Members := members ++ [(key, item)]

/-- `cJSON_AddStringToObject`, whose `cJSON_strdup` reads the string it is given. -/
def Members.addString (members : Members) (key : CStr) (text : Option CStr) : Exec Members :=
  match text with
  | some text => .ok (members.addItem key (.string text))
  | none => .error .nullString

/-- `cJSON_AddNumberToObject` of a `char` or `uint8_t` field. -/
def Members.addByte (members : Members) (key : CStr) (byte : UInt8) : Members :=
  members.addItem key (.number (Int32.ofNat byte.toNat))

def toByte (value : Int32) : UInt8 := value.toUInt32.toUInt8

end PhicommTC1
