import PhicommTC1.UserFunction
import PhicommTC1.Foundation.LastWriter

/-! The settings as a file of independent registers, and what a message asks of each.
This is what the command interface is for; the handler is compared with it. -/

namespace PhicommTC1
open CText

/-- One setting: a relay with its records and pin, a task slot, a string, the name, the port. -/
inductive Register where
  | switch (x : Plug)
  | task (x : Plug) (y : Slot)
  | text (field : TextField)
  | deviceid
  | mqttPort
  deriving DecidableEq

abbrev Register.Value : Register → Type
  | .switch _ => Switch
  | .task _ _ => UserPlugTaskConfig
  | .text _ => CStr
  | .deviceid => CStr
  | .mqttPort => Int32

def State.registers (state : State) : (register : Register) → register.Value
  | .switch x => state.switch x
  | .task x y => (state.uConfig.plug x).task y
  | .text field => (field.array state.uConfig).text
  | .deviceid => state.deviceid.text
  | .mqttPort => state.uConfig.mqttPort

/-- What no command is meant to reach, the second copy of the settings without its switch positions. -/
structure Kept where
  strMac : CStr
  strIp : CStr
  mqttDeviceId : Setting
  version : UInt8
  padding : CharArray 3
  userDefaultconfig : UConfig

def State.kept (state : State) : Kept where
  strMac := state.strMac
  strIp := state.strIp
  mqttDeviceId := state.uConfig.mqttDeviceId
  version := state.uConfig.version
  padding := state.uConfig.padding
  userDefaultconfig := { state.userDefaultconfig with
    plug := fun x => { state.userDefaultconfig.plug x with on := 0 } }

namespace Request
variable (root : CJson)

/-- `plug_x.on`, when numeric, modulo 256. -/
def on (x : Plug) : Option UInt8 := do
  let plug ← root.getObjectItem (plugStr x)
  let value ← (plug.getObjectItem (.ofString "on")).bind CJson.numberValue
  return toByte value

/-- `plug_x.setting.task_y`, when all five members are present and numeric. -/
def task (x : Plug) (y : Slot) : Option UserPlugTaskConfig := do
  let plug ← root.getObjectItem (plugStr x)
  let setting ← plug.getObjectItem (.ofString "setting")
  let task ← setting.getObjectItem (plugTaskStr y)
  taskOf task

def setting (key : CStr) : Option CJson := do
  let setting ← root.getObjectItem (.ofString "setting")
  setting.getObjectItem key

def plugName (x : Plug) : Option CJson := do
  let plug ← root.getObjectItem (plugStr x)
  let setting ← plug.getObjectItem (.ofString "setting")
  setting.getObjectItem (.ofString "name")

def text : TextField → Option CStr
  | .mqttIp => (setting root (.ofString "mqtt_uri")).bind CJson.valuestring
  | .mqttUser => (setting root (.ofString "mqtt_user")).bind CJson.valuestring
  | .mqttPassword => (setting root (.ofString "mqtt_password")).bind CJson.valuestring
  | .plugName x => (plugName root x).bind CJson.valuestring

def deviceid : Option CStr := (setting root (.ofString "name")).bind CJson.valuestring

def mqttPort : Option Int32 := (setting root (.ofString "mqtt_port")).bind CJson.numberValue

/-- What the message asks of a register: the value it gives, if it gives one of the right type. -/
def value : (register : Register) → Option register.Value
  | .switch x => (on root x).map Switch.driven
  | .task x y => task root x y
  | .text field => text root field
  | .deviceid => deviceid root
  | .mqttPort => mqttPort root

/-- What the handler stores for it: a string goes through `sprintf`. -/
def printed : (register : Register) → Option register.Value
  | .text field => (text root field).bind CText.sprintf
  | .deviceid => (deviceid root).bind CText.sprintf
  | .switch x => value root (.switch x)
  | .task x y => value root (.task x y)
  | .mqttPort => value root .mqttPort

def OtaUnreadable : Prop := ∃ ota, setting root (.ofString "ota") = some ota ∧ ota.valuestring = none

/-- Every string the message stores into `u_config` fits its 32-byte array. -/
def Fits : Prop := ∀ field format stored, text root field = some format →
  CText.sprintf format = some stored → stored.length < 32

/-- Every string the message stores has at most 31 bytes and no percent sign. -/
def Plain : Prop :=
  (∀ field format, text root field = some format → format.length ≤ 31 ∧ 37 ∉ format.bytes) ∧
    ∀ format, deviceid root = some format → format.length ≤ 31 ∧ 37 ∉ format.bytes

variable {root}

theorem Plain.fits (plain : Plain root) : Fits root := by
  intro field format stored asked printed
  obtain ⟨short, noPercent⟩ := plain.1 field format asked
  rw [sprintf_plain noPercent] at printed
  cases printed
  omega

theorem Plain.printed_eq (plain : Plain root) (register : Register) : printed root register = value root register := by
  cases register with
  | text field =>
    change (text root field).bind CText.sprintf = text root field
    cases asked : text root field with
    | none => rfl
    | some format => exact sprintf_plain (plain.1 field format asked).2
  | deviceid =>
    change (deviceid root).bind CText.sprintf = deviceid root
    cases asked : deviceid root with
    | none => rfl
    | some format => exact sprintf_plain (plain.2 format asked).2
  | _ => rfl

end Request

end PhicommTC1
