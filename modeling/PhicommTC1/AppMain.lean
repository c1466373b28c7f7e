import Mathlib.Algebra.Group.Nat.Defs
import PhicommTC1.CJson

/-! The settings of the plug as `appmain.h` declares them, and their layout in memory. -/

namespace PhicommTC1
open CText

/-- Indices below `PLUG_NUM` and `PLUG_TIME_TASK_NUM`. -/
abbrev Plug := Fin 6

abbrev Slot := Fin 5

/-- `PLUG_NAME_LENGTH` and `SETTING_MQTT_STRING_LENGTH_MAX` are both 32. -/
abbrev Setting := CharArray 32

def userConfigVersion : UInt8 := 2

/-- `repeats` is the field `repeat`: zero for a task that runs once, else a weekday mask. -/
@[ext] structure UserPlugTaskConfig where
  hour : UInt8
  minute : UInt8
  repeats : UInt8
  action : UInt8
  on : UInt8
  deriving DecidableEq

@[ext] structure UserPlugConfig where
  name : Setting
  on : UInt8
  task : Slot → UserPlugTaskConfig

/-- `padding` stands for the three bytes after the last plug that align the structure. -/
@[ext] structure UConfig where
  mqttIp : Setting
  mqttPort : Int32
  mqttUser : Setting
  mqttPassword : Setting
  mqttDeviceId : Setting
  version : UInt8
  plug : Plug → UserPlugConfig
  padding : CharArray 3

def UConfig.setPlug (config : UConfig) (x : Plug) (value : UserPlugConfig) : UConfig :=
  { config with plug := Function.update config.plug x value }

def UConfig.zero : UConfig :=
  let task : UserPlugTaskConfig := ⟨0, 0, 0, 0, 0⟩
  ⟨fun _ => 0, 0, fun _ => 0, fun _ => 0, fun _ => 0, 0, fun _ => ⟨fun _ => 0, 0, fun _ => task⟩, fun _ => 0⟩

/-- A byte of the structure, so that a store which leaves its array lands where C puts it. -/
def intByte (value : Int32) (position : Fin 4) : UInt8 :=
  UInt8.ofNat (value.toUInt32.toNat / 256 ^ position.val)

def setIntByte (value : Int32) (position : Fin 4) (byte : UInt8) : Int32 :=
  let bits := value.toUInt32.toNat
  let weight := 256 ^ position.val
  ⟨UInt32.ofNat (bits - bits / weight % 256 * weight + byte.toNat * weight)⟩

inductive Cell where
  | mqttIp (position : Fin 32)
  | mqttPort (position : Fin 4)
  | mqttUser (position : Fin 32)
  | mqttPassword (position : Fin 32)
  | mqttDeviceId (position : Fin 32)
  | version
  | name (x : Plug) (position : Fin 32)
  | on (x : Plug)
  | task (x : Plug) (y : Slot) (member : Fin 5)
  | padding (position : Fin 3)
  deriving DecidableEq

def sizeofUConfig : Nat := 484
def offsetofPlug : Nat := 133
def sizeofPlug : Nat := 58

/-- The cell at a byte offset: arrays of 32, the port aligned to 4, one-byte flags. -/
def Cell.ofOffset (offset : Fin sizeofUConfig) : Cell :=
  have bound : offset.val < 484 := offset.isLt
  if inside : offset.val < 32 then .mqttIp ⟨offset.val, inside⟩
  else if inside : offset.val < 36 then .mqttPort ⟨offset.val - 32, by omega⟩
  else if inside : offset.val < 68 then .mqttUser ⟨offset.val - 36, by omega⟩
  else if inside : offset.val < 100 then .mqttPassword ⟨offset.val - 68, by omega⟩
  else if inside : offset.val < 132 then .mqttDeviceId ⟨offset.val - 100, by omega⟩
  else if offset.val = 132 then .version
  else if inside : offset.val < 481 then
    let x : Plug := ⟨(offset.val - 133) / 58, by omega⟩
    let rest := (offset.val - 133) % 58
    if within : rest < 32 then .name x ⟨rest, within⟩
    else if rest = 32 then .on x
    else .task x ⟨(rest - 33) / 5, by omega⟩ ⟨(rest - 33) % 5, by omega⟩
  else .padding ⟨offset.val - 481, by omega⟩

def UserPlugTaskConfig.byte (task : UserPlugTaskConfig) : Fin 5 → UInt8
  | 0 => task.hour
  | 1 => task.minute
  | 2 => task.repeats
  | 3 => task.action
  | 4 => task.on

def UserPlugTaskConfig.setByte (task : UserPlugTaskConfig) (byte : UInt8) : Fin 5 → UserPlugTaskConfig
  | 0 => { task with hour := byte }
  | 1 => { task with minute := byte }
  | 2 => { task with repeats := byte }
  | 3 => { task with action := byte }
  | 4 => { task with on := byte }

def Cell.get (config : UConfig) : Cell → UInt8
  | .mqttIp position => config.mqttIp position
  | .mqttPort position => intByte config.mqttPort position
  | .mqttUser position => config.mqttUser position
  | .mqttPassword position => config.mqttPassword position
  | .mqttDeviceId position => config.mqttDeviceId position
  | .version => config.version
  | .name x position => (config.plug x).name position
  | .on x => (config.plug x).on
  | .task x y member => ((config.plug x).task y).byte member
  | .padding position => config.padding position

def Cell.set (config : UConfig) (byte : UInt8) : Cell → UConfig
  | .mqttIp position => { config with mqttIp := Function.update config.mqttIp position byte }
  | .mqttPort position => { config with mqttPort := setIntByte config.mqttPort position byte }
  | .mqttUser position => { config with mqttUser := Function.update config.mqttUser position byte }
  | .mqttPassword position => { config with mqttPassword := Function.update config.mqttPassword position byte }
  | .mqttDeviceId position => { config with mqttDeviceId := Function.update config.mqttDeviceId position byte }
  | .version => { config with version := byte }
  | .name x position => config.setPlug x
      { config.plug x with name := Function.update (config.plug x).name position byte }
  | .on x => config.setPlug x { config.plug x with on := byte }
  | .task x y member => config.setPlug x
      { config.plug x with
        task := Function.update (config.plug x).task y (((config.plug x).task y).setByte byte member) }
  | .padding position => { config with padding := Function.update config.padding position byte }

def UConfig.store (config : UConfig) (offset : Nat) : List UInt8 → Exec UConfig
  | [] => .ok config
  | byte :: bytes =>
    if inside : offset < sizeofUConfig then
      UConfig.store ((Cell.ofOffset ⟨offset, inside⟩).set config byte) (offset + 1) bytes
    else .error .outOfBounds

/-- A C string read from memory that ends where the list does. -/
def readCStr (bytes : List UInt8) : Exec CStr :=
  if 0 ∈ bytes then .ok (.upToNul bytes) else .error .outOfBounds

def UConfig.bytes (config : UConfig) : List UInt8 :=
  List.ofFn fun offset => (Cell.ofOffset offset).get config

inductive TextField where
  | mqttIp
  | mqttUser
  | mqttPassword
  | plugName (x : Plug)
  deriving DecidableEq

namespace TextField

def offset : TextField → Nat
  | .mqttIp => 0
  | .mqttUser => 36
  | .mqttPassword => 68
  | .plugName x => offsetofPlug + sizeofPlug * x.val

def array (config : UConfig) : TextField → Setting
  | .mqttIp => config.mqttIp
  | .mqttUser => config.mqttUser
  | .mqttPassword => config.mqttPassword
  | .plugName x => (config.plug x).name

def setArray (config : UConfig) (value : Setting) : TextField → UConfig
  | .mqttIp => { config with mqttIp := value }
  | .mqttUser => { config with mqttUser := value }
  | .mqttPassword => { config with mqttPassword := value }
  | .plugName x => config.setPlug x { config.plug x with name := value }

/-- `sprintf(u_config.field, format)` with no further argument. -/
def sprintf (field : TextField) (format : CStr) (config : UConfig) : Exec UConfig :=
  match CText.sprintf format with
  | none => .error .badConversion
  | some text => config.store field.offset (text.bytes ++ [0])

def read (field : TextField) (config : UConfig) : Exec CStr :=
  readCStr (config.bytes.drop field.offset)

end TextField

end PhicommTC1
