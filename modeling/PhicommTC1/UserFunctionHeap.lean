import PhicommTC1.CJsonHeapText
import PhicommTC1.UserFunction

/-! The command handler as it uses memory: it finds its way through the message where cJSON put it, builds its
answers next to it and gives everything back. What it sends is the printed text. -/

namespace PhicommTC1.OnHeap
open CText Separation

/-- `p && cJSON_IsString(p)`, and the string. -/
def stringAt : Pointer → OnHeap (Option CStr)
  | none => return none
  | some p => do
    let item ← loadItem p
    if item.kind = .string then some <$> loadText item.valuestring else return none

def numberAt : Pointer → OnHeap (Option Int32)
  | none => return none
  | some p => do
    let item ← loadItem p
    return if item.kind = .number then some item.valueint else none

/-- `p->valuestring`, whatever the type. -/
def valuestringAt (p : Nat) : OnHeap (Option CStr) := do
  let item ← loadItem p
  match item.valuestring with
  | some string => some <$> loadText (some string)
  | none => return none

variable (fuel : Nat)

def addString (object : Nat) (name : CStr) (s : Option CStr) : OnHeap Unit :=
  match s with
  | some s => cJSONAddStringToObject fuel object name s
  | none => fault (.undefined .nullString)

def addByte (object : Nat) (name : CStr) (byte : UInt8) : OnHeap Unit :=
  cJSONAddNumberToObject fuel object name (Int32.ofNat byte.toNat)

/-- The text of a printed object that goes to `user_send`, and the object deleted. The message `user_send` allocates
for it and the queue it creates are not part of this memory. -/
def sendJson (json : Nat) : OnHeap CStr := do
  let s ← cJSONPrint fuel json
  let text ← loadText (some s)
  free .badAddress s
  cJSONDelete fuel (some json)
  return text

def deviceReport (state : State) : OnHeap CStr := do
  let pRoot ← cJSONCreate .object
  let name ← lift state.name
  addString fuel pRoot (.ofString "name") name
  addString fuel pRoot (.ofString "mac") state.strMac
  cJSONAddNumberToObject fuel pRoot (.ofString "type") TYPE
  addString fuel pRoot (.ofString "type_name") TYPE_NAME
  addString fuel pRoot (.ofString "ip") state.strIp
  sendJson fuel pRoot

def reportSection (pJsonRoot : Nat) (state : State) : OnHeap (List CStr) := do
  let pCmd ← cJSONGetObjectItem fuel pJsonRoot (.ofString "cmd")
  let cmd ← stringAt pCmd
  if cmd == some (.ofString "device report") then return [← deviceReport fuel state] else return []

def storeString (store : CStr → State → Exec State) (p : Pointer) (state : State) : OnHeap State := do
  match ← stringAt p with
  | some format => lift (store format state)
  | none => return state

def storeMqttPort (p : Pointer) (state : State) : OnHeap State := do
  match ← numberAt p with
  | some port => return { state with uConfig := { state.uConfig with mqttPort := port } }
  | none => return state

def echoString (object : Nat) (name : CStr) (p : Pointer) (stored : Exec CStr) : OnHeap Unit :=
  match p with
  | some _ => do
    let text ← lift stored
    addString fuel object name text
  | none => pure ()

def echoOta (object : Nat) (pOta : Pointer) : OnHeap Unit :=
  match pOta with
  | some pOta => do
    let text ← valuestringAt pOta
    addString fuel object (.ofString "ota") text
  | none => pure ()

def echoMqttPort (object : Nat) (pMqttPort : Pointer) (config : UConfig) : OnHeap Unit :=
  match pMqttPort with
  | some _ => cJSONAddNumberToObject fuel object (.ofString "mqtt_port") config.mqttPort
  | none => pure ()

def settingSection (pJsonRoot jsonSend : Nat) (state : State) : OnHeap State := do
  match ← cJSONGetObjectItem fuel pJsonRoot (.ofString "setting") with
  | none => return state
  | some pSetting => do
    let pOta ← cJSONGetObjectItem fuel pSetting (.ofString "ota")
    let jsonSettingSend ← cJSONCreate .object
    let pName ← cJSONGetObjectItem fuel pSetting (.ofString "name")
    let state ← storeString sprintfDeviceid pName state
    let pMqttIp ← cJSONGetObjectItem fuel pSetting (.ofString "mqtt_uri")
    let state ← storeString (sprintfField .mqttIp) pMqttIp state
    let pMqttPort ← cJSONGetObjectItem fuel pSetting (.ofString "mqtt_port")
    let state ← storeMqttPort pMqttPort state
    let pMqttUser ← cJSONGetObjectItem fuel pSetting (.ofString "mqtt_user")
    let state ← storeString (sprintfField .mqttUser) pMqttUser state
    let pMqttPassword ← cJSONGetObjectItem fuel pSetting (.ofString "mqtt_password")
    let state ← storeString (sprintfField .mqttPassword) pMqttPassword state
    echoOta fuel jsonSettingSend pOta
    echoString fuel jsonSettingSend (.ofString "name") pName state.name
    echoString fuel jsonSettingSend (.ofString "mqtt_uri") pMqttIp (TextField.mqttIp.read state.uConfig)
    echoMqttPort fuel jsonSettingSend pMqttPort state.uConfig
    echoString fuel jsonSettingSend (.ofString "mqtt_user") pMqttUser (TextField.mqttUser.read state.uConfig)
    echoString fuel jsonSettingSend (.ofString "mqtt_password") pMqttPassword (TextField.mqttPassword.read state.uConfig)
    cJSONAddItemToObject fuel jsonSend (.ofString "setting") jsonSettingSend
    return state

/-- The five members of a task object, when all are numbers. -/
def taskAt (pPlugTask : Nat) : OnHeap (Option UserPlugTaskConfig) := do
  let pHour ← cJSONGetObjectItem fuel pPlugTask (.ofString "hour")
  let pMinute ← cJSONGetObjectItem fuel pPlugTask (.ofString "minute")
  let pRepeat ← cJSONGetObjectItem fuel pPlugTask (.ofString "repeat")
  let pAction ← cJSONGetObjectItem fuel pPlugTask (.ofString "action")
  let pOn ← cJSONGetObjectItem fuel pPlugTask (.ofString "on")
  match ← numberAt pHour, ← numberAt pMinute, ← numberAt pRepeat, ← numberAt pAction, ← numberAt pOn with
  | some hour, some minute, some repeats, some action, some on =>
    return some ⟨toByte hour, toByte minute, toByte repeats, toByte action, toByte on⟩
  | _, _, _, _, _ => return none

def storeTask (x : Plug) (y : Slot) (task : Option UserPlugTaskConfig) (state : State) : State :=
  match task with
  | some task => { state with uConfig := state.uConfig.setTask x y task }
  | none => state

def jsonPlugTaskAnalysis (x : Plug) (pJsonRoot pJsonSend : Nat) (state : State) (y : Slot) : OnHeap State := do
  match ← cJSONGetObjectItem fuel pJsonRoot (plugTaskStr y) with
  | none => return state
  | some pPlugTask => do
    let jsonPlugTaskSend ← cJSONCreate .object
    let task ← taskAt fuel pPlugTask
    let state := storeTask x y task state
    let stored := (state.uConfig.plug x).task y
    addByte fuel jsonPlugTaskSend (.ofString "hour") stored.hour
    addByte fuel jsonPlugTaskSend (.ofString "minute") stored.minute
    addByte fuel jsonPlugTaskSend (.ofString "repeat") stored.repeats
    addByte fuel jsonPlugTaskSend (.ofString "action") stored.action
    addByte fuel jsonPlugTaskSend (.ofString "on") stored.on
    cJSONAddItemToObject fuel pJsonSend (plugTaskStr y) jsonPlugTaskSend
    return state

def switchPlug (x : Plug) (pPlugOn : Pointer) (state : State) : OnHeap State := do
  match ← numberAt pPlugOn with
  | some value => return userRelaySet x.val (toByte value) state
  | none => return state

/-- The body of `if (p_plug_setting)`. -/
def jsonPlugSettingAnalysis (x : Plug) (pPlugSetting jsonPlugSend : Nat) (state : State) : OnHeap State := do
  let jsonPlugSettingSend ← cJSONCreate .object
  let pName ← cJSONGetObjectItem fuel pPlugSetting (.ofString "name")
  let state ← storeString (sprintfField (.plugName x)) pName state
  echoString fuel jsonPlugSettingSend (.ofString "name") pName ((TextField.plugName x).read state.uConfig)
  let state ← (List.finRange 5).foldlM (jsonPlugTaskAnalysis fuel x pPlugSetting jsonPlugSettingSend) state
  cJSONAddItemToObject fuel jsonPlugSend (.ofString "setting") jsonPlugSettingSend
  return state

/-- The body of `if (p_plug)`. -/
def jsonPlugObject (x : Plug) (pPlug : Pointer) (jsonPlugSend : Nat) (state : State) : OnHeap State :=
  match pPlug with
  | none => return state
  | some pPlug => do
    let pPlugOn ← cJSONGetObjectItem fuel pPlug (.ofString "on")
    let state ← switchPlug x pPlugOn state
    match ← cJSONGetObjectItem fuel pPlug (.ofString "setting") with
    | none => return state
    | some pPlugSetting => jsonPlugSettingAnalysis fuel x pPlugSetting jsonPlugSend state

def jsonPlugAnalysis (pJsonRoot pJsonSend : Nat) (state : State) (x : Plug) : OnHeap State := do
  let pPlug ← cJSONGetObjectItem fuel pJsonRoot (plugStr x)
  let jsonPlugSend ← cJSONCreate .object
  let state ← jsonPlugObject fuel x pPlug jsonPlugSend state
  addByte fuel jsonPlugSend (.ofString "on") (state.uConfig.plug x).on
  cJSONAddItemToObject fuel pJsonSend (plugStr x) jsonPlugSend
  return state

def versionSection (jsonSend : Nat) (pVersion : Pointer) : OnHeap Unit :=
  match pVersion with
  | some _ => addString fuel jsonSend (.ofString "version") VERSION
  | none => pure ()

def runCommand (pJsonRoot : Nat) (state : State) : OnHeap (State × CStr) := do
  let jsonSend ← cJSONCreate .object
  addString fuel jsonSend (.ofString "mac") state.strMac
  let pVersion ← cJSONGetObjectItem fuel pJsonRoot (.ofString "version")
  versionSection fuel jsonSend pVersion
  let state ← settingSection fuel pJsonRoot jsonSend state
  let state ← (List.finRange 6).foldlM (jsonPlugAnalysis fuel pJsonRoot jsonSend) state
  let name ← lift state.name
  addString fuel jsonSend (.ofString "name") name
  let text ← sendJson fuel jsonSend
  return (state, text)

def isAccepted (pJsonRoot : Nat) (state : State) : OnHeap Bool := do
  let pName ← cJSONGetObjectItem fuel pJsonRoot (.ofString "name")
  let pMac ← cJSONGetObjectItem fuel pJsonRoot (.ofString "mac")
  let name ← stringAt pName
  let mac ← stringAt pMac
  return name.isSome || mac == some state.strMac

def commandSection (pJsonRoot : Nat) (state : State) : OnHeap (State × List CStr) := do
  if ← isAccepted fuel pJsonRoot state then do
    let (state, reply) ← runCommand fuel pJsonRoot state
    return (state, [reply])
  else return (state, [])

variable (convert : Numeral → Int32)

/-- The state the handler leaves and the texts it passed to `user_send`. -/
def userFunctionCmdReceived (pusrdata : CStr) (state : State) : OnHeap (State × List CStr) := do
  match ← cJSONParse convert fuel pusrdata with
  | none => return (state, [])
  | some pJsonRoot => do
    let report ← reportSection fuel pJsonRoot state
    let (state, reply) ← commandSection fuel pJsonRoot state
    cJSONDelete fuel (some pJsonRoot)
    return (state, report ++ reply)

end PhicommTC1.OnHeap
