import PhicommTC1.UserGpio

/-! The command handler. `udp_flag` reaches no branch and the `update_user_config_flag` of the
handler is only ever cleared, so neither is carried; debug output is left out. -/

namespace PhicommTC1
open CText

def VERSION : CStr := .ofString "v0.9"
def TYPE : Int32 := 1
def TYPE_NAME : CStr := .ofString "zTC1"

def plugDigit (x : Plug) : Fin 10 := x.castLE (by decide)

def plugStr (x : Plug) : CStr := (CStr.ofString "plug_").withDigit (plugDigit x)

def plugTaskStr (y : Slot) : CStr := (CStr.ofString "task_").withDigit (y.castLE (by decide))

def State.name (state : State) : Exec CStr := readCStr (List.ofFn state.deviceid)

/-- `sprintf(deviceid, format)`: the array is an object of its own, so nothing may leave it. -/
def sprintfDeviceid (format : CStr) (state : State) : Exec State :=
  match CText.sprintf format with
  | none => .error .badConversion
  | some text =>
    if text.length < 32 then .ok { state with deviceid := state.deviceid.overwrite 0 (text.bytes ++ [0]) }
    else .error .outOfBounds

def sprintfField (field : TextField) (format : CStr) (state : State) : Exec State := do
  let config ← field.sprintf format state.uConfig
  return { state with uConfig := config }

/-- `if (p && cJSON_IsString(p)) sprintf(..., p->valuestring)`. -/
def storeString (store : CStr → State → Exec State) (p : Option CJson) (state : State) : Exec State :=
  match p.bind CJson.valuestring with
  | some format => store format state
  | none => .ok state

def storeMqttPort (p : Option CJson) (state : State) : State :=
  match p.bind CJson.numberValue with
  | some port => { state with uConfig := { state.uConfig with mqttPort := port } }
  | none => state

def deviceReport (state : State) : Exec CJson := do
  let name ← state.name
  let root ← Members.addString [] (.ofString "name") name
  let root ← root.addString (.ofString "mac") state.strMac
  let root := root.addItem (.ofString "type") (.number TYPE)
  let root ← root.addString (.ofString "type_name") TYPE_NAME
  let root ← root.addString (.ofString "ip") state.strIp
  return .object root

def isDeviceReport (pJsonRoot : CJson) : Bool :=
  (pJsonRoot.getObjectItem (.ofString "cmd")).bind CJson.valuestring == some (.ofString "device report")

/-- The test in front of the command part: a `name` of type string, or this device's mac. -/
def isAccepted (pJsonRoot : CJson) (state : State) : Bool :=
  ((pJsonRoot.getObjectItem (.ofString "name")).bind CJson.valuestring).isSome ||
    (pJsonRoot.getObjectItem (.ofString "mac")).bind CJson.valuestring == some state.strMac

def echoString (key : CStr) (p : Option CJson) (stored : Exec CStr) (send : Members) : Exec Members :=
  match p with
  | some _ => do send.addString key (← stored)
  | none => .ok send

/-- The stores of the `setting` object, in the order of the source. -/
def storeSetting (pSetting : CJson) (state : State) : Exec State := do
  let state ← storeString sprintfDeviceid (pSetting.getObjectItem (.ofString "name")) state
  let state ← storeString (sprintfField .mqttIp) (pSetting.getObjectItem (.ofString "mqtt_uri")) state
  let state := storeMqttPort (pSetting.getObjectItem (.ofString "mqtt_port")) state
  let state ← storeString (sprintfField .mqttUser) (pSetting.getObjectItem (.ofString "mqtt_user")) state
  storeString (sprintfField .mqttPassword) (pSetting.getObjectItem (.ofString "mqtt_password")) state

/-- `ota` is echoed whatever its type. -/
def echoOta (pOta : Option CJson) (send : Members) : Exec Members :=
  match pOta with
  | some pOta => send.addString (.ofString "ota") pOta.valuestring
  | none => .ok send

def echoMqttPort (pMqttPort : Option CJson) (config : UConfig) (send : Members) : Members :=
  match pMqttPort with
  | some _ => send.addItem (.ofString "mqtt_port") (.number config.mqttPort)
  | none => send

def echoSetting (pSetting : CJson) (state : State) : Exec Members := do
  let send ← echoOta (pSetting.getObjectItem (.ofString "ota")) []
  let send ← echoString (.ofString "name") (pSetting.getObjectItem (.ofString "name")) state.name send
  let send ← echoString (.ofString "mqtt_uri") (pSetting.getObjectItem (.ofString "mqtt_uri"))
    (TextField.mqttIp.read state.uConfig) send
  let send := echoMqttPort (pSetting.getObjectItem (.ofString "mqtt_port")) state.uConfig send
  let send ← echoString (.ofString "mqtt_user") (pSetting.getObjectItem (.ofString "mqtt_user"))
    (TextField.mqttUser.read state.uConfig) send
  echoString (.ofString "mqtt_password") (pSetting.getObjectItem (.ofString "mqtt_password"))
    (TextField.mqttPassword.read state.uConfig) send

def settingSection (pSetting : Option CJson) (work : State × Members) : Exec (State × Members) :=
  match pSetting with
  | none => .ok work
  | some pSetting => do
    let state ← storeSetting pSetting work.1
    let settingSend ← echoSetting pSetting state
    return (state, work.2.addItem (.ofString "setting") (.object settingSend))

/-- The five members of a task object, when all are present and numeric. -/
def taskOf (pPlugTask : CJson) : Option UserPlugTaskConfig := do
  let pHour ← pPlugTask.getObjectItem (.ofString "hour")
  let pMinute ← pPlugTask.getObjectItem (.ofString "minute")
  let pRepeat ← pPlugTask.getObjectItem (.ofString "repeat")
  let pAction ← pPlugTask.getObjectItem (.ofString "action")
  let pOn ← pPlugTask.getObjectItem (.ofString "on")
  let hour ← pHour.numberValue
  let minute ← pMinute.numberValue
  let repeats ← pRepeat.numberValue
  let action ← pAction.numberValue
  let on ← pOn.numberValue
  return ⟨toByte hour, toByte minute, toByte repeats, toByte action, toByte on⟩

def UConfig.setTask (config : UConfig) (x : Plug) (y : Slot) (task : UserPlugTaskConfig) : UConfig :=
  config.setPlug x { config.plug x with task := Function.update (config.plug x).task y task }

def echoTask (task : UserPlugTaskConfig) : CJson :=
  .object (((((Members.addByte [] (.ofString "hour") task.hour).addByte (.ofString "minute") task.minute).addByte
    (.ofString "repeat") task.repeats).addByte (.ofString "action") task.action).addByte (.ofString "on") task.on)

def jsonPlugTaskAnalysis (x : Plug) (pJsonRoot : CJson) (work : State × Members) (y : Slot) : State × Members :=
  match pJsonRoot.getObjectItem (plugTaskStr y) with
  | none => work
  | some pPlugTask =>
    let state := match taskOf pPlugTask with
      | some task => { work.1 with uConfig := work.1.uConfig.setTask x y task }
      | none => work.1
    (state, work.2.addItem (plugTaskStr y) (echoTask ((state.uConfig.plug x).task y)))

def jsonPlugSettingAnalysis (x : Plug) (pPlugSetting : CJson) (state : State) : Exec (State × Members) := do
  let pName := pPlugSetting.getObjectItem (.ofString "name")
  let state ← storeString (sprintfField (.plugName x)) pName state
  let send ← echoString (.ofString "name") pName ((TextField.plugName x).read state.uConfig) []
  return (List.finRange 5).foldl (jsonPlugTaskAnalysis x pPlugSetting) (state, send)

def switchPlug (x : Plug) (pPlugOn : Option CJson) (state : State) : State :=
  match pPlugOn.bind CJson.numberValue with
  | some value => userRelaySet x.val (toByte value) state
  | none => state

/-- The body of `if (p_plug)`: the switch first, then the settings of the plug. -/
def jsonPlugObject (x : Plug) (pPlug : Option CJson) (state : State) : Exec (State × Members) :=
  match pPlug with
  | none => .ok (state, [])
  | some pPlug =>
    let state := switchPlug x (pPlug.getObjectItem (.ofString "on")) state
    match pPlug.getObjectItem (.ofString "setting") with
    | none => .ok (state, [])
    | some pPlugSetting => do
      let (state, settingSend) ← jsonPlugSettingAnalysis x pPlugSetting state
      return (state, Members.addItem [] (.ofString "setting") (.object settingSend))

def jsonPlugAnalysis (pJsonRoot : CJson) (work : State × Members) (x : Plug) : Exec (State × Members) := do
  let (state, plugSend) ← jsonPlugObject x (pJsonRoot.getObjectItem (plugStr x)) work.1
  let plugSend := Members.addByte plugSend (.ofString "on") (state.uConfig.plug x).on
  return (state, work.2.addItem (plugStr x) (.object plugSend))

def versionSection (pVersion : Option CJson) (send : Members) : Exec Members :=
  match pVersion with
  | some _ => send.addString (.ofString "version") VERSION
  | none => .ok send

def runCommand (pJsonRoot : CJson) (state : State) : Exec (State × CJson) := do
  let send ← Members.addString [] (.ofString "mac") state.strMac
  let send ← versionSection (pJsonRoot.getObjectItem (.ofString "version")) send
  let work ← settingSection (pJsonRoot.getObjectItem (.ofString "setting")) (state, send)
  let (state, send) ← (List.finRange 6).foldlM (jsonPlugAnalysis pJsonRoot) work
  let send ← send.addString (.ofString "name") (← state.name)
  return (state, .object send)

/-- The report part of the handler, which comes first and asks for no address. -/
def reportSection (pJsonRoot : CJson) (state : State) : Exec (Option CJson) :=
  if isDeviceReport pJsonRoot then some <$> deviceReport state else .ok none

/-- What one call of the handler does: the state it leaves, whether it passed a device report
to `user_send`, and the command reply it passed after that. -/
structure Outcome where
  state : State
  report : Option CJson
  reply : Option CJson

def Outcome.sent (outcome : Outcome) : List CJson := outcome.report.toList ++ outcome.reply.toList

/-- `pJsonRoot` is what `cJSON_Parse` made of the datagram, NULL where it is not JSON. -/
def userFunctionCmdReceived (pJsonRoot : Option CJson) (state : State) : Exec Outcome :=
  match pJsonRoot with
  | none => .ok ⟨state, none, none⟩
  | some pJsonRoot => do
    let report ← reportSection pJsonRoot state
    if isAccepted pJsonRoot state then do
      let (state, reply) ← runCommand pJsonRoot state
      return ⟨state, report, some reply⟩
    else return ⟨state, report, none⟩

end PhicommTC1
