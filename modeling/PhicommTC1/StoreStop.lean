import PhicommTC1.UserFunction

/-! The handler with its stores into `u_config` left open. With `sprintfField` in their place it is the
handler again; with one that stops it shows what a string is stored over and what the store leaves. -/

namespace PhicommTC1.StoreStop
open CText

section Open
variable {m : Type → Type} [Monad m] (lift : {α : Type} → Exec α → m α)
  (sprintfTo : TextField → CStr → State → m State)

def storeText (field : TextField) (p : Option CJson) (state : State) : m State :=
  match p.bind CJson.valuestring with
  | some format => sprintfTo field format state
  | none => pure state

def storeSetting (pSetting : CJson) (state : State) : m State := do
  let state ← lift (storeString sprintfDeviceid (pSetting.getObjectItem (.ofString "name")) state)
  let state ← storeText sprintfTo .mqttIp (pSetting.getObjectItem (.ofString "mqtt_uri")) state
  let state := storeMqttPort (pSetting.getObjectItem (.ofString "mqtt_port")) state
  let state ← storeText sprintfTo .mqttUser (pSetting.getObjectItem (.ofString "mqtt_user")) state
  storeText sprintfTo .mqttPassword (pSetting.getObjectItem (.ofString "mqtt_password")) state

def settingSection (pSetting : Option CJson) (work : State × Members) : m (State × Members) :=
  match pSetting with
  | none => pure work
  | some pSetting => do
    let state ← storeSetting lift sprintfTo pSetting work.1
    let settingSend ← lift (echoSetting pSetting state)
    return (state, work.2.addItem (.ofString "setting") (.object settingSend))

def jsonPlugSettingAnalysis (x : Plug) (pPlugSetting : CJson) (state : State) : m (State × Members) := do
  let pName := pPlugSetting.getObjectItem (.ofString "name")
  let state ← storeText sprintfTo (.plugName x) pName state
  let send ← lift (echoString (.ofString "name") pName ((TextField.plugName x).read state.uConfig) [])
  return (List.finRange 5).foldl (jsonPlugTaskAnalysis x pPlugSetting) (state, send)

def jsonPlugObject (x : Plug) (pPlug : Option CJson) (state : State) : m (State × Members) :=
  match pPlug with
  | none => pure (state, [])
  | some pPlug =>
    let state := switchPlug x (pPlug.getObjectItem (.ofString "on")) state
    match pPlug.getObjectItem (.ofString "setting") with
    | none => pure (state, [])
    | some pPlugSetting => do
      let (state, settingSend) ← jsonPlugSettingAnalysis lift sprintfTo x pPlugSetting state
      return (state, Members.addItem [] (.ofString "setting") (.object settingSend))

def jsonPlugAnalysis (pJsonRoot : CJson) (work : State × Members) (x : Plug) : m (State × Members) := do
  let (state, plugSend) ← jsonPlugObject lift sprintfTo x (pJsonRoot.getObjectItem (plugStr x)) work.1
  let plugSend := Members.addByte plugSend (.ofString "on") (state.uConfig.plug x).on
  return (state, work.2.addItem (plugStr x) (.object plugSend))

def runCommand (pJsonRoot : CJson) (state : State) : m (State × CJson) := do
  let send ← lift (Members.addString [] (.ofString "mac") state.strMac)
  let send ← lift (versionSection (pJsonRoot.getObjectItem (.ofString "version")) send)
  let work ← settingSection lift sprintfTo (pJsonRoot.getObjectItem (.ofString "setting")) (state, send)
  let (state, send) ← (List.finRange 6).foldlM (jsonPlugAnalysis lift sprintfTo pJsonRoot) work
  let name ← lift state.name
  let send ← lift (send.addString (.ofString "name") name)
  return (state, .object send)

def userFunctionCmdReceived (pJsonRoot : Option CJson) (state : State) : m Outcome :=
  match pJsonRoot with
  | none => pure ⟨state, none, none⟩
  | some pJsonRoot => do
    let report ← lift (reportSection pJsonRoot state)
    if isAccepted pJsonRoot state then do
      let (state, reply) ← runCommand lift sprintfTo pJsonRoot state
      return ⟨state, report, some reply⟩
    else return ⟨state, report, none⟩

end Open

/-- With the store of the source it is the handler. -/
theorem handler_eq (pJsonRoot : Option CJson) (state : State) :
    userFunctionCmdReceived (fun ran => ran) sprintfField pJsonRoot state =
      PhicommTC1.userFunctionCmdReceived pJsonRoot state := rfl

/-- Why a watched run ends early: a fault, or the store it watches for. -/
inductive Halt where
  | fault (fault : Fault)
  | store (before : State) (after : Exec State)

/-- Stores as the handler does, but ends the run at the store into a given field. -/
def stopAt (field other : TextField) (format : CStr) (state : State) : Except Halt State :=
  if other = field then .error (.store state (sprintfField other format state))
  else (sprintfField other format state).mapError .fault

/-- The handler comes to a store into the field: the state it is in and what the store makes of it. -/
def ComesToStore (field : TextField) (root : CJson) (state before : State) (after : Exec State) : Prop :=
  userFunctionCmdReceived (fun ran => ran.mapError .fault) (stopAt field) (some root) state =
    .error (.store before after)

end PhicommTC1.StoreStop
