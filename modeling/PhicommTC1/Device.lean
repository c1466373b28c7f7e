import PhicommTC1.Foundation.Runs
import PhicommTC1.Httpd
import PhicommTC1.Registers
import PhicommTC1.UserRtc

/-! The firmware as one machine. Commands, page requests, button presses and scan passes are
atomic and come in any order; a pass may see any time. A step without a defined result ends the run. -/

namespace PhicommTC1
open CText

inductive Event where
  | command (pJsonRoot : Option CJson)
  | switchPage (url : CStr)
  | keyPress
  | scan (tm : Tm)

def step (state : State) : Event → Exec State
  | .command pJsonRoot => do
    let outcome ← userFunctionCmdReceived pJsonRoot state
    return outcome.state
  | .switchPage url => do
    let (state, _) ← switchCbk url state
    return state
  | .keyPress => .ok (keyShortPress state)
  | .scan tm => .ok (scanTasks tm state)

/-- The state after `appRestoreDefault` ran on static storage. -/
def boot (strMac strIp : CStr) : State := appRestoreDefault (reset strMac strIp)

def exampleMac : CStr := .ofString "d0bae4646f01"

def exampleBoot : State := boot exampleMac (.ofString "192.168.1.20")

/-- `{"mac": …, "plug_0": {"setting": {"task_0": …}}}` -/
def exampleTask (task : UserPlugTaskConfig) : CJson :=
  let number (byte : UInt8) : CJson := .number (Int32.ofNat byte.toNat)
  .object [(.ofString "mac", .string exampleMac), (.ofString "plug_0", .object [(.ofString "setting",
    .object [(.ofString "task_0", .object [(.ofString "hour", number task.hour),
      (.ofString "minute", number task.minute), (.ofString "repeat", number task.repeats),
      (.ofString "action", number task.action), (.ofString "on", number task.on)])])])]

/-- `{"mac": …, "plug_0": {"setting": {"name": …}}}` -/
def exampleName (name : CStr) : CJson :=
  .object [(.ofString "mac", .string exampleMac), (.ofString "plug_0", .object [(.ofString "setting",
    .object [(.ofString "name", .string name)])])]

/-- The request an event puts to the settings, if it puts one: a command for this device or a page. -/
def Event.request (state : State) : Event → Option CJson
  | .command pJsonRoot => pJsonRoot.filter (isAccepted · state)
  | .switchPage url => (httpdArgFind url).map switchRoot
  | _ => none

def Event.sets (state : State) (i : Plug) : Event → Option UInt8
  | .keyPress => some (if relayOut state then 0 else 1)
  | event => (event.request state).bind (Request.on · i)

def Event.Fits : Event → Prop
  | .command (some root) => Request.Fits root
  | _ => True

end PhicommTC1
