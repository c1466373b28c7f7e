import PhicommTC1.Device

/-! The firmware with its clock. The tick interrupt and the scheduler thread share the broken-down
time; the thread alternates between its sync step and a scan pass, and anything may come between. -/

namespace PhicommTC1
open CText

/-- `scanning` tells whether the thread is between its sync step and its scan pass. -/
structure System where
  device : State
  clock : Clock
  taskFlag : Plug → UInt8
  scanning : Bool

/-- `answer` is what `hfntp_get_time` returns if this step of the thread asks for the time. -/
inductive SystemEvent where
  | tick
  | thread (answer : Int32)
  | command (pJsonRoot : Option CJson)
  | switchPage (url : CStr)
  | keyPress

namespace System

def boot (strMac strIp : CStr) : System := ⟨PhicommTC1.boot strMac strIp, .initial, initialTaskFlag, false⟩

def pass (system : System) : Scan := scanPass system.clock.userTime (.start system.device system.taskFlag)

/-- The next step of `rtc_thread_func`. -/
def thread (answer : Int32) (system : System) : System :=
  if system.scanning then
    { system with device := system.pass.state, taskFlag := system.pass.reported, scanning := false }
  else { system with clock := syncStep answer system.clock, scanning := true }

def input (event : Event) (system : System) : Exec System := do
  let device ← PhicommTC1.step system.device event
  return { system with device := device }

def step (system : System) : SystemEvent → Exec System
  | .tick => .ok { system with clock := rtctimeTimeoutHandler system.clock }
  | .thread answer => .ok (system.thread answer)
  | .command pJsonRoot => system.input (.command pJsonRoot)
  | .switchPage url => system.input (.switchPage url)
  | .keyPress => system.input .keyPress

abbrev record (system : System) (i : Plug) : UInt8 := (system.device.uConfig.plug i).on

abbrev task (system : System) (i : Plug) (j : Slot) : UserPlugTaskConfig := (system.device.uConfig.plug i).task j

end System

/-- What an event is to the firmware without its clock, if it is anything. -/
def SystemEvent.event (system : System) : SystemEvent → Option Event
  | .tick => none
  | .thread _ => if system.scanning then some (.scan system.clock.userTime) else none
  | .command pJsonRoot => some (.command pJsonRoot)
  | .switchPage url => some (.switchPage url)
  | .keyPress => some .keyPress

def SystemEvent.Fits : SystemEvent → Prop
  | .command (some root) => Request.Fits root
  | _ => True

end PhicommTC1
