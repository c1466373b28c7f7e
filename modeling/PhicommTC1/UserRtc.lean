import PhicommTC1.UserGpio

/-! The clock and the scheduler thread. -/

namespace PhicommTC1

structure Tm where
  tmSec : Nat
  tmMin : Nat
  tmHour : Nat
  tmWday : Nat
  deriving DecidableEq

/-- `gmtime`: broken-down UTC, the week counted from Sunday. Day 0 of the epoch was a Thursday. -/
def gmtime (t : Int) : Tm where
  tmSec := (t % 60).toNat
  tmMin := (t / 60 % 60).toNat
  tmHour := (t / 3600 % 24).toNat
  tmWday := ((t / 86400 + 4) % 7).toNat

/-- `1 << count` on the target: the shift looks at the low byte of its count, and a count of
32 or more leaves nothing. On a Sunday the count is -1. -/
def shiftOne (count : Int) : Nat :=
  let amount := (count % 256).toNat
  if amount < 32 then 2 ^ amount else 0

def UserPlugTaskConfig.due (task : UserPlugTaskConfig) (tm : Tm) : Bool :=
  task.on != 0 && (tm.tmSec == 0 && tm.tmMin == task.minute.toNat && tm.tmHour == task.hour.toNat &&
    (task.repeats == 0 || task.repeats.toNat &&& shiftOne ((tm.tmWday : Int) - 1) != 0))

/-- The marker -1 of `task_flag`, stored in an unsigned `char`. -/
def noTask : UInt8 := 255

/-- The initialiser lists five markers, so the last one is zero. -/
def initialTaskFlag (i : Plug) : UInt8 := if i.val < 5 then noTask else 0

/-- What a scan pass works on. `relaySet` lists its calls of `user_relay_set`, newest last. -/
structure Scan where
  state : State
  taskFlag : Plug → UInt8
  updateUserConfigFlag : Bool
  relaySet : List (Plug × UInt8)

def Scan.start (state : State) (taskFlag : Plug → UInt8) : Scan := ⟨state, taskFlag, false, []⟩

def Scan.switchTo (scan : Scan) (i : Plug) (action : UInt8) : Scan :=
  if (scan.state.uConfig.plug i).on != action then
    { scan with
      state := userRelaySet i.val action scan.state
      updateUserConfigFlag := true
      relaySet := scan.relaySet ++ [(i, action)] }
  else scan

def UserPlugTaskConfig.disarmed (task : UserPlugTaskConfig) : UserPlugTaskConfig := { task with on := 0 }

def Scan.expire (scan : Scan) (i : Plug) (j : Slot) : Scan :=
  let plug := scan.state.uConfig.plug i
  { scan with
    state := { scan.state with
      uConfig := scan.state.uConfig.setPlug i
        { plug with task := Function.update plug.task j (plug.task j).disarmed } }
    taskFlag := Function.update scan.taskFlag i (UInt8.ofNat j.val)
    updateUserConfigFlag := true }

def Scan.visit (tm : Tm) (i : Plug) (scan : Scan) (j : Slot) : Scan :=
  let task := (scan.state.uConfig.plug i).task j
  if task.due tm then
    let scan := scan.switchTo i task.action
    if task.repeats == 0 then scan.expire i j else scan
  else scan

def Scan.scanPlug (tm : Tm) (scan : Scan) (i : Plug) : Scan := (List.finRange 5).foldl (Scan.visit tm i) scan

def scanPass (tm : Tm) (scan : Scan) : Scan := (List.finRange 6).foldl (Scan.scanPlug tm) scan

/-- The markers after the report that a flagged pass sends. A `char` is never negative here, so
`task_flag[i] >= 0` holds for every plug and every marker is reset. -/
def Scan.reported (scan : Scan) : Plug → UInt8 := if scan.updateUserConfigFlag then fun _ => noTask else scan.taskFlag

def scanTasks (tm : Tm) (state : State) : State := (scanPass tm (.start state initialTaskFlag)).state

theorem scanTasks_eq (tm : Tm) (state : State) :
    scanTasks tm state = (scanPass tm (.start state initialTaskFlag)).state := rfl

attribute [irreducible] scanTasks

/-- `userTime` is the structure `gmtime` returns a pointer to, which the thread and the tick
handler share. `ntptimeSucceed` is local to the thread. -/
structure Clock where
  rtctimes : Int32
  userTime : Tm
  ntptimeSucceed : Bool

def startTime : Int := 1546272000

def Clock.initial : Clock := ⟨0, gmtime startTime, false⟩

def rtctimeTimeoutHandler (clock : Clock) : Clock :=
  -- `int` arithmetic, taken to wrap around.
  let rtctimes := clock.rtctimes + 1
  { clock with rtctimes := rtctimes, userTime := gmtime (rtctimes + 8 * 3600).toInt }

/-- `update_rtctime`, given what `hfntp_get_time` returns: negative for a failure. -/
def updateRtctime (answer : Int32) (clock : Clock) : Bool × Clock :=
  if answer < 0 then (false, clock) else (true, { clock with rtctimes := answer })

/-- The head of the loop: an attempt in every minute divisible by ten until one succeeds. -/
def syncStep (answer : Int32) (clock : Clock) : Clock :=
  if clock.userTime.tmMin % 10 = 0 then
    if clock.ntptimeSucceed then clock
    else
      let (succeeded, clock) := updateRtctime answer clock
      { clock with ntptimeSucceed := succeeded }
  else { clock with ntptimeSucceed := false }

end PhicommTC1
