import PhicommTC1.Foundation.Runs

/-! The power meter. Pulses are counted and timed in an interrupt, and a timer of a second turns
them into the published power. -/

namespace PhicommTC1

/-- The static variables of `user_power.c` and the global `power`. -/
structure PowerMeter where
  clockCountLast : UInt32
  clockCount : UInt32
  timerCount : UInt32
  timerIrqCount : UInt32
  power : UInt32
  deriving DecidableEq

inductive PowerFault where
  | divisionByZero

namespace PowerMeter

def initial : PowerMeter := ⟨0, 0, 0, 0, 0⟩

/-- `timer` when it comes to the division. -/
def timer (meter : PowerMeter) : UInt32 :=
  let timer := meter.clockCount - meter.clockCountLast
  if meter.timerCount > 3 then timer / 1000 + 4294967
  else if meter.clockCount < meter.clockCountLast then (timer + 0xffffffff) / 1000
  else timer / 1000

def powerTimerHandler (meter : PowerMeter) : Except PowerFault PowerMeter :=
  if meter.timerIrqCount > 1 then
    if meter.timer = 0 then .error .divisionByZero
    else .ok { meter with
      power := 17100000 * (meter.timerIrqCount - 1) / meter.timer
      timerCount := 0
      timerIrqCount := 0 }
  else .ok { meter with timerCount := meter.timerCount + 1 }

/-- `time` is what `hfsys_get_time()` returns. -/
def powerIrqHandler (time : UInt32) (meter : PowerMeter) : PowerMeter :=
  let clockCount := time * 1000
  { meter with
    clockCount := clockCount
    clockCountLast := if meter.timerIrqCount = 0 then clockCount else meter.clockCountLast
    timerIrqCount := meter.timerIrqCount + 1 }

end PowerMeter

/-- The meter in true time, counted in milliseconds. -/
structure Metering where
  now : Nat
  meter : PowerMeter
  deriving DecidableEq

inductive MeterEvent where
  | elapse (milliseconds : Nat)
  | pulse
  | tick

namespace Metering

def start (now : Nat) : Metering := ⟨now, .initial⟩

/-- `hfsys_get_time()` counts milliseconds in 32 bits. -/
def time (metering : Metering) : UInt32 := UInt32.ofNat metering.now

def step (metering : Metering) : MeterEvent → Except PowerFault Metering
  | .elapse milliseconds => .ok { metering with now := metering.now + milliseconds }
  | .pulse => .ok { metering with meter := metering.meter.powerIrqHandler metering.time }
  | .tick => metering.meter.powerTimerHandler.map fun meter => { metering with meter }

end Metering

end PhicommTC1
