import PhicommTC1.Device

/-! The button. A timer of 50 ms counts how long KEY is held low and shows the stages of a long hold
on the LED; an interrupt on either edge of KEY judges the count and starts it again. -/

namespace PhicommTC1
open CText

/-- `high` is the level of KEY. `shortPresses` and `smtlkStarts` count the calls of
`key_short_press` and of `hfsmtlk_start`, which is taken to return. -/
structure Button where
  state : State
  keyTime : UInt8
  high : Bool
  shortPresses : Nat
  smtlkStarts : Nat

/-- Anything but a press of the button, which comes through the edges of KEY. -/
inductive ButtonEvent where
  | device (event : Event) (notKey : event ≠ .keyPress)
  | edge
  | tick

/-- `{"cmd":"device report"}` -/
def deviceReportCommand : CJson := .object [(.ofString "cmd", .string (.ofString "device report"))]

namespace Button

def start (state : State) (high : Bool) : Button := ⟨state, 0, high, 0, 0⟩

/-- What a hold does when `key_time` has just been counted up; the other values only print. -/
def holdFeedback (keyTime : UInt8) (button : Button) : Exec Button :=
  if keyTime = 180 then do
    let outcome ← userFunctionCmdReceived (some deviceReportCommand) button.state
    return { button with state := userLedSet 0 outcome.state }
  else if keyTime = 190 then .ok { button with state := userLedSet 1 button.state }
  else if keyTime = 203 then do
    let outcome ← userFunctionCmdReceived (some deviceReportCommand) (userLedSet 0 button.state)
    return { button with state := outcome.state, smtlkStarts := button.smtlkStarts + 1 }
  else .ok button

def keyTimeoutHandler (button : Button) : Exec Button :=
  if button.high then
    .ok { button with state := if relayOut button.state then button.state else userLedSet 0 button.state }
  else do
    let keyTime := button.keyTime + 1
    let button ← holdFeedback keyTime button
    return { button with keyTime := if keyTime > 204 then 189 else keyTime }

def keyRisingIrqHandler (button : Button) : Button :=
  let button :=
    if button.keyTime < 2 then button
    else if button.keyTime < 20 then
      if button.high then
        { button with state := keyShortPress button.state, shortPresses := button.shortPresses + 1 }
      else button
    else button
  { button with keyTime := 0 }

/-- An edge turns KEY over before its interrupt is served. -/
def step (button : Button) : ButtonEvent → Exec Button
  | .device event _ => do
    let state ← PhicommTC1.step button.state event
    return { button with state := state }
  | .edge => .ok (keyRisingIrqHandler { button with high := !button.high })
  | .tick => keyTimeoutHandler button

end Button

end PhicommTC1
