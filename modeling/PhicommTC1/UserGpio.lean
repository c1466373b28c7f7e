import PhicommTC1.AppMain
import PhicommTC1.Foundation.IndexedLoop

/-! The relays, the LED, the button and the default settings. The state is what the
firmware keeps in global variables and drives on its output pins. -/

namespace PhicommTC1
open CText

/-- `relay` and `led` are the levels of the output pins. -/
@[ext] structure State where
  uConfig : UConfig
  userDefaultconfig : UConfig
  deviceid : Setting
  strMac : CStr
  strIp : CStr
  relay : Plug → Bool
  led : Bool

namespace UConfig
variable (config : UConfig) (x : Plug) (value : UserPlugConfig)

@[simp] theorem setPlug_same : (config.setPlug x value).plug x = value := by simp [setPlug]

@[simp] theorem setPlug_other {y : Plug} (different : y ≠ x) : (config.setPlug x value).plug y = config.plug y := by
  simp [setPlug, different]

@[simp] theorem setPlug_mqttIp : (config.setPlug x value).mqttIp = config.mqttIp := rfl
@[simp] theorem setPlug_mqttPort : (config.setPlug x value).mqttPort = config.mqttPort := rfl
@[simp] theorem setPlug_mqttUser : (config.setPlug x value).mqttUser = config.mqttUser := rfl
@[simp] theorem setPlug_mqttPassword : (config.setPlug x value).mqttPassword = config.mqttPassword := rfl

def setOn (y : UInt8) : UConfig := config.setPlug x { config.plug x with on := y }

end UConfig

/-- `char` is unsigned on this target, so the test for -1 never holds. -/
def userLedSet (x : UInt8) (state : State) : State := { state with led := x != 0 }

def relayOut (state : State) : Bool :=
  (List.finRange 6).any fun i => (state.uConfig.plug i).on != 0 || (state.userDefaultconfig.plug i).on != 0

def userRelaySet (x : Nat) (y : UInt8) (state : State) : State :=
  if inside : x < 6 then
    let i : Plug := ⟨x, inside⟩
    let state := { state with relay := Function.update state.relay i (y == 1) }
    let state := { state with
      userDefaultconfig := state.userDefaultconfig.setOn i y
      uConfig := state.uConfig.setOn i y }
    if relayOut state then userLedSet 1 state else userLedSet 0 state
  else state

def userRelaySetAll (y : UInt8) (state : State) : State :=
  (List.finRange 6).foldl (fun state i => userRelaySet i.val y state) state

def keyShortPress (state : State) : State :=
  if relayOut state then userRelaySetAll 0 state else userRelaySetAll 1 state

/-- The default name of a plug, the digit counting from one. -/
def defaultName (i : Plug) : List UInt8 :=
  [0xe6, 0x8f, 0x92, 0xe5, 0x8f, 0xa3, UInt8.ofNat (i.val + 49), 0]

def defaultTask : UserPlugTaskConfig := { hour := 0, minute := 0, repeats := 0, action := 1, on := 0 }

def appRestoreDefault (state : State) : State :=
  let config := state.uConfig
  let restored : UConfig := { config with
    mqttIp := config.mqttIp.overwrite 0 [0]
    mqttPort := 0
    mqttUser := config.mqttUser.overwrite 0 [0]
    mqttPassword := config.mqttPassword.overwrite 0 [0]
    version := userConfigVersion
    plug := fun i =>
      { name := (config.plug i).name.overwrite 0 (defaultName i), on := 0, task := fun _ => defaultTask } }
  { state with
    deviceid := state.deviceid.overwrite 0 ((CStr.ofString "TC1").bytes ++ [0])
    uConfig := restored
    userDefaultconfig := restored }

/-- The state at reset: static storage is zero, the relay pins are low. -/
def reset (strMac strIp : CStr) : State :=
  ⟨.zero, .zero, fun _ => 0, strMac, strIp, fun _ => false, false⟩

section RelaySet
variable (i : Plug) (y : UInt8) (state : State)

private theorem relaySet_cases : ∃ led, userRelaySet i.val y state =
    { state with
      relay := Function.update state.relay i (y == 1)
      userDefaultconfig := state.userDefaultconfig.setOn i y
      uConfig := state.uConfig.setOn i y
      led := led } := by
  simp only [userRelaySet, i.isLt, dite_true, userLedSet]
  split <;> exact ⟨_, rfl⟩

@[simp] theorem userRelaySet_relay : (userRelaySet i.val y state).relay = Function.update state.relay i (y == 1) := by
  obtain ⟨led, same⟩ := relaySet_cases i y state
  rw [same]

@[simp] theorem userRelaySet_uConfig : (userRelaySet i.val y state).uConfig = state.uConfig.setOn i y := by
  obtain ⟨led, same⟩ := relaySet_cases i y state
  rw [same]

@[simp] theorem userRelaySet_default :
    (userRelaySet i.val y state).userDefaultconfig = state.userDefaultconfig.setOn i y := by
  obtain ⟨led, same⟩ := relaySet_cases i y state
  rw [same]

@[simp] theorem userRelaySet_deviceid : (userRelaySet i.val y state).deviceid = state.deviceid := by
  obtain ⟨led, same⟩ := relaySet_cases i y state
  rw [same]

@[simp] theorem userRelaySet_strMac : (userRelaySet i.val y state).strMac = state.strMac := by
  obtain ⟨led, same⟩ := relaySet_cases i y state
  rw [same]

@[simp] theorem userRelaySet_strIp : (userRelaySet i.val y state).strIp = state.strIp := by
  obtain ⟨led, same⟩ := relaySet_cases i y state
  rw [same]

theorem userRelaySet_led : (userRelaySet i.val y state).led = relayOut (userRelaySet i.val y state) := by
  simp only [userRelaySet, i.isLt, dite_true, userLedSet]
  split
  next on => exact on.symm
  next off => simpa [relayOut] using off

end RelaySet

/-- What the relay commands touch of one plug: the record, its second copy and the pin. -/
@[ext] structure Switch where
  record : UInt8
  copy : UInt8
  pin : Bool

def State.switch (i : Plug) (state : State) : Switch :=
  ⟨(state.uConfig.plug i).on, (state.userDefaultconfig.plug i).on, state.relay i⟩

/-- The switch position `user_relay_set` leaves. -/
def Switch.driven (y : UInt8) : Switch := ⟨y, y, y == 1⟩

theorem userRelaySet_switch (i : Plug) (y : UInt8) (state : State) :
    (userRelaySet i.val y state).switch i = .driven y := by
  simp [State.switch, Switch.driven, UConfig.setOn]

theorem userRelaySet_switch_other {i j : Plug} (different : j ≠ i) (y : UInt8) (state : State) :
    (userRelaySet i.val y state).switch j = state.switch j := by
  simp [State.switch, UConfig.setOn, different]

theorem userRelaySetAll_switch (y : UInt8) (state : State) (i : Plug) :
    (userRelaySetAll y state).switch i = .driven y :=
  IndexedLoop.foldl_view State.switch (fun _ _ => .driven y)
    (fun state i => userRelaySet_switch i y state)
    (fun state _ _ different => userRelaySet_switch_other different y state)
    (List.nodup_finRange 6) (List.mem_finRange i)

theorem relayOut_iff (state : State) :
    relayOut state = true ↔ ∃ i, (state.switch i).record ≠ 0 ∨ (state.switch i).copy ≠ 0 := by
  simp [relayOut, State.switch]

end PhicommTC1
