import PhicommTC1.UserFunction

/-! The `/switch` and `/status` pages. The buffers of the first are locals, so a request that is refused
leaves nothing behind. -/

namespace PhicommTC1
open CText

def zero : CStr := .ofString "0"
def one : CStr := .ofString "1"

def slotText (k : Plug) (value : CStr) : CStr :=
  (CStr.ofString "slot").withDigit (plugDigit k) ++ CStr.ofString "=" ++ value

/-- One of the six blocks of `httpd_arg_find`: zero is looked for first, anywhere in the URL. -/
def argSlot (url : CStr) (k : Plug) : Option CStr :=
  if strstr (slotText k zero).bytes url.bytes then some zero
  else if strstr (slotText k one).bytes url.bytes then some one
  else none

/-- The six outputs of `httpd_arg_find` when it returns 0, nothing when it returns 1. -/
def httpdArgFind (url : CStr) : Option (Plug → CStr) :=
  if strchr 63 url && (List.finRange 6).all fun k => (argSlot url k).isSome then
    some fun k => (argSlot url k).getD zero
  else none

def sendBuf (slot : Plug → CStr) : CStr :=
  .ofString "\x7b\"plug_0\":\x7b\"on\":" ++ slot 0 ++ .ofString "\x7d,\"plug_1\":\x7b\"on\":" ++ slot 1 ++
  .ofString "\x7d,\"plug_2\":\x7b\"on\":" ++ slot 2 ++ .ofString "\x7d,\"plug_3\":\x7b\"on\":" ++ slot 3 ++
  .ofString "\x7d,\"plug_4\":\x7b\"on\":" ++ slot 4 ++ .ofString "\x7d,\"plug_5\":\x7b\"on\":" ++ slot 5 ++
  .ofString "\x7d\x7d"

/-- The tree `cJSON_Parse` makes of `send_buf`. -/
def switchRoot (slot : Plug → CStr) : CJson :=
  .object ((List.finRange 6).map fun k =>
    (plugStr k, .object [(.ofString "on", .number (if slot k = one then 1 else 0))]))

def switchCbk (url : CStr) (state : State) : Exec (State × CStr) :=
  match httpdArgFind url with
  | none => .ok (state, .ofString "ret > 0")
  | some slot => do
    let (state, _) ← (List.finRange 6).foldlM (jsonPlugAnalysis (switchRoot slot)) (state, [])
    return (state, sendBuf slot)

/-- The text whose `strlen` is the size of `send_buf` in `switch_cbk`. -/
def switchTemplate : CStr :=
  .ofString "\x7b\"plug_0\":\x7b\"on\":1\x7d,\"plug_1\":\x7b\"on\":0\x7d,\"plug_2\":\x7b\"on\":1\x7d," ++
  .ofString "\"plug_3\":\x7b\"on\":1\x7d,\"plug_4\":\x7b\"on\":1\x7d,\"plug_5\":\x7b\"on\":1\x7d\x7d"

def switchBufSize : Nat := switchTemplate.length

/-- `status_cbk` prints the global `power` here. A `long` has 32 bits on this target. -/
def powerTempBufSize : Nat := 16

def powerTempBuf (power : UInt32) : List UInt8 :=
  decimal (power / 10).toInt32.toInt ++ (CStr.ofString ".").bytes ++ decimal (power % 10).toInt32.toInt

def statusTemplate : CStr :=
  .ofString "\x7b\"slot0\":0,\"slot1\":0,\"slot2\":0,\"slot3\":0,\"slot4\":0,\"slot5\":0,\"power\":\x7d"

def statusBufSize (power : UInt32) : Nat := statusTemplate.length + (powerTempBuf power).length

/-- What `sprintf` writes into `send_buf` in `status_cbk`, which is then copied to `rsp`. -/
def statusCbk (power : UInt32) (config : UConfig) : List UInt8 :=
  let on (k : Plug) := decimal (config.plug k).on.toNat
  (CStr.ofString "\x7b\"slot0\":").bytes ++ on 0 ++ (CStr.ofString ",\"slot1\":").bytes ++ on 1 ++
  (CStr.ofString ",\"slot2\":").bytes ++ on 2 ++ (CStr.ofString ",\"slot3\":").bytes ++ on 3 ++
  (CStr.ofString ",\"slot4\":").bytes ++ on 4 ++ (CStr.ofString ",\"slot5\":").bytes ++ on 5 ++
  (CStr.ofString ",\"power\":").bytes ++ powerTempBuf power ++ (CStr.ofString "\x7d").bytes

theorem httpdArgFind_binary {url : CStr} {slot : Plug → CStr} (found : httpdArgFind url = some slot) (k : Plug) :
    slot k = zero ∨ slot k = one := by
  unfold httpdArgFind at found
  split at found
  · cases found
    change (argSlot url k).getD zero = zero ∨ (argSlot url k).getD zero = one
    unfold argSlot
    split
    · exact Or.inl rfl
    · split
      · exact Or.inr rfl
      · exact Or.inl rfl
  · cases found

end PhicommTC1
