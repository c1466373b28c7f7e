import PhicommTC1.UserFunction
import PhicommTC1.UserRtc

/-! The report a flagged pass sends. A marker is used as an index whatever it is, so what lies past
the task array of a plug is part of the model. -/

namespace PhicommTC1
open CText

/-- `strTemp2`: the digit is computed in a `char`. -/
def strTemp2 (marker : UInt8) : CStr := .upToNul ((CStr.ofString "task_").bytes ++ [marker + 48])

/-- `u_config.plug[i].task[j]`; `beyond` is what an index past the array reads. -/
def taskAt (beyond : Plug → Nat → UserPlugTaskConfig) (config : UConfig) (i : Plug) (j : Nat) : UserPlugTaskConfig :=
  if inside : j < 5 then (config.plug i).task ⟨j, inside⟩ else beyond i j

/-- What the loop over the plugs works on. `indices` lists the indices `j` used to read a task. -/
structure Report where
  jsonSend : Members
  taskFlag : Plug → UInt8
  indices : List (Plug × Nat)

def Report.addPlug (beyond : Plug → Nat → UserPlugTaskConfig) (config : UConfig) (report : Report) (i : Plug) :
    Report :=
  let jsonSendPlug := Members.addByte [] (.ofString "on") (config.plug i).on
  let marker := report.taskFlag i
  if 0 ≤ marker then
    let j := marker.toNat
    let jsonSendPlugSetting := Members.addItem [] (strTemp2 marker) (echoTask (taskAt beyond config i j))
    { jsonSend := report.jsonSend.addItem (plugStr i)
        (.object (jsonSendPlug.addItem (.ofString "setting") (.object jsonSendPlugSetting)))
      taskFlag := Function.update report.taskFlag i noTask
      indices := report.indices ++ [(i, j)] }
  else { report with jsonSend := report.jsonSend.addItem (plugStr i) (.object jsonSendPlug) }

def Report.start (strMac : CStr) (taskFlag : Plug → UInt8) : Report :=
  ⟨Members.addItem [] (.ofString "mac") (.string strMac), taskFlag, []⟩

def Report.build (beyond : Plug → Nat → UserPlugTaskConfig) (scan : Scan) : Report :=
  (List.finRange 6).foldl (Report.addPlug beyond scan.state.uConfig) (.start scan.state.strMac scan.taskFlag)

/-- The report of a pass, if it sends one. -/
def Scan.report (beyond : Plug → Nat → UserPlugTaskConfig) (scan : Scan) : Option Report :=
  if scan.updateUserConfigFlag then some (.build beyond scan) else none

/-- One turn of the scheduler thread, which keeps nothing of its own but the markers. Everything
else it finds as the other threads left it. -/
structure Pass where
  tm : Tm
  state : State

def Pass.scan (pass : Pass) (taskFlag : Plug → UInt8) : Scan := scanPass pass.tm (.start pass.state taskFlag)

def Pass.step (beyond : Plug → Nat → UserPlugTaskConfig) (taskFlag : Plug → UInt8) (pass : Pass) :
    Exec (Plug → UInt8) :=
  match (pass.scan taskFlag).report beyond with
  | some report => .ok report.taskFlag
  | none => .ok (pass.scan taskFlag).taskFlag

end PhicommTC1
