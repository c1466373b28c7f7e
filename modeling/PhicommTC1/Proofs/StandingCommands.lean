import PhicommTC1.Proofs.SystemSteps

/-! Commands given in the second in which the schedule has switched. An observer of the run notes
that a pass was made in the current second zero and what each plug has been told to do since. -/

namespace PhicommTC1.Proofs.StandingCommands
open CText PhicommTC1 ScanPass SystemSteps

structure Notes where
  /-- a scan pass has been made since the clock came to this second, and the second is zero -/
  served : Bool
  /-- the switch position of the last command after that pass -/
  given : Plug → Option UInt8

namespace Notes

def blank : Notes := ⟨false, fun _ => none⟩

/-- A tick that shows another time ends the second. -/
def take (system : System) (notes : Notes) (occurrence : SystemEvent) (next : System) : Notes :=
  match occurrence with
  | .tick => if next.clock.userTime = system.clock.userTime then notes else blank
  | .thread _ => { notes with served := notes.served || (system.scanning && system.clock.userTime.tmSec == 0) }
  | occurrence =>
    let sets (i : Plug) := (occurrence.event system).bind fun event => event.sets system.device i
    { notes with given := if notes.served then fun i => (sets i).or (notes.given i) else notes.given }

end Notes

abbrev watch : System × Notes → SystemEvent → Exec (System × Notes) := Runs.observed System.step Notes.take

variable {system next : System} {notes after : Notes} {occurrence : SystemEvent}

/-- Every plug is still where the last command of this second put it. -/
def Stands (current : System × Notes) : Prop := ∀ i v, current.2.given i = some v → current.1.record i = v

/-- A pass in the rest of the second finds no due slot on a plug that was given a position, or the
last due one has that position as its action. -/
def Harmless (current : System × Notes) (occurrence : SystemEvent) : Prop :=
  ∀ answer, occurrence = .thread answer → current.1.scanning = true →
    ∀ i v action, current.2.given i = some v →
      lastAction current.1.clock.userTime (current.1.task i) = some action → action = v

def Valid (current : System × Notes) : Prop := current.2.served = false → ∀ i, current.2.given i = none

theorem take_input (external : occurrence ≠ .tick ∧ ∀ answer, occurrence ≠ .thread answer) :
    notes.take system occurrence next = { notes with
      given := if notes.served then fun i =>
        ((occurrence.event system).bind fun event => event.sets system.device i).or (notes.given i)
        else notes.given } := by
  cases occurrence with
  | tick => exact absurd rfl external.1
  | thread answer => exact absurd rfl (external.2 answer)
  | _ => rfl

theorem take_valid (valid : Valid (system, notes)) : Valid (next, notes.take system occurrence next) := by
  intro unserved i
  cases occurrence with
  | tick =>
    simp only [Notes.take] at unserved ⊢
    split at unserved
    next still => rw [if_pos still]; exact valid unserved i
    next left => rw [if_neg left]; rfl
  | thread answer =>
    simp only [Notes.take, Bool.or_eq_false_iff] at unserved
    exact valid unserved.1 i
  | _ =>
    simp only [Notes.take] at unserved ⊢
    rw [unserved]
    exact valid unserved i

theorem step_stands_iff (valid : Valid (system, notes)) (stands : Stands (system, notes)) (fits : occurrence.Fits)
    (stepped : system.step occurrence = .ok next) :
    Stands (next, notes.take system occurrence next) ↔ Harmless (system, notes) occurrence := by
  cases step_effect stepped with
  | tick occurred same =>
    subst occurred same
    constructor
    · intro standing answer other
      cases other
    · intro harmless i v given
      simp only [Notes.take] at given
      split at given
      next still => exact stands i v given
      next => cases given
  | @sync answer occurred waiting same =>
    subst occurred same
    constructor
    · intro standing other _ scanning
      simp only [waiting] at scanning
      cases scanning
    · intro harmless
      exact stands
  | @scan answer occurred scanning same =>
    subst occurred
    have record (i : Plug) : next.record i =
        (lastAction system.clock.userTime (system.task i)).getD (system.record i) := by
      simp only [System.record, same]
      exact scanTasks_on _ _ i
    constructor
    · intro standing answer _ _ i v action given treated
      have reached : next.record i = v := standing i v given
      rw [record, treated] at reached
      exact reached
    · intro harmless i v given
      change next.record i = v
      rw [record]
      cases treated : lastAction system.clock.userTime (system.task i) with
      | none => exact stands i v given
      | some action => exact harmless answer rfl scanning i v action given treated
  | @input event occurred passive external served clock scanning =>
    constructor
    · intro standing answer thread
      exact absurd thread (external.2 answer)
    · intro harmless i v given
      rw [take_input external] at given
      have record : next.record i = (event.sets system.device i).getD (system.record i) :=
        DeviceSteps.step_record (event_fits fits occurred) passive served i
      simp only [occurred, Option.bind_some] at given
      change next.record i = v
      rw [record]
      cases watchful : notes.served with
      | false =>
        rw [watchful, if_neg Bool.false_ne_true, valid watchful i] at given
        cases given
      | true =>
        rw [watchful, if_pos rfl] at given
        cases sets : event.sets system.device i with
        | none => rw [sets] at given; exact stands i v given
        | some position => rw [sets] at given; exact Option.some.inj given

/-- Commands given after the schedule has switched stand until the clock leaves the second
exactly in the runs whose later passes of the second are harmless. -/
theorem commands_stand_iff {strMac strIp : CStr} {occurrences : List SystemEvent} {last : System}
    (fits : ∀ occurrence ∈ occurrences, occurrence.Fits)
    (completed : Runs.run System.step (.boot strMac strIp) occurrences = .ok last) :
    Runs.Along watch Stands (.boot strMac strIp, .blank) occurrences ↔
      Runs.Meets watch Harmless (.boot strMac strIp, .blank) occurrences := by
  obtain ⟨final, watched⟩ := Runs.run_observed Notes.take .blank completed
  apply Runs.along_iff_meets Valid watched
  · intro unserved i
    rfl
  · intro i v given
    cases given
  · intro current occurrence reached valid stands member stepped
    obtain ⟨-, taken⟩ := Runs.observed_ok.mp stepped
    rw [Valid, taken]
    exact take_valid valid
  · intro current occurrence reached valid stands member stepped
    obtain ⟨ran, taken⟩ := Runs.observed_ok.mp stepped
    rw [Stands, taken]
    exact step_stands_iff valid stands (fits occurrence member) ran

/-- A task for every Monday at 16:00, which is when the clock starts. The pass switches the plug
on, the button switches it off, and the next pass of the same second switches it on again. -/
def undone : List SystemEvent :=
  [.command (some (exampleTask ⟨16, 0, 1, 1, 1⟩)), .thread (-1), .thread (-1), .keyPress, .thread (-1), .thread (-1)]

theorem undone_fits : ∀ occurrence ∈ undone, occurrence.Fits := by
  have command := DeviceSteps.exampleTask_fits ⟨16, 0, 1, 1, 1⟩
  simp only [undone, List.forall_mem_cons, List.not_mem_nil, false_implies, implies_true]
  exact ⟨command, trivial, trivial, trivial, trivial, trivial, trivial⟩

theorem commands_stand_iff_undone :
    Runs.Along watch Stands (.boot exampleMac (.ofString "192.168.1.20"), .blank) undone ↔
      Runs.Meets watch Harmless (.boot exampleMac (.ofString "192.168.1.20"), .blank) undone := by
  obtain ⟨last, completed, -⟩ : ∃ last, Runs.run System.step (.boot exampleMac (.ofString "192.168.1.20")) undone =
      .ok last ∧ last.scanning = false := Runs.map_ok.mp (by decide +kernel)
  exact commands_stand_iff undone_fits completed

def Leaving (system : System) : Prop := (rtctimeTimeoutHandler system.clock).userTime ≠ system.clock.userTime

theorem repeating_task_undoes_command :
    ¬ ∀ (strMac strIp : CStr) (occurrences : List SystemEvent) (last : System × Notes),
      (∀ occurrence ∈ occurrences, occurrence.Fits) →
      Runs.run watch (.boot strMac strIp, .blank) occurrences = .ok last → Leaving last.1 → Stands last := by
  intro assumed
  obtain ⟨last, completed, outcome⟩ : ∃ last,
      Runs.run watch (.boot exampleMac (.ofString "192.168.1.20"), .blank) undone = .ok last ∧
      (last.2.given 0, last.1.record 0, last.1.clock.userTime, last.1.clock.rtctimes) =
        (some 0, 1, gmtime startTime, 0) := Runs.map_ok.mp (by decide +kernel)
  simp only [Prod.mk.injEq] at outcome
  obtain ⟨given, record, time, count⟩ := outcome
  have leaving : Leaving last.1 := by
    simp only [Leaving, rtctimeTimeoutHandler, time, count]
    decide
  have stands := assumed _ _ undone last undone_fits completed leaving 0 0 given
  rw [record] at stands
  cases stands

end PhicommTC1.Proofs.StandingCommands
