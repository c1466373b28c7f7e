import PhicommTC1.Proofs.ButtonPresses
import PhicommTC1.Proofs.RelayRecords

/-! The LED over whole runs. Relay changes put it right, the feedback of a long hold puts it out, and
the idle branch of the timer only ever puts it out. -/

namespace PhicommTC1.Proofs.LedFeedback
open CText LastWriter PhicommTC1 Button CommandWrites CommandEffect ScanPass DeviceSteps RelayRecords ButtonSteps
  ButtonPresses
variable {root : CJson} {state middle next : State} {drove : Prop}

/-- A step that drives the relays leaves the LED as they are; any other leaves both alone. -/
structure Shown (drove : Prop) (state next : State) : Prop where
  driven : drove → next.led = relayOut next
  quiet : ¬ drove → next.led = state.led ∧ ∀ i, next.switch i = state.switch i

theorem relayOut_same (same : ∀ i, next.switch i = state.switch i) : relayOut next = relayOut state := by
  apply Bool.eq_iff_iff.mpr
  simp only [relayOut_iff, same]

namespace Shown

theorem untouched (led : next.led = state.led) (same : ∀ i, next.switch i = state.switch i) :
    Shown False state next := ⟨False.elim, fun _ => ⟨led, same⟩⟩

theorem relaySet (x : Plug) (y : UInt8) : Shown True state (userRelaySet x.val y state) :=
  ⟨fun _ => userRelaySet_led x y state, fun absent => absurd trivial absent⟩

theorem trans {later : Prop} (first : Shown drove state middle) (second : Shown later middle next) :
    Shown (drove ∨ later) state next := by
  constructor
  · intro driven
    by_cases again : later
    · exact second.driven again
    · obtain ⟨led, same⟩ := second.quiet again
      rw [led, relayOut_same same]
      exact first.driven (driven.resolve_right again)
  · intro quiet
    obtain ⟨led, same⟩ := first.quiet fun driven => quiet (.inl driven)
    obtain ⟨ledAfter, sameAfter⟩ := second.quiet fun driven => quiet (.inr driven)
    exact ⟨ledAfter.trans led, fun i => (sameAfter i).trans (same i)⟩

theorem congr {other : Prop} (shown : Shown drove state next) (same : drove ↔ other) : Shown other state next := by
  rw [← same]
  exact shown

end Shown

theorem sprintfField_led {field : TextField} {format : CStr} (stored : sprintfField field format state = .ok next) :
    next.led = state.led := by
  obtain ⟨config, -, stored⟩ := Runs.bind_ok.mp stored
  cases stored
  rfl

theorem sprintfDeviceid_led {format : CStr} (stored : sprintfDeviceid format state = .ok next) :
    next.led = state.led := by
  obtain ⟨text, -, -, rfl⟩ := sprintfDeviceid_cases stored
  rfl

theorem delivers_switch {fields : List Register} (delivers : Delivers root fields state next)
    (others : ∀ x, Register.switch x ∉ fields) (i : Plug) : next.switch i = state.switch i := by
  have own := congrFun delivers.1 (.switch i)
  rw [foldl_assign, if_neg (others i)] at own
  exact own

/-- The message switches the relay of a register. -/
def Switches (root : CJson) (register : Register) : Prop :=
  ∃ x, register = .switch x ∧ (Request.on root x).isSome = true

theorem write_shown {register : Register} (fits : Request.Fits root) (write : Write root state register next) :
    Shown (Switches root register) state next := by
  have quiet (led : next.led = state.led) (other : ∀ x, register ≠ .switch x) :
      Shown (Switches root register) state next := by
    have same := delivers_switch (write_delivers fits write) fun x => by simpa using (other x).symm
    exact (Shown.untouched led same).congr (by simp [Switches, other])
  cases write with
  | unasked silent =>
    apply (Shown.untouched rfl fun _ => rfl).congr
    simp only [Switches, false_iff, not_exists, not_and]
    rintro x rfl
    simpa [Request.value] using silent
  | @relay x value asked => exact (Shown.relaySet x value).congr (by simp [Switches, asked])
  | task => exact quiet rfl (by simp)
  | text asked stored => exact quiet (sprintfField_led stored) (by simp)
  | deviceid asked stored => exact quiet (sprintfDeviceid_led stored) (by simp)
  | mqttPort => exact quiet rfl (by simp)

theorem writes_shown {registers : List Register} (fits : Request.Fits root)
    (writes : Writes root registers state next) :
    Shown (∃ register ∈ registers, Switches root register) state next := by
  induction writes with
  | nil => exact (Shown.untouched rfl fun _ => rfl).congr (by simp)
  | cons write _ ih => exact ((write_shown fits write).trans ih).congr (by simp)

theorem command_shown (fits : Request.Fits root) (writes : Writes root allRegisters state next) :
    Shown (∃ x, (Request.on root x).isSome = true) state next := by
  apply (writes_shown fits writes).congr
  constructor
  · rintro ⟨register, -, x, -, asked⟩
    exact ⟨x, asked⟩
  · rintro ⟨x, asked⟩
    exact ⟨.switch x, mem_allRegisters _, x, rfl, asked⟩

theorem visit_shown {tm : Tm} {scan : Scan} (shown : Shown (scan.relaySet ≠ []) state scan.state) (i : Plug)
    (j : Slot) : Shown ((scan.visit tm i j).relaySet ≠ []) state (scan.visit tm i j).state := by
  have switched (action : UInt8) :
      Shown ((scan.switchTo i action).relaySet ≠ []) state (scan.switchTo i action).state := by
    unfold Scan.switchTo
    split
    · exact (shown.trans (Shown.relaySet i action)).congr (by simp)
    · exact shown
  have disarmed (scan : Scan) : Shown False scan.state (scan.expire i j).state :=
    .untouched rfl fun other => expire_switch i scan j other
  unfold Scan.visit
  dsimp only
  split
  · split
    · exact ((switched _).trans (disarmed _)).congr (by simp [Scan.expire])
    · exact switched _
  · exact shown

theorem scanTasks_shown (tm : Tm) (state : State) :
    Shown ((scanPass tm (.start state initialTaskFlag)).relaySet ≠ []) state (scanTasks tm state) := by
  have plug (scan : Scan) (i : Plug) (shown : Shown (scan.relaySet ≠ []) state scan.state) :
      Shown ((scan.scanPlug tm i).relaySet ≠ []) state (scan.scanPlug tm i).state :=
    IndexedLoop.foldl_keeps (fun scan : Scan => Shown (scan.relaySet ≠ []) state scan.state)
      (fun _ j kept => visit_shown kept i j) shown
  rw [scanTasks_eq]
  apply IndexedLoop.foldl_keeps (fun scan : Scan => Shown (scan.relaySet ≠ []) state scan.state) plug
  exact (Shown.untouched rfl fun _ => rfl).congr (by simp [Scan.start])

theorem keyShortPress_led (state : State) : (keyShortPress state).led = relayOut (keyShortPress state) := by
  have all (y : UInt8) : (userRelaySetAll y state).led = relayOut (userRelaySetAll y state) :=
    IndexedLoop.foldl_establishes (fun state : State => state.led = relayOut state)
      (fun state i => userRelaySet_led i y state) (by decide) state
  unfold keyShortPress
  split
  · exact all 0
  · exact all 1

/-- The event calls `user_relay_set`. -/
def Drives (state : State) (event : Event) : Prop :=
  (∃ i, (event.sets state i).isSome = true) ∨
    ∃ tm, event = .scan tm ∧ (scanPass tm (.start state initialTaskFlag)).relaySet ≠ []

theorem step_shown {event : Event} (fits : event.Fits) (stepped : PhicommTC1.step state event = .ok next) :
    Shown (Drives state event) state next := by
  cases StoreRules.step_cases stepped with
  | command accepted commanded =>
    exact (command_shown fits (runCommand_writes commanded)).congr
      (by simp [Drives, Event.sets, Event.request, Option.filter_some, accepted])
  | switchPage found looped =>
    exact (command_shown (switchRoot_fits _) (switchRoot_writes looped)).congr
      (by simp [Drives, Event.sets, Event.request, found])
  | ignored unasked message same =>
    rw [same]
    exact (Shown.untouched rfl fun _ => rfl).congr (by simp [Drives, unasked_sets unasked message.1, message.2])
  | keyPress same =>
    subst same
    refine ⟨fun _ => keyShortPress_led state, ?_⟩
    intro quiet
    exact absurd (.inl ⟨0, rfl⟩) quiet
  | scan same =>
    subst same
    exact (scanTasks_shown _ state).congr (by simp [Drives, Event.sets, Event.request])

/-- The LED has been put out by a hold that reached 180 ticks and stopped before 190, and nothing has
driven it since. -/
def blanked (before : Button) (blank : Prop) (event : ButtonEvent) (_ : Button) : Prop :=
  match event with
  | .device event _ => blank ∧ ¬ Drives before.state event
  | .edge => blank ∧ ¬ ShortPress before
  | .tick => if before.high then blank else before.keyTime + 1 = 180 ∨ blank ∧ before.keyTime + 1 ≠ 190

/-- The tick calls `hfsmtlk_start`. -/
def ReachesSmartLink (button : Button) (event : ButtonEvent) : Prop :=
  event = .tick ∧ button.high = false ∧ button.keyTime + 1 = 203

/-- If the event is a tick with KEY high, the LED is right after it. -/
def LedRight (button : Button) (event : ButtonEvent) : Prop :=
  event = .tick → button.high = true → ∀ next, button.step event = .ok next →
    (next.state.led = true ↔ ∃ i, (next.state.uConfig.plug i).on ≠ 0)

/-- If the event is a tick with KEY high and the LED is still blanked, every record is zero. -/
def DarkWhenBlank (noted : Button × Prop) (event : ButtonEvent) : Prop :=
  event = .tick → noted.1.high = true → noted.2 → ∀ i, (noted.1.state.uConfig.plug i).on = 0

/-- A blanked LED is out; otherwise it is on wherever a relay is. -/
structure Lit (button : Button) (blank : Prop) : Prop where
  copies : ∀ i, (button.state.switch i).copy = (button.state.switch i).record
  out : blank → button.state.led = false
  on : ¬ blank → relayOut button.state = true → button.state.led = true

theorem step_lit {button after : Button} {blank : Prop} {event : ButtonEvent} (lit : Lit button blank)
    (fits : ∀ inner notKey, event = .device inner notKey → inner.Fits) (short : ¬ ReachesSmartLink button event)
    (stepped : button.step event = .ok after) : Lit after (blanked button blank event after) := by
  cases event with
  | device event notKey =>
    have fits := fits event notKey rfl
    obtain ⟨state, ran, rfl⟩ := device_step stepped
    have shown := step_shown fits ran
    constructor
    · exact step_switch (fun switch => switch.copy = switch.record) (fun _ => rfl) lit.copies fits ran
    · intro blank
      exact (shown.quiet blank.2).1.trans (lit.out blank.1)
    · intro bright on
      by_cases driven : Drives button.state event
      · exact (shown.driven driven).trans on
      · obtain ⟨led, same⟩ := shown.quiet driven
        exact led.trans (lit.on (fun blank => bright ⟨blank, driven⟩) ((relayOut_same same).symm.trans on))
  | edge =>
    rcases edge_step stepped with ⟨press, rfl⟩ | ⟨other, rfl⟩
    · refine ⟨?_, fun blank => absurd press blank.2, fun _ on => (keyShortPress_led button.state).trans on⟩
      intro i
      rw [keyShortPress_switch]
      rfl
    · exact ⟨lit.copies, fun blank => lit.out blank.1, fun bright => lit.on fun blank => bright ⟨blank, other⟩⟩
  | tick =>
    cases level : button.high with
    | true =>
      rw [idle_tick level stepped]
      simp only [blanked, level, if_true]
      split
      next on => exact ⟨lit.copies, lit.out, lit.on⟩
      next off => exact ⟨lit.copies, fun _ => rfl, fun _ on => absurd on off⟩
    | false =>
      rw [held_tick level stepped]
      simp only [blanked, level, Bool.false_eq_true, if_false]
      dsimp only [holdLed]
      split
      next at180 => exact ⟨lit.copies, fun _ => rfl, fun bright => absurd (.inl at180) bright⟩
      next not180 =>
        split
        next at190 =>
          refine ⟨lit.copies, ?_, fun _ _ => rfl⟩
          intro blank
          exact absurd at190 (blank.resolve_left not180).2
        next not190 =>
          rw [if_neg fun at203 => short ⟨rfl, level, at203⟩]
          exact ⟨lit.copies, fun blank => lit.out (blank.resolve_left not180).1,
            fun bright => lit.on fun blank => bright (.inr ⟨blank, not190⟩)⟩

theorem ledRight_iff {button : Button} {blank : Prop} {event : ButtonEvent} (lit : Lit button blank) :
    LedRight button event ↔ DarkWhenBlank (button, blank) event := by
  have shown : relayOut button.state = true ↔ ∃ i, (button.state.uConfig.plug i).on ≠ 0 :=
    relayOut_of_copies lit.copies
  constructor
  · intro right tick idle blank
    subst tick
    have dark : relayOut button.state = false := by
      apply Bool.eq_false_iff.mpr
      intro on
      have lights := (right rfl idle _ (if_pos idle)).mpr
      simp only [on, if_true] at lights
      exact absurd (lights (shown.mp on)) (by simp [lit.out blank])
    intro i
    by_contra nonzero
    rw [shown.mpr ⟨i, nonzero⟩] at dark
    cases dark
  · intro dark tick idle next stepped
    subst tick
    rw [idle_tick idle stepped]
    dsimp only
    split
    next on =>
      refine iff_of_true (lit.on ?_ on) (shown.mp on)
      intro blank
      obtain ⟨i, nonzero⟩ := shown.mp on
      exact nonzero (dark rfl idle blank i)
    next off => exact iff_of_false (by simp [userLedSet]) fun nonzero => off (shown.mpr nonzero)

/-- In every run whose holds stop short of `hfsmtlk_start`, the LED is right after each idle tick exactly
when each idle tick that finds the LED blanked finds all relays off. -/
theorem led_right_iff {start : State} {high : Bool} {events : List ButtonEvent}
    (fits : ∀ inner notKey, .device inner notKey ∈ events → inner.Fits)
    (short : Runs.Meets Button.step (fun button event => ¬ ReachesSmartLink button event)
      (.start (appRestoreDefault start) high) events) :
    Runs.Meets Button.step LedRight (.start (appRestoreDefault start) high) events ↔
      Runs.Meets (Runs.observed Button.step blanked) DarkWhenBlank
        (.start (appRestoreDefault start) high, False) events := by
  have fitting : Runs.Meets Button.step
      (fun button event => (∀ inner notKey, event = .device inner notKey → inner.Fits) ∧
        ¬ ReachesSmartLink button event) (.start (appRestoreDefault start) high) events := by
    apply Runs.meets_iff.mpr
    intro first event rest middle split reached
    refine ⟨?_, Runs.meets_iff.mp short first event rest middle split reached⟩
    intro inner notKey same
    exact fits inner notKey (by simp [split, same])
  apply Runs.meets_observed Lit _ fitting
  · intro button blank event next lit assumed stepped
    exact step_lit lit assumed.1 assumed.2 stepped
  · intro button blank event lit assumed
    exact ledRight_iff lit
  · refine ⟨restored_copies start, False.elim, ?_⟩
    intro bright on
    obtain ⟨i, nonzero⟩ := (relayOut_iff _).mp on
    exact absurd rfl (or_self_iff.mp nonzero)

def plugOn : CJson :=
  .object [(.ofString "mac", .string exampleMac), (.ofString "plug_0", .object [(.ofString "on", .number 1)])]

theorem plugOn_text (field : TextField) : Request.text plugOn field = none := by
  cases field with
  | plugName x => revert x; decide
  | _ => decide

def longHold : List ButtonEvent :=
  .device (.command (some plugOn)) nofun :: .edge :: List.replicate 180 .tick ++ [.edge]

theorem longHold_fits : ∀ inner notKey, .device inner notKey ∈ longHold ++ [.tick] → inner.Fits := by
  intro inner notKey member
  simp only [longHold, List.cons_append, List.mem_cons, List.mem_append, List.mem_replicate, reduceCtorEq,
    and_false, List.not_mem_nil, or_false, ButtonEvent.device.injEq] at member
  rw [member]
  intro field format stored asked
  rw [plugOn_text] at asked
  cases asked

theorem ticks_le (events : List ButtonEvent) : ticksSinceEdge events ≤ events.length := by
  induction events using List.reverseRecOn with
  | nil => exact Nat.le_refl 0
  | append_singleton events event ih =>
    rw [ticksSinceEdge_snoc, List.length_append, List.length_singleton]
    cases event <;> dsimp only <;> omega

/-- A run of fewer than 203 events cannot get to `hfsmtlk_start`. -/
theorem brief_short {state : State} {high : Bool} {events : List ButtonEvent} (brief : events.length < 203) :
    Runs.Meets Button.step (fun button event => ¬ ReachesSmartLink button event) (.start state high) events := by
  apply Runs.meets_iff.mpr
  intro first event rest middle split reached reaches
  have count := (run_tracks reached).held reaches.2.1
  have bound := ticks_le first
  have total : events.length = first.length + (rest.length + 1) := by simp [split]
  have early : middle.keyTime.toNat < 202 := by
    rw [count, counted, if_pos (by omega)]
    omega
  have at203 : (middle.keyTime + 1).toNat = 203 := congrArg UInt8.toNat reaches.2.2
  rw [UInt8.toNat_add] at at203
  simp only [UInt8.reduceToNat] at at203
  omega

theorem longHold_brief : (longHold ++ [ButtonEvent.tick]).length < 203 := by
  simp only [longHold, List.length_append, List.length_cons, List.length_replicate, List.length_nil]
  decide

theorem longHold_run : ∃ middle,
    Runs.run Button.step (.start exampleBoot true) longHold = .ok middle ∧
      (middle.high, middle.state.led, (middle.state.uConfig.plug 0).on) = (true, false, 1) :=
  Runs.map_ok.mp (by decide +kernel)

theorem led_right_iff_longHold :
    Runs.Meets Button.step LedRight (.start exampleBoot true) (longHold ++ [.tick]) ↔
      Runs.Meets (Runs.observed Button.step blanked) DarkWhenBlank (.start exampleBoot true, False)
        (longHold ++ [.tick]) :=
  led_right_iff longHold_fits (brief_short longHold_brief)

/-- A hold of 180 ticks puts the LED out and nothing in the idle branch lights it again. -/
theorem long_hold_leaves_led_out :
    ¬ ∀ (start : State) (high : Bool) (events : List ButtonEvent),
      (∀ inner notKey, .device inner notKey ∈ events → inner.Fits) →
      Runs.Meets Button.step (fun button event => ¬ ReachesSmartLink button event)
        (.start (appRestoreDefault start) high) events →
      Runs.Meets Button.step LedRight (.start (appRestoreDefault start) high) events := by
  intro assumed
  obtain ⟨middle, reached, shown⟩ := longHold_run
  simp only [Prod.mk.injEq] at shown
  obtain ⟨idle, out, on⟩ := shown
  have right := assumed (reset exampleMac (.ofString "192.168.1.20")) true _ longHold_fits (brief_short longHold_brief)
  have last := Runs.meets_iff.mp right longHold .tick [] middle rfl reached rfl idle _ (if_pos idle)
  have lit := last.mpr ⟨0, by dsimp only; split <;> simp [userLedSet, on]⟩
  dsimp only at lit
  split at lit
  next => rw [out] at lit; cases lit
  next => cases lit

end PhicommTC1.Proofs.LedFeedback
