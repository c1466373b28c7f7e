import PhicommTC1.Proofs.ButtonSteps

/-! Which contacts of KEY count as a short press. The counter follows the ticks of the current hold
and, once past the end, goes round without ever coming back to the short presses. -/

namespace PhicommTC1.Proofs.ButtonPresses
open CText PhicommTC1 Button CommandDefined DeviceSteps ButtonSteps
variable {button next : Button} {events first rest : List ButtonEvent}

/-- The level of KEY after the events, which turns over at each edge. -/
def levelAfter (high : Bool) : List ButtonEvent → Bool :=
  List.foldl (fun level event => match event with
    | .edge => !level
    | _ => level) high

/-- The ticks since the last edge. -/
def ticksSinceEdge : List ButtonEvent → Nat :=
  List.foldl (fun ticks event => match event with
    | .edge => 0
    | .tick => ticks + 1
    | .device _ _ => ticks) 0

/-- `key_time` after so many ticks of a hold: past 204 it goes round from 189 on. -/
def counted (ticks : Nat) : Nat := if ticks < 205 then ticks else 189 + (ticks - 205) % 16

theorem counted_short (ticks : Nat) : counted ticks < 20 ↔ ticks < 20 := by
  unfold counted
  split <;> omega

theorem two_le_counted (ticks : Nat) : 2 ≤ counted ticks ↔ 2 ≤ ticks := by
  unfold counted
  split <;> omega

theorem counted_succ (ticks : Nat) :
    counted (ticks + 1) = if 204 < counted ticks + 1 then 189 else counted ticks + 1 := by
  unfold counted
  split_ifs <;> omega

theorem countUp_counted {keyTime : UInt8} {ticks : Nat} (count : keyTime.toNat = counted ticks) :
    (countUp keyTime).toNat = counted (ticks + 1) := by
  have small : counted ticks ≤ 204 := by
    unfold counted
    split <;> omega
  have up : (keyTime + 1).toNat = counted ticks + 1 := by
    rw [UInt8.toNat_add, count]
    exact Nat.mod_eq_of_lt (by simp only [UInt8.reduceToNat]; omega)
  have past : keyTime + 1 > 204 ↔ 204 < counted ticks + 1 := by
    rw [gt_iff_lt, UInt8.lt_iff_toNat_lt, up]
    rfl
  rw [counted_succ, countUp]
  split
  next late => rw [if_pos (past.mp late)]; rfl
  next within => rw [if_neg fun late => within (past.mpr late), up]

/-- The counter is zero while KEY is high and tells the ticks of the hold while it is low. -/
structure Tracks (high : Bool) (events : List ButtonEvent) (button : Button) : Prop where
  level : button.high = levelAfter high events
  idle : button.high = true → button.keyTime = 0
  held : button.high = false → button.keyTime.toNat = counted (ticksSinceEdge events)

theorem levelAfter_snoc (high : Bool) (events : List ButtonEvent) (event : ButtonEvent) :
    levelAfter high (events ++ [event]) = match event with
      | .edge => !levelAfter high events
      | _ => levelAfter high events := by
  cases event <;> simp [levelAfter]

theorem ticksSinceEdge_snoc (events : List ButtonEvent) (event : ButtonEvent) :
    ticksSinceEdge (events ++ [event]) = match event with
      | .edge => 0
      | .tick => ticksSinceEdge events + 1
      | .device _ _ => ticksSinceEdge events := by
  cases event <;> simp [ticksSinceEdge]

theorem step_tracks {high : Bool} {event : ButtonEvent} (tracks : Tracks high first button)
    (stepped : button.step event = .ok next) : Tracks high (first ++ [event]) next := by
  cases event with
  | device event notKey =>
    obtain ⟨state, -, rfl⟩ := device_step stepped
    exact ⟨by simp only [levelAfter_snoc]; exact tracks.level, tracks.idle,
      by simp only [ticksSinceEdge_snoc]; exact tracks.held⟩
  | edge =>
    have turned : next.keyTime = 0 ∧ next.high = !button.high := by
      rcases edge_step stepped with ⟨short, rfl⟩ | ⟨-, rfl⟩
      · exact ⟨rfl, by simp [short.1]⟩
      · exact ⟨rfl, rfl⟩
    refine ⟨?_, fun _ => turned.1, ?_⟩
    · rw [turned.2, levelAfter_snoc, tracks.level]
    · intro low
      rw [turned.1, ticksSinceEdge_snoc]
      rfl
  | tick =>
    cases level : button.high with
    | true =>
      rw [idle_tick level stepped]
      refine ⟨?_, tracks.idle, ?_⟩
      · simp only [levelAfter_snoc]; exact tracks.level
      · intro low
        cases level.symm.trans low
    | false =>
      rw [held_tick level stepped]
      refine ⟨?_, ?_, ?_⟩
      · simp only [levelAfter_snoc]; exact tracks.level
      · intro idle
        cases level.symm.trans idle
      · intro low
        rw [ticksSinceEdge_snoc]
        exact countUp_counted (tracks.held level)

theorem run_tracks {state : State} {high : Bool}
    (reached : Runs.run Button.step (.start state high) events = .ok button) : Tracks high events button := by
  apply Runs.history (Tracks high) _ _ reached
  · exact ⟨rfl, fun _ => rfl, fun _ => rfl⟩
  · intro first event current next tracks stepped
    exact step_tracks tracks stepped

/-- The edge ends a low interval of two to nineteen ticks. -/
def EndsShortHold (high : Bool) (first : List ButtonEvent) (event : ButtonEvent) : Prop :=
  event = .edge ∧ levelAfter high (first ++ [event]) = true ∧ 2 ≤ ticksSinceEdge first ∧ ticksSinceEdge first < 20

instance (high : Bool) (first : List ButtonEvent) (event : ButtonEvent) : Decidable (EndsShortHold high first event) :=
  have : Decidable (event = .edge) := match event with
    | .edge => isTrue rfl
    | .tick => isFalse nofun
    | .device _ _ => isFalse nofun
  inferInstanceAs (Decidable (_ ∧ _))

theorem shortPress_iff {high : Bool} (tracks : Tracks high first button) :
    ShortPress button ↔ EndsShortHold high first .edge := by
  unfold ShortPress EndsShortHold
  rw [levelAfter_snoc, ← tracks.level]
  cases level : button.high with
  | true => simp
  | false =>
    have count := tracks.held level
    have atLeast : (2 : UInt8) ≤ button.keyTime ↔ 2 ≤ ticksSinceEdge first := by
      rw [UInt8.le_iff_toNat_le, count]
      exact two_le_counted _
    have below : button.keyTime < 20 ↔ ticksSinceEdge first < 20 := by
      rw [UInt8.lt_iff_toNat_lt, count]
      exact counted_short _
    simp [atLeast, below]

theorem step_presses {high : Bool} {event : ButtonEvent} (tracks : Tracks high first button)
    (stepped : button.step event = .ok next) :
    next.shortPresses = button.shortPresses + if EndsShortHold high first event then 1 else 0 := by
  cases event with
  | device event notKey =>
    obtain ⟨state, -, rfl⟩ := device_step stepped
    rw [if_neg (by simp [EndsShortHold])]
    rfl
  | edge =>
    rcases edge_step stepped with ⟨short, rfl⟩ | ⟨long, rfl⟩
    · rw [if_pos ((shortPress_iff tracks).mp short)]
    · rw [if_neg fun ends => long ((shortPress_iff tracks).mpr ends)]
      rfl
  | tick =>
    rw [if_neg (by simp [EndsShortHold])]
    cases level : button.high with
    | true => rw [idle_tick level stepped]; rfl
    | false => rw [held_tick level stepped]; rfl

theorem holdLed_state (keyTime : UInt8) (state : State) : ∃ led, holdLed keyTime state = { state with led := led } := by
  unfold holdLed
  split_ifs <;> exact ⟨_, rfl⟩

theorem tick_state (stepped : button.step .tick = .ok next) : ∃ led, next.state = { button.state with led := led } := by
  cases level : button.high with
  | true =>
    rw [idle_tick level stepped]
    dsimp only
    split <;> exact ⟨_, rfl⟩
  | false =>
    rw [held_tick level stepped]
    exact holdLed_state _ _

theorem edge_state {high : Bool} (tracks : Tracks high first button) (stepped : button.step .edge = .ok next) :
    next.state = if EndsShortHold high first .edge then keyShortPress button.state else button.state := by
  rcases edge_step stepped with ⟨short, rfl⟩ | ⟨long, rfl⟩
  · rw [if_pos ((shortPress_iff tracks).mp short)]
  · rw [if_neg fun ends => long ((shortPress_iff tracks).mpr ends)]

/-- Edges and ticks are always served, and whatever happens in between, `key_short_press` is called
at the edges that end a low interval of two to nineteen ticks and nowhere else: its effect is the whole
effect of such an edge, any other edge has none, and a tick reaches nothing but the LED. -/
theorem short_presses_classified (strMac strIp : CStr) (high : Bool) (events : List ButtonEvent) :
    ((∀ event ∈ events, event = .edge ∨ event = .tick) →
      ∃ last, Runs.run Button.step (.start (boot strMac strIp) high) events = .ok last) ∧
    ∀ first event rest button next, events = first ++ event :: rest →
      Runs.run Button.step (.start (boot strMac strIp) high) first = .ok button → button.step event = .ok next →
      next.shortPresses = button.shortPresses + (if EndsShortHold high first event then 1 else 0) ∧
        (event = .edge →
          next.state = if EndsShortHold high first event then keyShortPress button.state else button.state) ∧
        (event = .tick → ∃ led, next.state = { button.state with led := led }) ∧
        (levelAfter high first = false → 20 ≤ ticksSinceEdge first → 20 ≤ button.keyTime) := by
  constructor
  · intro contacts
    obtain ⟨last, ran, -⟩ : ∃ last,
        Runs.run Button.step (.start (boot strMac strIp) high) events = .ok last ∧ Sound last.state := by
      apply Runs.completes (fun button : Button => Sound button.state) (boot_sound strMac strIp)
      intro button event member sound
      exact contact_defined sound (contacts event member)
    exact ⟨last, ran⟩
  · intro first event rest button next split reached stepped
    have tracks := run_tracks reached
    refine ⟨step_presses tracks stepped, ?_, ?_, ?_⟩
    · rintro rfl
      exact edge_state tracks stepped
    · rintro rfl
      exact tick_state stepped
    · intro low long
      rw [UInt8.le_iff_toNat_le, tracks.held (tracks.level.trans low)]
      exact Nat.not_lt.mp fun short => Nat.not_lt.mpr long ((counted_short _).mp short)

end PhicommTC1.Proofs.ButtonPresses
