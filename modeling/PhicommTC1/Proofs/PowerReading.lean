import Mathlib.Algebra.Group.Nat.Defs
import PhicommTC1.UserPower

/-! When the published power is the exact quotient. A timer tick divides by the milliseconds between
the first and the last pulse, except after idle ticks and around a wrap of the microsecond count. -/

namespace PhicommTC1.Proofs.PowerReading
open PhicommTC1

/-- What has happened since the last publication: the pulses, the true times of the first and the last,
and the ticks that published nothing. -/
structure Notes where
  pulses : Nat
  first : Nat
  last : Nat
  idle : Nat
  deriving DecidableEq

def Notes.start : Notes := ⟨0, 0, 0, 0⟩

/-- A tick publishes. -/
def Publishes (metering : Metering) : Prop := 1 < metering.meter.timerIrqCount

instance (metering : Metering) : Decidable (Publishes metering) := inferInstanceAs (Decidable (_ < _))

def note (metering : Metering) (notes : Notes) (event : MeterEvent) (_ : Metering) : Notes :=
  match event with
  | .elapse _ => notes
  | .pulse =>
    { notes with
      pulses := notes.pulses + 1
      first := if notes.pulses = 0 then metering.now else notes.first
      last := metering.now }
  | .tick => if Publishes metering then { notes with pulses := 0, idle := 0 } else { notes with idle := notes.idle + 1 }

/-- The milliseconds from the first pulse to the last. -/
def Notes.duration (notes : Notes) : Nat := notes.last - notes.first

def Notes.energy (notes : Notes) : Nat := 17100000 * (notes.pulses - 1)

/-- The 32-bit count of microseconds started anew between the first pulse and the last. -/
def Notes.Wrapped (notes : Notes) : Prop := 1000 * notes.first / 2 ^ 32 ≠ 1000 * notes.last / 2 ^ 32

instance (notes : Notes) : Decidable notes.Wrapped := inferInstanceAs (Decidable (_ ≠ _))

/-- What a tick divides by: too much after more than three idle ticks, one too little around a wrap. -/
def Notes.divisor (notes : Notes) : Nat :=
  if 3 < notes.idle % 2 ^ 32 then notes.duration + 4294967
  else if notes.Wrapped then notes.duration - 1
  else notes.duration

/-- The microseconds of true time in 32 bits, as the interrupt computes them. -/
def clock (now : Nat) : UInt32 := UInt32.ofNat now * 1000

theorem clock_toNat (now : Nat) : (clock now).toNat = 1000 * now % 2 ^ 32 := by
  rw [clock, UInt32.toNat_mul, UInt32.toNat_ofNat']
  change now % 2 ^ 32 * 1000 % 2 ^ 32 = _
  omega

/-- What the variables of the meter have to do with what has happened. A count of pulses that has
itself wrapped says nothing about the two clocks. -/
structure Tracks (metering : Metering) (notes : Notes) : Prop where
  pulses : metering.meter.timerIrqCount = UInt32.ofNat notes.pulses
  idle : metering.meter.timerCount = UInt32.ofNat notes.idle
  ordered : 1 ≤ notes.pulses → notes.first ≤ notes.last ∧ notes.last ≤ metering.now
  clocks : 1 ≤ notes.pulses → notes.pulses < 2 ^ 32 →
    metering.meter.clockCountLast = clock notes.first ∧ metering.meter.clockCount = clock notes.last

theorem tracks_start (now : Nat) : Tracks (.start now) .start :=
  ⟨rfl, rfl, fun counted => absurd counted (by decide), fun counted => absurd counted (by decide)⟩

theorem count_zero_iff {count : Nat} (small : count < 2 ^ 32) : UInt32.ofNat count = 0 ↔ count = 0 := by
  rw [← UInt32.toNat_inj, UInt32.toNat_ofNat']
  change count % 2 ^ 32 = 0 ↔ count = 0
  omega

theorem tracks_pulse {metering : Metering} {notes : Notes} (tracks : Tracks metering notes) {next : Metering}
    (stepped : metering.step .pulse = .ok next) : Tracks next (note metering notes .pulse next) := by
  cases stepped
  refine ⟨?_, tracks.idle, ?_, ?_⟩
  · change metering.meter.timerIrqCount + 1 = _
    rw [tracks.pulses, note, UInt32.ofNat_add]
    rfl
  · intro _
    simp only [note]
    split
    next => exact ⟨Nat.le_refl _, Nat.le_refl _⟩
    next counted =>
      obtain ⟨order, past⟩ := tracks.ordered (Nat.pos_of_ne_zero counted)
      exact ⟨Nat.le_trans order past, Nat.le_refl _⟩
  · intro _ small
    have before : notes.pulses < 2 ^ 32 := Nat.lt_of_succ_lt small
    have empty := count_zero_iff before
    rw [← tracks.pulses] at empty
    refine ⟨?_, rfl⟩
    change (if metering.meter.timerIrqCount = 0 then clock metering.now else metering.meter.clockCountLast) =
      clock (if notes.pulses = 0 then metering.now else notes.first)
    by_cases first : notes.pulses = 0
    · rw [if_pos (empty.mpr first), if_pos first]
    · rw [if_neg (mt empty.mp first), if_neg first]
      exact (tracks.clocks (Nat.pos_of_ne_zero first) before).1

theorem tick_cases {metering next : Metering} (stepped : metering.step .tick = .ok next) :
    Publishes metering ∧ next.meter.timerIrqCount = 0 ∧ next.meter.timerCount = 0 ∨
      ¬ Publishes metering ∧
        next = { metering with meter := { metering.meter with timerCount := metering.meter.timerCount + 1 } } := by
  obtain ⟨meter, handled, rfl⟩ := Runs.map_ok.mp stepped
  unfold PowerMeter.powerTimerHandler at handled
  split at handled
  next publishes =>
    split at handled
    next => cases handled
    next => cases handled; exact Or.inl ⟨publishes, rfl, rfl⟩
  next quiet => cases handled; exact Or.inr ⟨quiet, rfl⟩

theorem tracks_tick {metering : Metering} {notes : Notes} (tracks : Tracks metering notes) {next : Metering}
    (stepped : metering.step .tick = .ok next) : Tracks next (note metering notes .tick next) := by
  rcases tick_cases stepped with ⟨publishes, counted, idle⟩ | ⟨quiet, rfl⟩
  · rw [note, if_pos publishes]
    exact ⟨counted, idle, fun counted => absurd counted (by simp), fun counted => absurd counted (by simp)⟩
  · rw [note, if_neg quiet]
    refine ⟨tracks.pulses, ?_, tracks.ordered, tracks.clocks⟩
    change metering.meter.timerCount + 1 = _
    rw [tracks.idle, UInt32.ofNat_add]
    rfl

theorem tracks_step {metering : Metering} {notes : Notes} {event : MeterEvent} (tracks : Tracks metering notes)
    {next : Metering} (stepped : metering.step event = .ok next) : Tracks next (note metering notes event next) := by
  cases event with
  | elapse milliseconds =>
    cases stepped
    refine ⟨tracks.pulses, tracks.idle, ?_, tracks.clocks⟩
    intro counted
    obtain ⟨order, past⟩ := tracks.ordered counted
    exact ⟨order, Nat.le_trans past (Nat.le_add_right _ _)⟩
  | pulse => exact tracks_pulse tracks stepped
  | tick => exact tracks_tick tracks stepped

variable {metering : Metering} {notes : Notes}

/-- The microseconds between the pulses, and whether the count looks as if it went back. -/
theorem clock_sub {first last : Nat} (order : first ≤ last) (short : 1000 * (last - first) < 2 ^ 32) :
    (clock last - clock first).toNat = 1000 * (last - first) ∧
      (clock last < clock first ↔ 1000 * first / 2 ^ 32 ≠ 1000 * last / 2 ^ 32) := by
  rw [UInt32.toNat_sub, UInt32.lt_iff_toNat_lt, clock_toNat, clock_toNat]
  omega

theorem timer_divisor (tracks : Tracks metering notes) (counted : 1 ≤ notes.pulses) (small : notes.pulses < 2 ^ 32)
    (short : 1000 * notes.duration < 2 ^ 32) : metering.meter.timer.toNat = notes.divisor := by
  obtain ⟨first, last⟩ := tracks.clocks counted small
  obtain ⟨difference, back⟩ := clock_sub (tracks.ordered counted).1 short
  have idle : metering.meter.timerCount > 3 ↔ 3 < notes.idle % 2 ^ 32 := by
    rw [tracks.idle, gt_iff_lt, UInt32.lt_iff_toNat_lt, UInt32.toNat_ofNat']
    rfl
  rw [← first, ← last] at difference back
  change _ = 1000 * notes.duration at difference
  simp only [PowerMeter.timer, idle, back, ← Notes.Wrapped.eq_def, Notes.divisor]
  split
  · rw [UInt32.toNat_add, UInt32.toNat_div, difference]
    change (1000 * notes.duration / 1000 + 4294967) % 2 ^ 32 = _
    omega
  · split
    next wrapped =>
      rw [UInt32.toNat_div, UInt32.toNat_add, difference]
      change (1000 * notes.duration + 4294967295) % 2 ^ 32 / 1000 = _
      have order := (tracks.ordered counted).1
      have apart : 1 ≤ notes.duration := by
        unfold Notes.Wrapped at wrapped
        unfold Notes.duration
        omega
      omega
    next =>
      rw [UInt32.toNat_div, difference]
      change 1000 * notes.duration / 1000 = _
      omega

/-- Dividing a product that was cut to 32 bits gives less than the exact quotient. -/
theorem cut_quotient_lt {whole cut duration divisor : Nat} (long : 2 ^ 32 + cut ≤ whole) (cut_lt : cut < 2 ^ 32)
    (even : cut % 2 = 0) (short : 1000 * duration < 2 ^ 32) (some : 0 < duration) (divides : 0 < divisor)
    (near : duration ≤ divisor + 1) : cut / divisor < whole / duration := by
  have below : cut / divisor * divisor ≤ cut := Nat.div_mul_le_self cut divisor
  have spread : cut / divisor * duration ≤ cut / divisor * divisor + cut / divisor := by
    rw [← Nat.mul_succ]
    exact Nat.mul_le_mul_left _ near
  have room : cut / divisor + duration ≤ 2 ^ 32 := by
    rcases Nat.lt_or_ge 1 divisor with several | one
    · have half : cut / divisor * 2 ≤ cut / divisor * divisor := Nat.mul_le_mul_left _ several
      omega
    · have self : cut / divisor ≤ cut := Nat.div_le_self _ _
      omega
  apply (Nat.le_div_iff_mul_le some).mpr
  rw [Nat.succ_mul]
  omega

/-- Over four seconds in thousands more in the divisor make the quotient too small. -/
theorem late_quotient_lt {whole duration : Nat} (large : 4294967 ≤ whole) (short : 1000 * duration < 2 ^ 32)
    (some : 0 < duration) : whole / (duration + 4294967) < whole / duration := by
  have positive : 1 ≤ whole / duration := (Nat.le_div_iff_mul_le some).mpr (by omega)
  have above : whole < (whole / duration + 1) * duration := by
    have split := Nat.div_add_mod whole duration
    have rest := Nat.mod_lt whole some
    rw [Nat.succ_mul, Nat.mul_comm]
    omega
  have more : 4294967 ≤ whole / duration * 4294967 := Nat.le_mul_of_pos_left _ positive
  apply (Nat.div_lt_iff_lt_mul (by omega)).mpr
  rw [Nat.mul_add]
  rw [Nat.succ_mul] at above
  omega

/-- The conditions under which a tick computes the exact quotient. -/
structure Notes.Regular (notes : Notes) : Prop where
  apart : 1 ≤ notes.duration
  few : notes.pulses ≤ 252
  prompt : notes.idle % 2 ^ 32 ≤ 3
  wrapless : notes.Wrapped → 2 ≤ notes.duration ∧
    notes.energy / (notes.duration - 1) = notes.energy / notes.duration

theorem quotient_exact_iff (counted : 2 ≤ notes.pulses) (short : 1000 * notes.duration < 2 ^ 32) :
    (notes.divisor ≠ 0 ∧ 1 ≤ notes.duration ∧
      notes.energy % 2 ^ 32 / notes.divisor = notes.energy / notes.duration) ↔ notes.Regular := by
  have energy : 17100000 ≤ notes.energy := by
    unfold Notes.energy
    omega
  by_cases few : notes.pulses ≤ 252
  · have whole : notes.energy % 2 ^ 32 = notes.energy := by
      unfold Notes.energy
      omega
    rw [whole]
    by_cases prompt : notes.idle % 2 ^ 32 ≤ 3
    · rw [Notes.divisor, if_neg (Nat.not_lt.mpr prompt)]
      by_cases wrapped : notes.Wrapped
      · rw [if_pos wrapped]
        constructor
        · intro exact
          obtain ⟨divides, apart, same⟩ := exact
          exact ⟨apart, few, prompt, fun _ => ⟨by omega, same⟩⟩
        · intro regular
          obtain ⟨several, same⟩ := regular.wrapless wrapped
          exact ⟨by omega, regular.apart, same⟩
      · rw [if_neg wrapped]
        constructor
        · intro exact
          exact ⟨exact.2.1, few, prompt, fun again => absurd again wrapped⟩
        · intro regular
          have apart := regular.apart
          exact ⟨by omega, apart, rfl⟩
    · rw [Notes.divisor, if_pos (Nat.not_le.mp prompt)]
      constructor
      · intro exact
        have large : 4294967 ≤ notes.energy := by omega
        have less := late_quotient_lt large short exact.2.1
        exact absurd exact.2.2 (Nat.ne_of_lt less)
      · intro regular
        exact absurd regular.prompt prompt
  · constructor
    · intro exact
      obtain ⟨divides, apart, same⟩ := exact
      have near : notes.duration ≤ notes.divisor + 1 := by
        unfold Notes.divisor
        split_ifs <;> omega
      have less : notes.energy % 2 ^ 32 / notes.divisor < notes.energy / notes.duration := by
        apply cut_quotient_lt _ (Nat.mod_lt _ (by decide)) _ short apart (Nat.pos_of_ne_zero divides) near
        · unfold Notes.energy
          omega
        · unfold Notes.energy
          omega
      exact absurd same (Nat.ne_of_lt less)
    · intro regular
      exact absurd regular.few few

/-- A count of pulses beyond 32 bits asks for a power beyond 32 bits. -/
theorem overflowing_quotient (counted : 2 ^ 32 ≤ notes.pulses) (short : 1000 * notes.duration < 2 ^ 32)
    (apart : 1 ≤ notes.duration) : 2 ^ 32 ≤ notes.energy / notes.duration := by
  apply (Nat.le_div_iff_mul_le apart).mpr
  unfold Notes.energy
  omega

/-- A tick that publishes has a divisor and gives the exact power. -/
def PublishesExactly (current : Metering × Notes) : MeterEvent → Prop
  | .tick => Publishes current.1 → ∃ next, current.1.step .tick = .ok next ∧ 1 ≤ current.2.duration ∧
      next.meter.power.toNat = current.2.energy / current.2.duration
  | _ => True

/-- The microseconds between the first and the last pulse fit into 32 bits. -/
def Short (current : Metering × Notes) : MeterEvent → Prop
  | .tick => Publishes current.1 → 1000 * current.2.duration < 2 ^ 32
  | _ => True

def RegularTick (current : Metering × Notes) : MeterEvent → Prop
  | .tick => Publishes current.1 → current.2.Regular
  | _ => True

theorem tick_publishes (publishes : Publishes metering) :
    metering.step .tick =
      if metering.meter.timer = 0 then .error .divisionByZero
      else .ok { metering with meter := { metering.meter with
        power := 17100000 * (metering.meter.timerIrqCount - 1) / metering.meter.timer
        timerCount := 0
        timerIrqCount := 0 } } := by
  have counted : metering.meter.timerIrqCount > 1 := publishes
  rw [Metering.step, PowerMeter.powerTimerHandler, if_pos counted]
  split <;> rfl

theorem publishes_exactly_iff (tracks : Tracks metering notes) (publishes : Publishes metering)
    (short : 1000 * notes.duration < 2 ^ 32) :
    (∃ next, metering.step .tick = .ok next ∧ 1 ≤ notes.duration ∧
      next.meter.power.toNat = notes.energy / notes.duration) ↔ notes.Regular := by
  have counted : 2 ≤ notes.pulses := by
    unfold Publishes at publishes
    rw [tracks.pulses, UInt32.lt_iff_toNat_lt, UInt32.toNat_ofNat'] at publishes
    have low : notes.pulses % 2 ^ 32 ≤ notes.pulses := Nat.mod_le _ _
    exact Nat.lt_of_lt_of_le publishes low
  rw [tick_publishes publishes]
  by_cases small : notes.pulses < 2 ^ 32
  · have timer := timer_divisor tracks (by omega) small short
    have zero : metering.meter.timer = 0 ↔ notes.divisor = 0 := by
      rw [← timer, ← UInt32.toNat_inj]
      rfl
    have product : (17100000 * (metering.meter.timerIrqCount - 1) : UInt32).toNat = notes.energy % 2 ^ 32 := by
      rw [tracks.pulses, UInt32.toNat_mul, UInt32.toNat_sub, UInt32.toNat_ofNat', Notes.energy]
      change 17100000 * ((2 ^ 32 - 1 + notes.pulses % 2 ^ 32) % 2 ^ 32) % 2 ^ 32 = _
      omega
    rw [← quotient_exact_iff counted short]
    split
    next none =>
      constructor
      · intro published
        obtain ⟨next, ran, -⟩ := published
        cases ran
      · intro exact
        exact absurd (zero.mp none) exact.1
    next some =>
      constructor
      · intro published
        obtain ⟨next, ran, apart, same⟩ := published
        cases ran
        rw [UInt32.toNat_div, product, timer] at same
        exact ⟨mt zero.mpr some, apart, same⟩
      · intro exact
        refine ⟨_, rfl, exact.2.1, ?_⟩
        rw [UInt32.toNat_div, product, timer]
        exact exact.2.2
  · constructor
    · intro published
      obtain ⟨next, -, apart, same⟩ := published
      have beyond := overflowing_quotient (Nat.not_lt.mp small) short apart
      have bound := next.meter.power.toNat_lt
      omega
    · intro regular
      have few := regular.few
      omega

/-- In every run the ticks that publish are exact if and only if each of them finds a regular measurement. -/
theorem published_power_exact_iff {now : Nat} {events : List MeterEvent}
    (short : Runs.Meets (Runs.observed Metering.step note) Short (.start now, .start) events) :
    Runs.Meets (Runs.observed Metering.step note) PublishesExactly (.start now, .start) events ↔
      Runs.Meets (Runs.observed Metering.step note) RegularTick (.start now, .start) events := by
  apply Runs.meets_congr (fun current => Tracks current.1 current.2) (tracks_start now) short
  · intro current event next tracks stepped
    obtain ⟨stepped, same⟩ := Runs.observed_ok.mp stepped
    rw [same]
    exact tracks_step tracks stepped
  · intro current event tracks brief
    cases event with
    | elapse milliseconds => exact Iff.rfl
    | pulse => exact Iff.rfl
    | tick =>
      constructor
      · intro publishes published
        exact (publishes_exactly_iff tracks published (brief published)).mp (publishes published)
      · intro regular published
        exact (publishes_exactly_iff tracks published (brief published)).mpr (regular published)

/-- Two pulses, a second apart; the 32-bit count of microseconds starts anew between them. -/
def wrappingPulses : List MeterEvent := [.pulse, .elapse 1000, .pulse]

/-- What the meter and the observer hold after them. -/
def afterWrap : Metering × Notes := (⟨4295967, ⟨4294967000, 999704, 0, 2, 0⟩⟩, ⟨2, 4294967, 4295967, 0⟩)

theorem wrappingPulses_run :
    Runs.run (Runs.observed Metering.step note) (.start 4294967, .start) wrappingPulses = .ok afterWrap := rfl

theorem wrappingPulses_short : Runs.Meets (Runs.observed Metering.step note) Short (.start 4294967, .start)
    (wrappingPulses ++ [.tick]) := by
  apply Runs.meets_append.mpr
  constructor
  · apply Runs.Meets.of_events
    intro current event member
    simp only [wrappingPulses, List.mem_cons, List.not_mem_nil, or_false] at member
    rcases member with rfl | rfl | rfl <;> trivial
  · intro middle reached
    cases wrappingPulses_run.symm.trans reached
    exact ⟨fun _ => by decide, fun _ _ => trivial⟩

theorem published_power_exact_iff_wrapping :
    Runs.Meets (Runs.observed Metering.step note) PublishesExactly (.start 4294967, .start)
        (wrappingPulses ++ [.tick]) ↔
      Runs.Meets (Runs.observed Metering.step note) RegularTick (.start 4294967, .start) (wrappingPulses ++ [.tick]) :=
  published_power_exact_iff wrappingPulses_short

/-- The tick divides by 999 instead of 1000. -/
theorem wrapped_power_wrong : ¬ ∀ (now : Nat) (events : List MeterEvent),
    Runs.Meets (Runs.observed Metering.step note) Short (.start now, .start) events →
    Runs.Meets (Runs.observed Metering.step note) PublishesExactly (.start now, .start) events := by
  intro assumed
  have exact := Runs.meets_iff.mp (assumed 4294967 _ wrappingPulses_short) wrappingPulses .tick [] afterWrap rfl
    wrappingPulses_run
  obtain ⟨next, ran, -, same⟩ := exact (by decide)
  have published : Metering.step afterWrap.1 .tick = .ok ⟨4295967, ⟨4294967000, 999704, 0, 0, 17117⟩⟩ := rfl
  cases published.symm.trans ran
  revert same
  decide

end PhicommTC1.Proofs.PowerReading
