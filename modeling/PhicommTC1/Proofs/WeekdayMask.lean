import PhicommTC1.Foundation.Calendar
import PhicommTC1.UserRtc

/-! Repeating tasks and the weekday mask. The library counts the week from Sunday, the mask from Monday. -/

namespace PhicommTC1.Proofs.WeekdayMask
open Calendar PhicommTC1

/-- `rtctimes` is the epoch time and the device lives eight hours ahead of it. -/
def zone : Int := 28800

theorem gmtime_moment (now : Moment) : gmtime now.seconds =
    ⟨now.second, now.minute, now.hour, (now.weekday.fromMonday + 1) % 7⟩ := by
  have monday := Weekday.fromMonday_ofDay now.day
  have wday : ((now.seconds / 86400 + 4) % 7).toNat = (now.weekday.fromMonday + 1) % 7 := by
    rw [now.seconds_day, Moment.weekday]
    omega
  simp only [gmtime, now.seconds_second, now.seconds_minute, now.seconds_hour, wday]

theorem handler_time {clock : Clock} {now : Moment}
    (bound : (rtctimeTimeoutHandler clock).rtctimes.toInt + zone < 2 ^ 31)
    (shown : now.seconds = (rtctimeTimeoutHandler clock).rtctimes.toInt + zone) :
    (rtctimeTimeoutHandler clock).userTime = gmtime now.seconds := by
  have low := Int32.le_toInt (rtctimeTimeoutHandler clock).rtctimes
  have sum : ((rtctimeTimeoutHandler clock).rtctimes + 8 * 3600).toInt = now.seconds := by
    rw [shown, Int32.toInt_add]
    change Int.bmod (_ + 28800) (2 ^ 32) = _
    rw [Int.bmod_eq_of_le (by simp only [zone] at *; omega) (by simp only [zone] at *; omega)]
    rfl
  rw [← sum]
  rfl

/-- The shift meets the bit of the day, but for Sunday, where nothing is left of it. -/
theorem shiftOne_weekday (weekday : Weekday) :
    shiftOne ((((weekday.fromMonday + 1) % 7 : Nat) : Int) - 1) =
      if weekday = .sunday then 0 else 2 ^ weekday.fromMonday := by
  cases weekday <;> decide

theorem and_two_pow_ne_zero (mask bit : Nat) : mask &&& 2 ^ bit ≠ 0 ↔ mask.testBit bit = true := by
  constructor
  · intro nonzero
    obtain ⟨place, set⟩ := Nat.exists_testBit_of_ne_zero nonzero
    rw [Nat.testBit_and, Nat.testBit_two_pow, Bool.and_eq_true, decide_eq_true_eq] at set
    rw [set.2]
    exact set.1
  · intro set zero
    have kept := congrArg (Nat.testBit · bit) zero
    simp [Nat.testBit_and, Nat.testBit_two_pow_self, set] at kept

/-- The task's bit for the day is set. -/
def Marks (task : UserPlugTaskConfig) (weekday : Weekday) : Prop :=
  task.repeats.toNat.testBit weekday.fromMonday = true

/-- It is the full minute the task is set to. -/
def AtItsMinute (task : UserPlugTaskConfig) (now : Moment) : Prop :=
  now.hour = task.hour.toNat ∧ now.minute = task.minute.toNat ∧ now.second = 0

theorem due_moment {task : UserPlugTaskConfig} {now : Moment} (enabled : task.on ≠ 0) (repeating : task.repeats ≠ 0) :
    task.due (gmtime now.seconds) = true ↔
      AtItsMinute task now ∧ now.weekday ≠ .sunday ∧ Marks task now.weekday := by
  have masked : task.repeats.toNat &&& shiftOne ((((now.weekday.fromMonday + 1) % 7 : Nat) : Int) - 1) ≠ 0 ↔
      now.weekday ≠ .sunday ∧ Marks task now.weekday := by
    rw [shiftOne_weekday, Marks]
    by_cases sunday : now.weekday = .sunday
    · simp [sunday]
    · rw [if_neg sunday, and_two_pow_ne_zero]
      simp [sunday]
  rw [gmtime_moment]
  simp only [UserPlugTaskConfig.due, AtItsMinute, Bool.and_eq_true, Bool.or_eq_true, bne_iff_ne, beq_iff_eq, ne_eq,
    enabled, repeating, not_false_eq_true, false_or, true_and]
  rw [← ne_eq, masked]
  constructor
  · intro due
    obtain ⟨⟨⟨second, minute⟩, hour⟩, marked⟩ := due
    exact ⟨⟨hour, minute, second⟩, marked⟩
  · intro due
    obtain ⟨⟨hour, minute, second⟩, marked⟩ := due
    exact ⟨⟨⟨second, minute⟩, hour⟩, marked⟩

/-- A pass follows the mask exactly when it does not come at the minute of a task marked for a Sunday. -/
theorem mask_followed_iff {clock : Clock} {now : Moment} {task : UserPlugTaskConfig}
    (bound : (rtctimeTimeoutHandler clock).rtctimes.toInt + zone < 2 ^ 31)
    (shown : now.seconds = (rtctimeTimeoutHandler clock).rtctimes.toInt + zone)
    (enabled : task.on ≠ 0) (marked : ∃ weekday, Marks task weekday) :
    (task.due (rtctimeTimeoutHandler clock).userTime = true ↔ AtItsMinute task now ∧ Marks task now.weekday) ↔
      ¬ (now.weekday = .sunday ∧ AtItsMinute task now ∧ Marks task .sunday) := by
  have repeating : task.repeats ≠ 0 := by
    intro zero
    obtain ⟨weekday, bit⟩ := marked
    simp [Marks, zero] at bit
  rw [handler_time bound shown, due_moment enabled repeating]
  constructor
  · intro follows missed
    obtain ⟨sunday, minute, bit⟩ := missed
    exact (follows.mpr ⟨minute, sunday ▸ bit⟩).2.1 sunday
  · intro other
    constructor
    · intro due
      exact ⟨due.1, due.2.2⟩
    · intro due
      refine ⟨due.1, ?_, due.2⟩
      intro sunday
      exact other ⟨sunday, due.1, sunday ▸ due.2⟩

/-- Eight o'clock on Sunday, 6 January 2019, and the clock a second before it. -/
def sundayMorning : Moment := ⟨17902, 8, 0, 0, by decide, by decide, by decide⟩

def beforeSundayMorning : Clock := ⟨1546732799, gmtime startTime, true⟩

def sundayTask : UserPlugTaskConfig := { hour := 8, minute := 0, repeats := 64, action := 1, on := 1 }

theorem mask_followed_iff_sunday :
    (sundayTask.due (rtctimeTimeoutHandler beforeSundayMorning).userTime = true ↔
      AtItsMinute sundayTask sundayMorning ∧ Marks sundayTask sundayMorning.weekday) ↔
      ¬ (sundayMorning.weekday = .sunday ∧ AtItsMinute sundayTask sundayMorning ∧ Marks sundayTask .sunday) :=
  mask_followed_iff (by decide) (by decide) (by decide) ⟨.sunday, by unfold Marks; decide⟩

/-- On a Sunday the count of the shift is -1, and no task is due. -/
theorem sunday_task_missed :
    ¬ ∀ (clock : Clock) (now : Moment) (task : UserPlugTaskConfig),
      0 ≤ (rtctimeTimeoutHandler clock).rtctimes.toInt →
      (rtctimeTimeoutHandler clock).rtctimes.toInt + zone < 2 ^ 31 →
      now.seconds = (rtctimeTimeoutHandler clock).rtctimes.toInt + zone →
      task.on ≠ 0 → (∃ weekday, Marks task weekday) →
      (task.due (rtctimeTimeoutHandler clock).userTime = true ↔ AtItsMinute task now ∧ Marks task now.weekday) := by
  intro assumed
  have follows := assumed beforeSundayMorning sundayMorning sundayTask (by decide) (by decide) (by decide) (by decide)
    ⟨.sunday, by unfold Marks; decide⟩
  have marked : Marks sundayTask sundayMorning.weekday := by unfold Marks; decide
  have due := follows.mpr ⟨⟨rfl, rfl, rfl⟩, marked⟩
  revert due
  decide

end PhicommTC1.Proofs.WeekdayMask
