import Mathlib.Tactic.IntervalCases

/-! Days and times of day as a count of seconds, and the week that runs through the days. -/

namespace Calendar

inductive Weekday where
  | monday
  | tuesday
  | wednesday
  | thursday
  | friday
  | saturday
  | sunday
  deriving DecidableEq

namespace Weekday

/-- The weekday so many days after 1 January 1970, a Thursday. -/
def ofDay (day : Int) : Weekday :=
  match (day % 7).toNat with
  | 0 => thursday
  | 1 => friday
  | 2 => saturday
  | 3 => sunday
  | 4 => monday
  | 5 => tuesday
  | _ => wednesday

/-- Numbered from zero for Monday to six for Sunday. -/
def fromMonday : Weekday → Nat
  | monday => 0
  | tuesday => 1
  | wednesday => 2
  | thursday => 3
  | friday => 4
  | saturday => 5
  | sunday => 6

theorem fromMonday_ofDay (day : Int) : ((ofDay day).fromMonday : Int) = (day + 3) % 7 := by
  have low := Int.emod_nonneg day (by decide : (7 : Int) ≠ 0)
  have high := Int.emod_lt_of_pos day (by decide : (0 : Int) < 7)
  obtain ⟨rest, remainder⟩ := Int.eq_ofNat_of_zero_le low
  have small : rest < 7 := by omega
  have shifted : (day + 3) % 7 = ((rest + 3) % 7 : Nat) := by omega
  rw [ofDay, remainder, shifted]
  interval_cases rest <;> rfl

/-- New Year's Day of 2019. -/
example : ofDay 17897 = tuesday := by decide

end Weekday

structure Moment where
  day : Int
  hour : Nat
  minute : Nat
  second : Nat
  hourBound : hour < 24
  minuteBound : minute < 60
  secondBound : second < 60

namespace Moment

def seconds (moment : Moment) : Int :=
  moment.day * 86400 + moment.hour * 3600 + moment.minute * 60 + moment.second

def weekday (moment : Moment) : Weekday := .ofDay moment.day

section
variable (moment : Moment)

theorem seconds_day : moment.seconds / 86400 = moment.day := by
  have := moment.hourBound
  have := moment.minuteBound
  have := moment.secondBound
  unfold seconds
  omega

theorem seconds_hour : (moment.seconds / 3600 % 24).toNat = moment.hour := by
  have := moment.hourBound
  have := moment.minuteBound
  have := moment.secondBound
  unfold seconds
  omega

theorem seconds_minute : (moment.seconds / 60 % 60).toNat = moment.minute := by
  have := moment.hourBound
  have := moment.minuteBound
  have := moment.secondBound
  unfold seconds
  omega

theorem seconds_second : (moment.seconds % 60).toNat = moment.second := by
  have := moment.secondBound
  unfold seconds
  omega

end

end Moment

end Calendar
