/-! Computations that cannot end in one particular fault, rule by rule. -/

namespace Faults
variable {φ α β : Type} {fault : φ}

def Avoids (fault : φ) (computation : Except φ α) : Prop := computation ≠ .error fault

theorem Avoids.ok (value : α) : Avoids fault (.ok value) := nofun

theorem Avoids.other {raised : φ} (different : raised ≠ fault) : Avoids fault (.error raised : Except φ α) := by
  intro same
  exact different (Except.error.inj same)

theorem Avoids.bind {computation : Except φ α} {next : α → Except φ β} (first : Avoids fault computation)
    (rest : ∀ value, computation = .ok value → Avoids fault (next value)) : Avoids fault (computation >>= next) := by
  cases computation with
  | error raised => exact .other fun same => first (congrArg Except.error same)
  | ok value => exact rest value rfl

theorem Avoids.foldlM {body : β → α → Except φ β} (each : ∀ value index, Avoids fault (body value index))
    (items : List α) (start : β) : Avoids fault (items.foldlM body start) := by
  induction items generalizing start with
  | nil => exact .ok start
  | cons index items ih => exact (each start index).bind fun next _ => ih next

/-- A computation that raises the fault raises it whatever would come next. -/
theorem bind_raises {computation : Except φ α} (raises : computation = .error fault) (next : α → Except φ β) :
    (computation >>= next) = .error fault := by
  rw [raises]
  rfl

/-- Where a sequence of two has a result, when the second does not depend on what the first gives. -/
theorem bind_defined_iff {computation : Except φ α} {next : α → Except φ β} {first second : Prop}
    (starts : (∃ value, computation = .ok value) ↔ first)
    (continues : ∀ value, (∃ result, next value = .ok result) ↔ second) :
    (∃ result, (computation >>= next) = .ok result) ↔ first ∧ second := by
  rw [← starts]
  cases computation with
  | error raised =>
    constructor
    · intro defined
      obtain ⟨result, ran⟩ := defined
      cases ran
    · intro both
      obtain ⟨⟨value, same⟩, -⟩ := both
      cases same
  | ok value =>
    rw [← continues value]
    constructor
    · intro defined
      exact ⟨⟨value, rfl⟩, defined⟩
    · intro both
      exact both.2

end Faults
