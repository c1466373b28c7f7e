import Mathlib.Data.List.Induction

/-! Runs of a deterministic step function that may fail. A run is the list of events
that drove it; the rules below carry a property of one step to every state a run visits. -/

namespace Runs

variable {σ : Type*} {ε : Type*} {φ : Type*} (step : σ → ε → Except φ σ)

def run (state : σ) : List ε → Except φ σ
  | [] => .ok state
  | event :: events => (step state event).bind fun next => run next events

/-- The property holds in every state the events pass through, the first and the last included. -/
def Along (property : σ → Prop) (state : σ) : List ε → Prop
  | [] => property state
  | event :: events => property state ∧ ∀ next, step state event = .ok next → Along property next events

/-- Every event meets the condition in the state in which it arrives. -/
def Meets (condition : σ → ε → Prop) (state : σ) : List ε → Prop
  | [] => True
  | event :: events => condition state event ∧ ∀ next, step state event = .ok next → Meets condition next events

def Occurs (condition : σ → ε → Prop) (state : σ) : List ε → Prop
  | [] => False
  | event :: events => condition state event ∨ ∃ next, step state event = .ok next ∧ Occurs condition next events

def total (weight : σ → ε → Nat) (state : σ) : List ε → Nat
  | [] => 0
  | event :: events => weight state event +
      match step state event with
      | .ok next => total weight next events
      | .error _ => 0

variable {step} {property : σ → Prop} {condition : σ → ε → Prop} {state last : σ} {events : List ε}

theorem bind_ok {α β : Type*} {computation : Except φ α} {next : α → Except φ β} {value : β} :
    computation.bind next = .ok value ↔ ∃ middle, computation = .ok middle ∧ next middle = .ok value := by
  cases computation <;> simp [Except.bind]

theorem map_ok {α β : Type*} {computation : Except φ α} {f : α → β} {value : β} :
    computation.map f = .ok value ↔ ∃ result, computation = .ok result ∧ f result = value := by
  cases computation <;> simp [Except.map]

theorem run_cons {event : ε} :
    run step state (event :: events) = .ok last ↔
      ∃ next, step state event = .ok next ∧ run step next events = .ok last :=
  bind_ok

theorem run_append {first rest : List ε} :
    run step state (first ++ rest) = .ok last ↔
      ∃ middle, run step state first = .ok middle ∧ run step middle rest = .ok last := by
  induction first generalizing state with
  | nil => simp [run]
  | cons event first ih =>
    simp only [List.cons_append, run_cons, ih]
    constructor
    · intro whole
      obtain ⟨next, stepped, middle, before, after⟩ := whole
      exact ⟨middle, ⟨next, stepped, before⟩, after⟩
    · intro parts
      obtain ⟨middle, ⟨next, stepped, before⟩, after⟩ := parts
      exact ⟨next, stepped, middle, before, after⟩

/-- `Along` is about the states that the prefixes of the run reach. -/
theorem along_iff : Along step property state events ↔
    ∀ first rest middle, events = first ++ rest → run step state first = .ok middle → property middle := by
  induction events generalizing state with
  | nil =>
    constructor
    · intro holds first rest middle split reached
      obtain ⟨rfl, rfl⟩ := List.append_eq_nil_iff.mp split.symm
      cases reached
      exact holds
    · intro holds
      exact holds [] [] state rfl rfl
  | cons event events ih =>
    constructor
    · intro holds first rest middle split reached
      cases first with
      | nil => cases reached; exact holds.1
      | cons head first =>
        obtain ⟨rfl, tail⟩ := List.cons.inj split
        obtain ⟨next, stepped, reached⟩ := run_cons.mp reached
        exact ih.mp (holds.2 next stepped) first rest middle tail reached
    · intro holds
      refine ⟨holds [] _ state rfl rfl, ?_⟩
      intro next stepped
      apply ih.mpr
      intro first rest middle split reached
      exact holds (event :: first) rest middle (by rw [split, List.cons_append])
        (run_cons.mpr ⟨next, stepped, reached⟩)

theorem meets_iff : Meets step condition state events ↔
    ∀ first event rest middle, events = first ++ event :: rest → run step state first = .ok middle →
      condition middle event := by
  induction events generalizing state with
  | nil => simp [Meets]
  | cons head events ih =>
    constructor
    · intro holds first event rest middle split reached
      cases first with
      | nil =>
        obtain ⟨rfl, -⟩ := List.cons.inj split
        cases reached
        exact holds.1
      | cons other first =>
        obtain ⟨rfl, tail⟩ := List.cons.inj split
        obtain ⟨next, stepped, reached⟩ := run_cons.mp reached
        exact ih.mp (holds.2 next stepped) first event rest middle tail reached
    · intro holds
      refine ⟨holds [] head events state rfl rfl, ?_⟩
      intro next stepped
      apply ih.mpr
      intro first event rest middle split reached
      exact holds (head :: first) event rest middle (by rw [split, List.cons_append])
        (run_cons.mpr ⟨next, stepped, reached⟩)

theorem meets_append {first rest : List ε} : Meets step condition state (first ++ rest) ↔
    Meets step condition state first ∧
      ∀ middle, run step state first = .ok middle → Meets step condition middle rest := by
  induction first generalizing state with
  | nil => simp [Meets, run]
  | cons event first ih =>
    simp only [List.cons_append, Meets, ih, run_cons]
    constructor
    · intro whole
      refine ⟨⟨whole.1, fun next stepped => (whole.2 next stepped).1⟩, ?_⟩
      intro middle reached
      obtain ⟨next, stepped, reached⟩ := reached
      exact (whole.2 next stepped).2 middle reached
    · intro parts
      obtain ⟨⟨here, later⟩, after⟩ := parts
      refine ⟨here, ?_⟩
      intro next stepped
      exact ⟨later next stepped, fun middle reached => after middle ⟨next, stepped, reached⟩⟩

theorem Along.final (holds : Along step property state events)
    (reached : run step state events = .ok last) : property last :=
  along_iff.mp holds events [] last (by simp) reached

theorem Meets.along (property : σ → Prop) (conforms : Meets step condition state events) (start : property state)
    (keeps : ∀ current event next, property current → condition current event →
      step current event = .ok next → property next) : Along step property state events := by
  induction events generalizing state with
  | nil => exact start
  | cons event events ih =>
    refine ⟨start, ?_⟩
    intro next stepped
    apply ih (conforms.2 next stepped)
    exact keeps state event next start conforms.1 stepped

theorem Meets.of_events (holds : ∀ current event, event ∈ events → condition current event) :
    Meets step condition state events := by
  apply meets_iff.mpr
  intro first event rest middle split reached
  exact holds middle event (by simp [split])

/-- Two conditions that come to the same in every state the invariant allows come to the same along a run. -/
theorem meets_congr {assumption other : σ → ε → Prop} (invariant : σ → Prop) (valid : invariant state)
    (assumed : Meets step assumption state events)
    (maintains : ∀ current event next, invariant current → step current event = .ok next → invariant next)
    (same : ∀ current event, invariant current → assumption current event →
      (condition current event ↔ other current event)) :
    Meets step condition state events ↔ Meets step other state events := by
  induction events generalizing state with
  | nil => exact Iff.rfl
  | cons event events ih =>
    have here := same state event valid assumed.1
    have rest (next : σ) (stepped : step state event = .ok next) :=
      ih (maintains state event next valid stepped) (assumed.2 next stepped)
    constructor
    · intro holds
      exact ⟨here.mp holds.1, fun next stepped => (rest next stepped).mp (holds.2 next stepped)⟩
    · intro holds
      exact ⟨here.mpr holds.1, fun next stepped => (rest next stepped).mpr (holds.2 next stepped)⟩

theorem always (property : σ → Prop) (start : property state)
    (keeps : ∀ current event next, property current → step current event = .ok next → property next) :
    Along step property state events := by
  have unconditional : Meets step (fun _ _ => True) state events := Meets.of_events fun _ _ _ => trivial
  apply unconditional.along property start
  intro current event next holds _ stepped
  exact keeps current event next holds stepped

/-- Where a step keeps the property exactly when it meets the condition, a completed run
keeps the property throughout exactly when all of its steps meet the condition. -/
theorem along_iff_meets (invariant : σ → Prop) (reached : run step state events = .ok last)
    (valid : invariant state) (start : property state)
    (maintains : ∀ current event next, invariant current → property current → event ∈ events →
      step current event = .ok next → invariant next)
    (exactly : ∀ current event next, invariant current → property current → event ∈ events →
      step current event = .ok next → (property next ↔ condition current event)) :
    Along step property state events ↔ Meets step condition state events := by
  induction events generalizing state with
  | nil => exact ⟨fun _ => trivial, fun _ => start⟩
  | cons event events ih =>
    obtain ⟨next, stepped, reached⟩ := run_cons.mp reached
    have same := exactly state event next valid start (by simp) stepped
    have rest (kept : property next) :
        Along step property next events ↔ Meets step condition next events := by
      apply ih reached (maintains state event next valid start (by simp) stepped) kept
      · intro current event next valid holds member
        exact maintains current event next valid holds (by simp [member])
      · intro current event next valid holds member
        exact exactly current event next valid holds (by simp [member])
    constructor
    · intro along
      have kept : property next := along_iff.mp (along.2 next stepped) [] events next rfl rfl
      refine ⟨same.mp kept, ?_⟩
      intro other again
      cases stepped.symm.trans again
      exact (rest kept).mp (along.2 next stepped)
    · intro conforms
      refine ⟨start, ?_⟩
      intro other again
      cases stepped.symm.trans again
      exact (rest (same.mpr conforms.1)).mpr (conforms.2 next stepped)

/-- What holds of the events so far and the state they led to, when every step extends it. -/
theorem history (property : List ε → σ → Prop) (start : property [] state)
    (keeps : ∀ first event current next, property first current → step current event = .ok next →
      property (first ++ [event]) next)
    (reached : run step state events = .ok last) : property events last := by
  induction events using List.reverseRecOn generalizing last with
  | nil => cases reached; exact start
  | append_singleton events event ih =>
    obtain ⟨middle, before, after⟩ := run_append.mp reached
    obtain ⟨next, stepped, done⟩ := run_cons.mp after
    cases done
    exact keeps events event middle _ (ih before) stepped

/-- Where every step from a state with the property is defined and keeps it, so is every run. -/
theorem completes (property : σ → Prop) (holds : property state)
    (defined : ∀ current, ∀ event ∈ events, property current →
      ∃ next, step current event = .ok next ∧ property next) :
    ∃ last, run step state events = .ok last ∧ property last := by
  induction events generalizing state with
  | nil => exact ⟨state, rfl, holds⟩
  | cons event events ih =>
    obtain ⟨next, stepped, kept⟩ := defined state event (by simp) holds
    obtain ⟨last, ran, final⟩ := ih kept fun current other member => defined current other (by simp [member])
    exact ⟨last, run_cons.mpr ⟨next, stepped, ran⟩, final⟩

theorem total_cons {weight : σ → ε → Nat} {event : ε} {next : σ} (stepped : step state event = .ok next) :
    total step weight state (event :: events) = weight state event + total step weight next events := by
  simp only [total, stepped]

/-- Accounting: what a run spends is covered by what it earns plus the credit it starts with,
when every single step leaves a credit that covers its own spending. -/
theorem total_le_total (spent earned : σ → ε → Nat) (credit : σ → Nat)
    (covered : ∀ current event next, condition current event → step current event = .ok next →
      spent current event + credit next ≤ earned current event + credit current)
    (conforms : Meets step condition state events)
    (reached : run step state events = .ok last) :
    total step spent state events + credit last ≤ total step earned state events + credit state := by
  induction events generalizing state with
  | nil => cases reached; simp [total]
  | cons event events ih =>
    obtain ⟨next, stepped, reached⟩ := run_cons.mp reached
    have balance := covered state event next conforms.1 stepped
    have rest := ih (conforms.2 next stepped) reached
    rw [total_cons stepped, total_cons stepped]
    omega

section Observed
variable {ω : Type*} {note : σ → ω → ε → σ → ω}

/-- An observer takes notes along a run and does not disturb it. -/
def observed (step : σ → ε → Except φ σ) (note : σ → ω → ε → σ → ω) (state : σ × ω) (event : ε) : Except φ (σ × ω) :=
  (step state.1 event).map fun next => (next, note state.1 state.2 event next)

theorem observed_ok {state next : σ} {notes after : ω} {event : ε} :
    observed step note (state, notes) event = .ok (next, after) ↔
      step state event = .ok next ∧ after = note state notes event next := by
  rw [observed, map_ok]
  constructor
  · intro both
    obtain ⟨result, stepped, same⟩ := both
    cases same
    exact ⟨stepped, rfl⟩
  · intro both
    obtain ⟨stepped, rfl⟩ := both
    exact ⟨next, stepped, rfl⟩

theorem run_observed (note : σ → ω → ε → σ → ω) {state last : σ} {events : List ε} (notes : ω)
    (reached : run step state events = .ok last) :
    ∃ final, run (observed step note) (state, notes) events = .ok (last, final) := by
  induction events generalizing state notes with
  | nil => cases reached; exact ⟨notes, rfl⟩
  | cons event events ih =>
    obtain ⟨next, stepped, reached⟩ := run_cons.mp reached
    obtain ⟨final, ran⟩ := ih (note state notes event next) reached
    exact ⟨final, run_cons.mpr ⟨_, observed_ok.mpr ⟨stepped, rfl⟩, ran⟩⟩

theorem run_of_observed {state last : σ} {events : List ε} {notes final : ω}
    (ran : run (observed step note) (state, notes) events = .ok (last, final)) : run step state events = .ok last := by
  induction events generalizing state notes with
  | nil => cases ran; rfl
  | cons event events ih =>
    obtain ⟨⟨next, after⟩, stepped, ran⟩ := run_cons.mp ran
    exact run_cons.mpr ⟨next, (observed_ok.mp stepped).1, ih ran⟩

/-- A condition on the steps of a run can be stated on what an observer has noted, where an
invariant of state and notes ties the two together. -/
theorem meets_observed {assumption condition : σ → ε → Prop} {noted : σ × ω → ε → Prop} (invariant : σ → ω → Prop)
    {state : σ} {events : List ε} {notes : ω} (valid : invariant state notes)
    (assumed : Meets step assumption state events)
    (maintains : ∀ current notes event next, invariant current notes → assumption current event →
      step current event = .ok next → invariant next (note current notes event next))
    (same : ∀ current notes event, invariant current notes → assumption current event →
      (condition current event ↔ noted (current, notes) event)) :
    Meets step condition state events ↔ Meets (observed step note) noted (state, notes) events := by
  induction events generalizing state notes with
  | nil => exact Iff.rfl
  | cons event events ih =>
    have here := same state notes event valid assumed.1
    have rest (next : σ) (stepped : step state event = .ok next) :=
      ih (maintains state notes event next valid assumed.1 stepped) (assumed.2 next stepped)
    constructor
    · intro holds
      refine ⟨here.mp holds.1, ?_⟩
      intro after stepped
      obtain ⟨stepped, same⟩ := observed_ok.mp stepped
      rw [show after = (after.1, after.2) from rfl, same]
      exact (rest after.1 stepped).mp (holds.2 after.1 stepped)
    · intro holds
      refine ⟨here.mpr holds.1, ?_⟩
      intro next stepped
      exact (rest next stepped).mpr (holds.2 _ (observed_ok.mpr ⟨stepped, rfl⟩))

end Observed

section Viewed
variable {ι : Type*} (step) (shows : σ → ε → Option ι)

/-- What a run shows a part of the state, in order. -/
def shown (state : σ) : List ε → List ι
  | [] => []
  | event :: events => (shows state event).toList ++
      match step state event with
      | .ok next => shown next events
      | .error _ => []

variable {step} {shows}

theorem shown_cons {event : ε} {next : σ} (stepped : step state event = .ok next) :
    shown step shows state (event :: events) = (shows state event).toList ++ shown step shows next events := by
  simp only [shown, stepped]

/-- A part that every step changes by what it shows it ends where that part ends by itself. -/
theorem view_run {α : Type*} (view : σ → α) (act : α → ι → α) (conforms : Meets step condition state events)
    (each : ∀ current event next, condition current event → step current event = .ok next →
      view next = (shows current event).toList.foldl act (view current))
    (reached : run step state events = .ok last) :
    view last = (shown step shows state events).foldl act (view state) := by
  induction events generalizing state with
  | nil =>
    cases reached
    rfl
  | cons event events ih =>
    obtain ⟨next, stepped, reached⟩ := run_cons.mp reached
    rw [ih (conforms.2 next stepped) reached, each state event next conforms.1 stepped, shown_cons stepped,
      List.foldl_append]

end Viewed

end Runs
