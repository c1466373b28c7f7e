import Mathlib.Data.List.Basic
import Mathlib.Logic.Function.Basic

/-! A store of named fields driven by messages. A message may set some fields and says nothing
about the others, so every field ends with the value of the last message that sets it. -/

namespace LastWriter

variable {μ : Type*} {κ : Type*} {ν : κ → Type*} (writes : μ → (field : κ) → Option (ν field))

def deliver (store : (field : κ) → ν field) (message : μ) : (field : κ) → ν field :=
  fun field => (writes message field).getD (store field)

/-- The value of the last message of the list that sets the field. -/
def last (messages : List μ) (field : κ) : Option (ν field) :=
  (messages.filterMap fun message => writes message field).getLast?

variable {writes}

theorem last_cons (message : μ) (messages : List μ) (field : κ) :
    last writes (message :: messages) field = (last writes messages field).or (writes message field) := by
  unfold last
  cases head : writes message field with
  | none => simp [head]
  | some value =>
    rw [List.filterMap_cons_some head, List.getLast?_cons]
    cases (messages.filterMap fun message => writes message field).getLast? <;> rfl

theorem foldl_deliver (messages : List μ) (store : (field : κ) → ν field) (field : κ) :
    messages.foldl (deliver writes) store field = (last writes messages field).getD (store field) := by
  induction messages generalizing store with
  | nil => rfl
  | cons message messages ih =>
    rw [List.foldl_cons, ih, last_cons]
    cases last writes messages field <;> rfl

variable [DecidableEq κ] {requests : (field : κ) → Option (ν field)}

def assign (requests : (field : κ) → Option (ν field)) (store : (field : κ) → ν field) (field : κ) :
    (field : κ) → ν field :=
  match requests field with
  | some value => Function.update store field value
  | none => store

theorem assign_none {store : (field : κ) → ν field} {field : κ} (silent : requests field = none) :
    assign requests store field = store := by
  simp only [assign, silent]

theorem assign_some {store : (field : κ) → ν field} {field : κ} {value : ν field}
    (asked : requests field = some value) : assign requests store field = Function.update store field value := by
  simp only [assign, asked]

theorem assign_apply (store : (field : κ) → ν field) (field target : κ) :
    assign requests store field target =
      if target = field then (requests target).getD (store target) else store target := by
  by_cases same : target = field
  · subst same
    cases asked : requests target <;> simp [assign, asked]
  · cases asked : requests field <;> simp [assign, asked, same]

theorem foldl_assign (fields : List κ) (store : (field : κ) → ν field) (target : κ) :
    fields.foldl (assign requests) store target =
      if target ∈ fields then (requests target).getD (store target) else store target := by
  induction fields generalizing store with
  | nil => rfl
  | cons field fields ih =>
    rw [List.foldl_cons, ih, assign_apply]
    by_cases same : target = field
    · subst same
      cases requests target <;> simp
    · simp [same]

/-- Once every field has had its turn the whole message is delivered. -/
theorem foldl_assign_complete {fields : List κ} (complete : ∀ field, field ∈ fields)
    (store : (field : κ) → ν field) :
    fields.foldl (assign requests) store = fun field => (requests field).getD (store field) := by
  funext target
  rw [foldl_assign, if_pos (complete target)]

end LastWriter
