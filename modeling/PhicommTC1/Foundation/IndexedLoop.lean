import Mathlib.Data.List.Basic
import Mathlib.Order.Basic
import PhicommTC1.Foundation.Runs

/-! Loops over indices whose body works on the entry of its own index. After the loop
every entry has been worked on once, whatever the rest of the state went through. -/

namespace IndexedLoop

variable {ι : Type*} {σ : Type*} {α : Type*} {φ : Type*}

section Pure
variable {body : σ → ι → σ}

theorem foldl_keeps (property : σ → Prop) (keeps : ∀ state index, property state → property (body state index))
    {items : List ι} {state : σ} (holds : property state) : property (items.foldl body state) := by
  induction items generalizing state with
  | nil => exact holds
  | cons index items ih => exact ih (keeps state index holds)

/-- What the body brings about by itself holds after any loop that runs at all. -/
theorem foldl_establishes (property : σ → Prop) (establishes : ∀ state index, property (body state index))
    {items : List ι} (some : items ≠ []) (state : σ) : property (items.foldl body state) := by
  rw [← List.dropLast_append_getLast some, List.foldl_append]
  exact establishes _ _

theorem foldl_same (observe : σ → α) (same : ∀ state index, observe (body state index) = observe state)
    {items : List ι} {state : σ} : observe (items.foldl body state) = observe state := by
  apply foldl_keeps (fun current => observe current = observe state)
  · intro current index kept
    exact (same current index).trans kept
  · rfl

theorem foldl_related (relation : σ → σ → Prop)
    (related : ∀ first second index, relation first second → relation (body first index) (body second index))
    {items : List ι} {first second : σ} (start : relation first second) :
    relation (items.foldl body first) (items.foldl body second) := by
  induction items generalizing first second with
  | nil => exact start
  | cons index items ih => exact ih (related first second index start)

theorem foldl_view_other (view : ι → σ → α)
    (other : ∀ state index target, target ≠ index → view target (body state index) = view target state)
    {items : List ι} {target : ι} (absent : target ∉ items) {state : σ} :
    view target (items.foldl body state) = view target state := by
  induction items generalizing state with
  | nil => rfl
  | cons index items ih =>
    simp only [List.mem_cons, not_or] at absent
    exact (ih absent.2).trans (other state index target absent.1)

theorem foldl_view (view : ι → σ → α) (effect : ι → α → α)
    (own : ∀ state index, view index (body state index) = effect index (view index state))
    (other : ∀ state index target, target ≠ index → view target (body state index) = view target state)
    {items : List ι} (once : items.Nodup) {target : ι} (member : target ∈ items) {state : σ} :
    view target (items.foldl body state) = effect target (view target state) := by
  induction items generalizing state with
  | nil => cases member
  | cons index items ih =>
    obtain ⟨fresh, once⟩ := List.nodup_cons.mp once
    rcases List.mem_cons.mp member with rfl | inside
    · exact (foldl_view_other view other fresh).trans (own state target)
    · have different : target ≠ index := fun same => fresh (same ▸ inside)
      rw [List.foldl_cons, ih once inside, other state index target different]

variable {flag : σ → Bool}

theorem foldl_flagged (monotone : ∀ state index, flag state = true → flag (body state index) = true)
    {items : List ι} {state : σ} (raised : flag state = true) : flag (items.foldl body state) = true :=
  foldl_keeps (fun current => flag current = true) monotone raised

/-- The flag stays down over the whole loop exactly when no entry gives the body anything to do. -/
theorem foldl_idle_iff (monotone : ∀ state index, flag state = true → flag (body state index) = true)
    (reported : ∀ state index, body state index ≠ state → flag (body state index) = true)
    {items : List ι} {state : σ} (down : flag state = false) :
    flag (items.foldl body state) = false ↔ ∀ index ∈ items, body state index = state := by
  induction items with
  | nil => simpa using down
  | cons index items ih =>
    by_cases same : body state index = state
    · rw [List.foldl_cons, same, ih, List.forall_mem_cons]
      exact ⟨fun rest => ⟨same, rest⟩, And.right⟩
    · have raised : flag (items.foldl body (body state index)) = true :=
        foldl_flagged monotone (reported state index same)
      simp only [List.foldl_cons, raised, Bool.true_eq_false, List.forall_mem_cons, same, false_and]

theorem foldl_fixed {items : List ι} {state : σ} (fixed : ∀ index ∈ items, body state index = state) :
    items.foldl body state = state := by
  induction items with
  | nil => rfl
  | cons index items ih =>
    obtain ⟨here, rest⟩ := List.forall_mem_cons.mp fixed
    rw [List.foldl_cons, here, ih rest]

end Pure

/-- The last entry of an increasing list is its greatest. -/
theorem getLast_iff_greatest [PartialOrder ι] {items : List ι} (increasing : items.Pairwise (· < ·)) {last : ι} :
    items.getLast? = some last ↔ last ∈ items ∧ ∀ index ∈ items, index ≤ last := by
  have greatest {final : ι} (found : items.getLast? = some final) :
      final ∈ items ∧ ∀ index ∈ items, index ≤ final := by
    obtain ⟨front, rfl⟩ := List.getLast?_eq_some_iff.mp found
    refine ⟨by simp, ?_⟩
    intro index member
    rcases List.mem_append.mp member with early | final
    · exact (List.pairwise_append.mp increasing).2.2 index early _ (by simp) |>.le
    · exact (List.mem_singleton.mp final).le
  refine ⟨greatest, ?_⟩
  intro both
  obtain ⟨member, bound⟩ := both
  have found := List.getLast?_eq_getLast_of_ne_nil (List.ne_nil_of_mem member)
  rw [found, le_antisymm (bound _ (greatest found).1) ((greatest found).2 last member)]

section Failing
variable {body : σ → ι → Except φ σ}

theorem foldlM_cons {index : ι} {items : List ι} {state last : σ} :
    (index :: items).foldlM body state = .ok last ↔
      ∃ next, body state index = .ok next ∧ items.foldlM body next = .ok last := by
  rw [List.foldlM_cons]
  exact Runs.bind_ok

theorem foldlM_succeeds (property : σ → Prop)
    (succeeds : ∀ state index, property state → ∃ next, body state index = .ok next ∧ property next)
    (items : List ι) {state : σ} (holds : property state) :
    ∃ last, items.foldlM body state = .ok last ∧ property last := by
  induction items generalizing state with
  | nil => exact ⟨state, rfl, holds⟩
  | cons index items ih =>
    obtain ⟨next, stepped, kept⟩ := succeeds state index holds
    obtain ⟨last, done, result⟩ := ih kept
    exact ⟨last, foldlM_cons.mpr ⟨next, stepped, done⟩, result⟩

/-- A second loop over the same entries keeps up with the first. -/
theorem foldlM_simulates {τ : Type*} {other : τ → ι → Except φ τ} (relation : σ → τ → Prop)
    (simulates : ∀ state image index next, relation state image → body state index = .ok next →
      ∃ after, other image index = .ok after ∧ relation next after)
    {items : List ι} {state last : σ} {image : τ} (related : relation state image)
    (done : items.foldlM body state = .ok last) :
    ∃ result, items.foldlM other image = .ok result ∧ relation last result := by
  induction items generalizing state image with
  | nil => cases done; exact ⟨image, rfl, related⟩
  | cons index items ih =>
    obtain ⟨next, stepped, done⟩ := foldlM_cons.mp done
    obtain ⟨after, followed, kept⟩ := simulates state image index next related stepped
    obtain ⟨result, rest, final⟩ := ih kept done
    exact ⟨result, foldlM_cons.mpr ⟨after, followed, rest⟩, final⟩

end Failing

end IndexedLoop
