import Mathlib.Logic.Function.Basic

/-! A heap of blocks and the parts of it that a program owns. An assertion is about a part of the
heap; a triple leaves everything outside the part its program was given as it was. -/

namespace Separation

/-- The blocks in use, by address. Addresses are handed out in order and never again, so a block
that was freed is missed wherever it is still used. -/
structure Heap (β : Type) where
  cells : Nat → Option β
  next : Nat
  fresh : ∀ address, next ≤ address → cells address = none

abbrev Program (β φ α : Type) := StateT (Heap β) (Except φ) α

variable {β φ α γ : Type} {ι : Sort*}

namespace Heap

def empty : Heap β := ⟨fun _ => none, 0, fun _ _ => rfl⟩

def set (heap : Heap β) (address : Nat) (block : Option β) (inside : address < heap.next) : Heap β where
  cells := Function.update heap.cells address block
  next := heap.next
  fresh other bound := by
    rw [Function.update_of_ne (by omega)]
    exact heap.fresh other bound

def push (heap : Heap β) (block : β) : Heap β where
  cells := Function.update heap.cells heap.next (some block)
  next := heap.next + 1
  fresh other bound := by
    rw [Function.update_of_ne (by omega)]
    exact heap.fresh other (by omega)

theorem inside {heap : Heap β} {address : Nat} {block : β} (found : heap.cells address = some block) :
    address < heap.next := by
  by_contra outside
  rw [heap.fresh address (by omega)] at found
  cases found

end Heap

def alloc (block : β) : Program β φ Nat := fun heap => .ok (heap.next, heap.push block)

/-- An address that holds no block is a fault. -/
def load (missing : φ) (address : Nat) : Program β φ β := fun heap =>
  match heap.cells address with
  | some block => .ok (block, heap)
  | none => .error missing

def store (missing : φ) (address : Nat) (block : β) : Program β φ Unit := fun heap =>
  match found : heap.cells address with
  | some _ => .ok ((), heap.set address (some block) (Heap.inside found))
  | none => .error missing

def free (missing : φ) (address : Nat) : Program β φ Unit := fun heap =>
  match found : heap.cells address with
  | some _ => .ok ((), heap.set address none (Heap.inside found))
  | none => .error missing

abbrev Cells (β : Type) := Nat → Option β

namespace Cells

def single (address : Nat) (block : β) : Cells β := Function.update (fun _ => none) address (some block)

def Apart (first second : Cells β) : Prop := ∀ address, first address = none ∨ second address = none

def join (first second : Cells β) : Cells β := fun address => (first address).or (second address)

def Within (part whole : Cells β) : Prop := ∀ address block, part address = some block → whole address = some block

variable {first second third : Cells β}

theorem Apart.symm (apart : Apart first second) : Apart second first := fun address => (apart address).symm

theorem join_comm (apart : Apart first second) : join first second = join second first := by
  funext address
  rcases apart address with none | none <;> simp [join, none]

theorem join_assoc : join (join first second) third = join first (join second third) := by
  funext address
  simp [join, Option.or_assoc]

theorem apart_join_left : Apart (join first second) third ↔ Apart first third ∧ Apart second third := by
  constructor
  · intro apart
    refine ⟨?_, ?_⟩
    all_goals
      intro address
      rcases apart address with none | none
      · simp only [join, Option.or_eq_none_iff] at none
        first | exact .inl none.1 | exact .inl none.2
      · exact .inr none
  · intro apart address
    rcases apart.1 address with none | none
    · rcases apart.2 address with other | other
      · exact .inl (by simp [join, none, other])
      · exact .inr other
    · exact .inr none

theorem apart_join_right : Apart first (join second third) ↔ Apart first second ∧ Apart first third := by
  constructor
  · intro apart
    have parts := apart_join_left.mp apart.symm
    exact ⟨parts.1.symm, parts.2.symm⟩
  · intro apart
    exact (apart_join_left.mpr ⟨apart.1.symm, apart.2.symm⟩).symm

theorem within_join : Within first (join first second) := by
  intro address block found
  simp [join, found]

theorem Within.trans (small : Within first second) (large : Within second third) : Within first third :=
  fun address block found => large address block (small address block found)

theorem within_join_right (apart : Apart first second) : Within second (join first second) := by
  rw [join_comm apart]
  exact within_join

theorem single_within {address : Nat} {block : β} : Within (single address block) first ↔ first address = some block := by
  constructor
  · intro within
    exact within address block (Function.update_self ..)
  · intro found other value held
    by_cases same : other = address
    · subst same
      rw [single, Function.update_self] at held
      exact held ▸ found
    · rw [single, Function.update_of_ne same] at held
      cases held

end Cells

abbrev Assertion (β : Type) := Cells β → Prop

/-- Exactly this part of the heap. -/
def exactly (part : Cells β) : Assertion β := fun cells => cells = part

def emp : Assertion β := exactly fun _ => none

def block (address : Nat) (content : β) : Assertion β := exactly (Cells.single address content)

/-- The cells in two parts, one for each assertion. -/
def sep (left right : Assertion β) : Assertion β := fun cells =>
  ∃ first second, Cells.Apart first second ∧ cells = Cells.join first second ∧ left first ∧ right second

def holds (fact : Prop) : Assertion β := fun cells => fact ∧ emp cells

def anyOf (family : ι → Assertion β) : Assertion β := fun cells => ∃ index, family index cells

section Sep
variable {left right third : Assertion β}

theorem sep_comm (left right : Assertion β) : sep left right = sep right left := by
  have swap {left right : Assertion β} {cells : Cells β} (both : sep left right cells) : sep right left cells := by
    obtain ⟨first, second, apart, rfl, holdsLeft, holdsRight⟩ := both
    exact ⟨second, first, apart.symm, Cells.join_comm apart, holdsRight, holdsLeft⟩
  funext cells
  exact propext ⟨swap, swap⟩

theorem sep_assoc (left right third : Assertion β) : sep (sep left right) third = sep left (sep right third) := by
  funext cells
  apply propext
  constructor
  · rintro ⟨both, other, apart, rfl, ⟨first, second, small, rfl, holdsLeft, holdsRight⟩, holdsThird⟩
    obtain ⟨firstApart, secondApart⟩ := Cells.apart_join_left.mp apart
    exact ⟨first, Cells.join second other, Cells.apart_join_right.mpr ⟨small, firstApart⟩, Cells.join_assoc,
      holdsLeft, second, other, secondApart, rfl, holdsRight, holdsThird⟩
  · rintro ⟨first, both, apart, rfl, holdsLeft, second, other, small, rfl, holdsRight, holdsThird⟩
    obtain ⟨secondApart, otherApart⟩ := Cells.apart_join_right.mp apart
    exact ⟨Cells.join first second, other, Cells.apart_join_left.mpr ⟨otherApart, small⟩, Cells.join_assoc.symm,
      ⟨first, second, secondApart, rfl, holdsLeft, holdsRight⟩, holdsThird⟩

instance : Std.Commutative (sep (β := β)) := ⟨sep_comm⟩

instance : Std.Associative (sep (β := β)) := ⟨sep_assoc⟩

@[simp] theorem emp_sep (assertion : Assertion β) : sep emp assertion = assertion := by
  funext cells
  apply propext
  constructor
  · rintro ⟨first, second, apart, rfl, rfl, holds⟩
    exact holds
  · intro holds
    exact ⟨fun _ => none, cells, fun _ => .inl rfl, rfl, rfl, holds⟩

@[simp] theorem sep_emp (assertion : Assertion β) : sep assertion emp = assertion := by
  rw [sep_comm, emp_sep]

theorem sep_mono {weaker weakerRight : Assertion β} (first : ∀ cells, left cells → weaker cells)
    (second : ∀ cells, right cells → weakerRight cells) :
    ∀ cells, sep left right cells → sep weaker weakerRight cells := by
  rintro cells ⟨one, two, apart, rfl, holdsLeft, holdsRight⟩
  exact ⟨one, two, apart, rfl, first one holdsLeft, second two holdsRight⟩

theorem sep_exists {family : ι → Assertion β} {cells : Cells β} (same : ∀ part, right part ↔ ∃ index, family index part) :
    sep left right cells ↔ ∃ index, sep left (family index) cells := by
  constructor
  · rintro ⟨first, second, apart, split, holdsLeft, holdsRight⟩
    obtain ⟨index, holdsRight⟩ := (same second).mp holdsRight
    exact ⟨index, first, second, apart, split, holdsLeft, holdsRight⟩
  · rintro ⟨index, first, second, apart, split, holdsLeft, holdsRight⟩
    exact ⟨first, second, apart, split, holdsLeft, (same second).mpr ⟨index, holdsRight⟩⟩

/-- What can be opened on its own can be opened beside anything else. -/
theorem sep_opened {fact : ι → Prop} {family : ι → Assertion β} (kept : Assertion β)
    (opens : ∀ part, left part → ∃ index, fact index ∧ family index part) {cells : Cells β} (both : sep left kept cells) :
    ∃ index, fact index ∧ sep (family index) kept cells := by
  obtain ⟨first, second, apart, split, holdsLeft, holdsRight⟩ := both
  obtain ⟨index, true, holdsLeft⟩ := opens first holdsLeft
  exact ⟨index, true, first, second, apart, split, holdsLeft, holdsRight⟩

theorem sep_holds {fact : Prop} {cells : Cells β} : sep (holds fact) right cells ↔ fact ∧ right cells := by
  constructor
  · rintro ⟨first, second, apart, rfl, ⟨true, rfl⟩, holdsRight⟩
    exact ⟨true, holdsRight⟩
  · intro both
    exact ⟨fun _ => none, cells, fun _ => .inl rfl, rfl, ⟨both.1, rfl⟩, both.2⟩

end Sep

/-- Given its part of a heap, the program completes, leaves what it promises and touches nothing else. -/
def Triple (pre : Assertion β) (program : Program β φ α) (post : α → Assertion β) : Prop :=
  ∀ (frame : Assertion β) (heap : Heap β), sep pre frame heap.cells →
    ∃ value after, program heap = .ok (value, after) ∧ sep (post value) frame after.cells

section Rules
variable {pre stronger : Assertion β} {program : Program β φ α} {post weaker : α → Assertion β}

theorem Triple.bind {middle : α → Assertion β} {rest : α → Program β φ γ} {last : γ → Assertion β}
    (first : Triple pre program middle) (next : ∀ value, Triple (middle value) (rest value) last) :
    Triple pre (program >>= rest) last := by
  intro frame heap given
  obtain ⟨value, between, ran, established⟩ := first frame heap given
  obtain ⟨result, after, finished, promised⟩ := next value frame between established
  refine ⟨result, after, ?_, promised⟩
  change (program heap).bind (fun outcome => rest outcome.1 outcome.2) = _
  rw [ran]
  exact finished

theorem Triple.weaken (valid : Triple pre program post) (before : ∀ cells, stronger cells → pre cells)
    (after : ∀ value cells, post value cells → weaker value cells) : Triple stronger program weaker := by
  intro frame heap given
  obtain ⟨value, last, ran, promised⟩ := valid frame heap (sep_mono before (fun _ kept => kept) _ given)
  exact ⟨value, last, ran, sep_mono (after value) (fun _ kept => kept) _ promised⟩

theorem Triple.frame (kept : Assertion β) (valid : Triple pre program post) :
    Triple (sep pre kept) program fun value => sep (post value) kept := by
  intro frame heap given
  rw [sep_assoc] at given
  obtain ⟨value, after, ran, promised⟩ := valid (sep kept frame) heap given
  exact ⟨value, after, ran, by rwa [sep_assoc]⟩

theorem Triple.given (valid : Triple pre program post) (before : ∀ cells, stronger cells → pre cells) :
    Triple stronger program post :=
  valid.weaken before fun _ _ owned => owned

/-- What is owned, in another order. -/
theorem Triple.arranged (other : Assertion β) (same : pre = other) (valid : Triple other program post) :
    Triple pre program post := by rwa [same]

/-- The first step of a program works on a part of what is owned. -/
theorem Triple.step (part kept : Assertion β) {middle : α → Assertion β} {rest : α → Program β φ γ}
    {last : γ → Assertion β} (split : pre = sep part kept) (first : Triple part program middle)
    (next : ∀ value, Triple (sep (middle value) kept) (rest value) last) : Triple pre (program >>= rest) last := by
  rw [split]
  exact Triple.bind (Triple.frame kept first) next

/-- So does the last. -/
theorem Triple.finish (part kept : Assertion β) {middle : α → Assertion β} (split : pre = sep part kept)
    (valid : Triple part program middle) (after : ∀ value cells, sep (middle value) kept cells → post value cells) :
    Triple pre program post := by
  rw [split]
  exact (Triple.frame kept valid).weaken (fun _ owned => owned) after

theorem Triple.pure {value : α} (holds : ∀ cells, pre cells → post value cells) :
    Triple pre (pure value : Program β φ α) post :=
  fun _ heap given => ⟨value, heap, rfl, sep_mono holds (fun _ kept => kept) _ given⟩

/-- What is owned may be opened, and what it shows used, before the program runs. -/
theorem Triple.opened {fact : ι → Prop} {family : ι → Assertion β}
    (opens : ∀ cells, pre cells → ∃ index, fact index ∧ family index cells)
    (valid : ∀ index, fact index → Triple (family index) program post) : Triple pre program post := by
  intro frame heap given
  obtain ⟨first, second, apart, split, owned, framed⟩ := given
  obtain ⟨index, true, owned⟩ := opens first owned
  exact valid index true frame heap ⟨first, second, apart, split, owned, framed⟩

/-- What holds of nothing allows everything. -/
theorem Triple.never : Triple (holds False) program post := by
  intro frame heap given
  exact (sep_holds.mp given).1.elim

theorem Triple.assuming {fact : Prop} (valid : fact → Triple pre program post) :
    Triple (sep (holds fact) pre) program post := by
  intro frame heap given
  rw [sep_assoc] at given
  obtain ⟨true, given⟩ := sep_holds.mp given
  exact valid true frame heap given

theorem Triple.anyOf {family : ι → Assertion β} (valid : ∀ index, Triple (family index) program post) :
    Triple (anyOf family) program post := by
  have opens (cells : Cells β) (owned : Separation.anyOf family cells) : ∃ index, True ∧ family index cells := by
    obtain ⟨index, owned⟩ := owned
    exact ⟨index, trivial, owned⟩
  exact Triple.opened opens fun index _ => valid index

end Rules

section Blocks
variable {address : Nat} {content : β}

theorem block_found {frame : Assertion β} {cells : Cells β} (owned : sep (block address content) frame cells) :
    cells address = some content := by
  obtain ⟨first, second, apart, rfl, rfl, framed⟩ := owned
  exact Cells.single_within.mp Cells.within_join

theorem block_here {cells : Cells β} (owned : block address content cells) : cells address = some content := by
  rw [← sep_emp (block _ _)] at owned
  exact block_found owned

/-- A block is replaced where it stands, whatever is around it. -/
private theorem replaced {frame : Assertion β} {cells : Cells β} (owned : sep (block address content) frame cells)
    (replacement : Option β) : ∃ rest, Cells.Apart (Function.update (fun _ => none) address replacement) rest ∧
      Function.update cells address replacement =
        Cells.join (Function.update (fun _ => none) address replacement) rest ∧ frame rest := by
  obtain ⟨first, second, apart, rfl, rfl, framed⟩ := owned
  have gone : second address = none := by
    apply (apart address).resolve_left
    simp [Cells.single]
  refine ⟨second, ?_, ?_, framed⟩
  · intro other
    by_cases same : other = address
    · exact .inr (same ▸ gone)
    · exact .inl (Function.update_of_ne same ..)
  · funext other
    by_cases same : other = address
    · subst same
      simp [Cells.join, gone]
    · simp [Cells.join, Cells.single, Function.update_of_ne same]

theorem alloc_triple (content : β) : Triple emp (alloc content : Program β φ Nat) fun address => block address content := by
  intro frame heap given
  rw [emp_sep] at given
  refine ⟨heap.next, heap.push content, rfl, Cells.single heap.next content, heap.cells, ?_, ?_, rfl, given⟩
  · intro other
    by_cases same : other = heap.next
    · exact .inr (same ▸ heap.fresh _ (Nat.le_refl _))
    · exact .inl (Function.update_of_ne same ..)
  · funext other
    by_cases same : other = heap.next
    · subst same
      simp [Heap.push, Cells.join, Cells.single]
    · simp [Heap.push, Cells.join, Cells.single, Function.update_of_ne same]

theorem store_triple (missing : φ) (replacement : β) :
    Triple (block address content) (store missing address replacement) fun _ => block address replacement := by
  intro frame heap given
  have found := block_found given
  obtain ⟨rest, apart, split, framed⟩ := replaced given (some replacement)
  refine ⟨(), heap.set address (some replacement) (Heap.inside found), ?_, _, rest, apart, split, rfl, framed⟩
  unfold store
  split
  next => rfl
  next absent => rw [found] at absent; cases absent

theorem free_triple (missing : φ) :
    Triple (block address content) (free missing address) fun _ => emp := by
  intro frame heap given
  have found := block_found given
  obtain ⟨rest, apart, split, framed⟩ := replaced given none
  refine ⟨(), heap.set address none (Heap.inside found), ?_, _, rest, apart, split, ?_, framed⟩
  · unfold free
    split
    next => rfl
    next absent => rw [found] at absent; cases absent
  · exact Function.update_eq_self ..

end Blocks

/-- Whatever heap the part lies in, the program finds the value and changes nothing. -/
def Looks (part : Cells β) (program : Program β φ α) (value : α) : Prop :=
  ∀ heap : Heap β, Cells.Within part heap.cells → program heap = .ok (value, heap)

section Looks
variable {part : Cells β} {program : Program β φ α} {value : α}

theorem Looks.pure : Looks part (pure value : Program β φ α) value := fun _ _ => rfl

theorem Looks.load {address : Nat} {content : β} (found : part address = some content) (missing : φ) :
    Looks part (load missing address) content := by
  intro heap within
  simp only [Separation.load, within address content found]

theorem Looks.bind {rest : α → Program β φ γ} {result : γ} (first : Looks part program value)
    (next : Looks part (rest value) result) : Looks part (program >>= rest) result := by
  intro heap within
  change (program heap).bind (fun outcome => rest outcome.1 outcome.2) = _
  rw [first heap within]
  exact next heap within

theorem Looks.map (change : α → γ) (looks : Looks part program value) : Looks part (change <$> program) (change value) := by
  rw [← bind_pure_comp]
  exact looks.bind Looks.pure

theorem Looks.widen {wider : Cells β} (within : Cells.Within part wider) (looks : Looks part program value) :
    Looks wider program value :=
  fun heap inside => looks heap (within.trans inside)

/-- What a part shows by itself it shows beside anything else. -/
theorem Looks.beside {left kept : Assertion β} {cells : Cells β} (looks : ∀ part, left part → Looks part program value)
    (owned : sep left kept cells) : Looks cells program value := by
  obtain ⟨first, second, apart, rfl, holdsLeft, -⟩ := owned
  exact (looks first holdsLeft).widen Cells.within_join

/-- A look at what is owned comes before the rest of a program and leaves the ownership as it is. What it
finds may depend on more than the assertion says. -/
theorem Triple.look_for {pre : Assertion β} {rest : α → Program β φ γ} {post : γ → Assertion β} {fact : α → Prop}
    (looks : ∀ cells, pre cells → ∃ value, fact value ∧ Looks cells program value)
    (next : ∀ value, fact value → Triple pre (rest value) post) : Triple pre (program >>= rest) post := by
  intro frame heap given
  obtain ⟨value, found, ran⟩ : ∃ value, fact value ∧ program heap = .ok (value, heap) := by
    obtain ⟨first, second, apart, split, owned, framed⟩ := given
    obtain ⟨value, found, looks⟩ := looks first owned
    refine ⟨value, found, looks heap ?_⟩
    rw [split]
    exact Cells.within_join
  obtain ⟨result, after, finished, promised⟩ := next value found frame heap given
  refine ⟨result, after, ?_, promised⟩
  change (program heap).bind (fun outcome => rest outcome.1 outcome.2) = _
  rw [ran]
  exact finished

theorem Triple.look {pre : Assertion β} {rest : α → Program β φ γ} {post : γ → Assertion β}
    (looks : ∀ cells, pre cells → Looks cells program value) (next : Triple pre (rest value) post) :
    Triple pre (program >>= rest) post := by
  have found (cells : Cells β) (owned : pre cells) : ∃ other, other = value ∧ Looks cells program other :=
    ⟨value, rfl, looks cells owned⟩
  apply Triple.look_for found
  rintro _ rfl
  exact next

end Looks

end Separation
