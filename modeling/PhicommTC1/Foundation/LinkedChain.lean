import PhicommTC1.Foundation.Separation

/-! Doubly linked chains in a heap. A chain is told apart from its nodes: what a node owns besides its
two pointers is a parameter. -/

namespace LinkedChain
open Separation

/-- A node between two pointers, and the two assignments that change one of them. -/
structure Links (β φ γ : Type) where
  entry : Option Nat → Nat → γ → Option Nat → Assertion β
  setNext : Nat → Option Nat → Program β φ Unit
  setPrev : Nat → Option Nat → Program β φ Unit
  located : ∀ {before address value behind cells}, entry before address value behind cells → cells address ≠ none
  next_rule : ∀ {before address value behind} other, Triple (entry before address value behind)
    (setNext address other) fun _ => entry before address value other
  prev_rule : ∀ {before address value behind} other, Triple (entry before address value behind)
    (setPrev address other) fun _ => entry other address value behind

variable {β φ γ α : Type}

/-- `first` leads into the chain and `last` to its last node; `before` and `behind` are what the outermost
nodes point to. An empty chain passes both on. -/
def stretch (entry : Option Nat → Nat → γ → Option Nat → Assertion β) (before first : Option Nat) :
    List γ → Option Nat → Option Nat → Assertion β
  | [], last, behind => holds (first = behind ∧ last = before)
  | value :: values, last, behind => anyOf fun address => anyOf fun next =>
      sep (holds (first = some address))
        (sep (entry before address value next) (stretch entry (some address) next values last behind))

section Segments
variable {entry : Option Nat → Nat → γ → Option Nat → Assertion β} {before first last behind : Option Nat}

theorem stretch_cons_iff {value : γ} {values : List γ} {cells : Cells β} :
    stretch entry before first (value :: values) last behind cells ↔ ∃ address next, first = some address ∧
      sep (entry before address value next) (stretch entry (some address) next values last behind) cells := by
  constructor
  · rintro ⟨address, next, owned⟩
    exact ⟨address, next, sep_holds.mp owned⟩
  · rintro ⟨address, next, owned⟩
    exact ⟨address, next, sep_holds.mpr owned⟩

/-- A chain is its front part followed by the rest. -/
theorem stretch_append_iff {front rest : List γ} {cells : Cells β} :
    stretch entry before first (front ++ rest) last behind cells ↔ ∃ joint : Option Nat × Option Nat,
      sep (stretch entry before first front joint.1 joint.2) (stretch entry joint.1 joint.2 rest last behind) cells := by
  induction front generalizing before first cells with
  | nil =>
    constructor
    · intro owned
      exact ⟨(before, first), sep_holds.mpr ⟨⟨rfl, rfl⟩, owned⟩⟩
    · rintro ⟨⟨middle, junction⟩, owned⟩
      obtain ⟨⟨rfl, rfl⟩, others⟩ := sep_holds.mp owned
      exact others
  | cons value front ih =>
    simp only [List.cons_append, stretch_cons_iff]
    constructor
    · rintro ⟨address, next, here, owned⟩
      obtain ⟨joint, owned⟩ := (sep_exists fun _ => ih).mp owned
      refine ⟨joint, ?_⟩
      rw [← sep_assoc] at owned
      exact sep_mono (fun _ node => stretch_cons_iff.mpr ⟨address, next, here, node⟩) (fun _ kept => kept) _ owned
    · rintro ⟨joint, first, second, apart, rfl, owned, others⟩
      obtain ⟨address, next, here, owned⟩ := stretch_cons_iff.mp owned
      refine ⟨address, next, here, (sep_exists fun _ => ih).mpr ⟨joint, ?_⟩⟩
      rw [← sep_assoc]
      exact ⟨first, second, apart, rfl, owned, others⟩

/-- A node of a chain, between the part before it and the part behind it. -/
theorem stretch_focus_iff {front rest : List γ} {value : γ} {cells : Cells β} :
    stretch entry before first (front ++ value :: rest) last behind cells ↔
      ∃ middle address next, sep (entry middle address value next) (sep (stretch entry before first front middle
        (some address)) (stretch entry (some address) next rest last behind)) cells := by
  rw [stretch_append_iff]
  constructor
  · rintro ⟨⟨middle, junction⟩, one, two, apart, rfl, owned, others⟩
    obtain ⟨address, next, rfl, others⟩ := stretch_cons_iff.mp others
    refine ⟨middle, address, next, ?_⟩
    rw [← sep_assoc, sep_comm (entry _ _ _ _), sep_assoc]
    exact ⟨one, two, apart, rfl, owned, others⟩
  · rintro ⟨middle, address, next, owned⟩
    refine ⟨(middle, some address), ?_⟩
    rw [← sep_assoc, sep_comm (entry _ _ _ _), sep_assoc] at owned
    exact sep_mono (fun _ kept => kept) (fun _ node => stretch_cons_iff.mpr ⟨address, next, rfl, node⟩) _ owned

/-- A chain that is not empty is led into and has a last node. -/
theorem stretch_ends {value : γ} {values : List γ} {cells : Cells β}
    (owned : stretch entry before first (value :: values) last behind cells) :
    ∃ start final, first = some start ∧ last = some final := by
  induction values generalizing value before first cells with
  | nil =>
    obtain ⟨address, next, here, one, two, apart, rfl, node, others⟩ := stretch_cons_iff.mp owned
    exact ⟨address, address, here, others.1.2⟩
  | cons other values ih =>
    obtain ⟨address, next, here, one, two, apart, rfl, node, others⟩ := stretch_cons_iff.mp owned
    obtain ⟨-, final, -, same⟩ := ih others
    exact ⟨address, final, here, same⟩

/-- A node put behind a chain that already leads to it. -/
theorem stretch_snoc {values : List γ} {value : γ} {middle : Option Nat} {address : Nat} {cells : Cells β}
    (owned : sep (stretch entry before first values middle (some address)) (entry middle address value behind) cells) :
    stretch entry before first (values ++ [value]) (some address) behind cells := by
  refine stretch_focus_iff.mpr ⟨middle, address, behind, ?_⟩
  rw [← sep_assoc, sep_comm, sep_comm (entry _ _ _ _)]
  exact sep_holds.mpr ⟨⟨rfl, rfl⟩, owned⟩

theorem stretch_single {value : γ} {address : Nat} {cells : Cells β} (owned : entry before address value behind cells) :
    stretch entry before (some address) [value] (some address) behind cells := by
  refine stretch_cons_iff.mpr ⟨address, behind, rfl, ?_⟩
  rw [sep_comm]
  exact sep_holds.mpr ⟨⟨rfl, rfl⟩, owned⟩

end Segments

namespace Links
variable (links : Links β φ γ)

/-- `if (p) p->next = next` -/
def setNextOf (pointer next : Option Nat) : Program β φ Unit :=
  match pointer with
  | some address => links.setNext address next
  | none => pure ()

abbrev chain (before first : Option Nat) (values : List γ) (last behind : Option Nat) : Assertion β :=
  stretch links.entry before first values last behind

variable {links} {before first last behind : Option Nat} {values front rest : List γ} {value : γ}

/-- The end of a chain once it leads elsewhere: an empty chain has no node of its own there. -/
def moved (values : List γ) (own other : Option Nat) : Option Nat := if values.isEmpty then other else own

theorem moved_snoc (own other : Option Nat) : moved (front ++ [value]) own other = own := by simp [moved]

/-- The pointer behind a chain can be changed, wherever the chain ends. -/
theorem next_end (other : Option Nat) : Triple (links.chain none first values last behind) (links.setNextOf last other)
    fun _ => links.chain none (moved values first other) values last other := by
  rcases List.eq_nil_or_concat values with rfl | ⟨front, value, rfl⟩
  · have opened (cells : Cells β) (owned : links.chain none first [] last behind cells) :
        ∃ _ : Unit, last = none ∧ links.chain none first [] last behind cells := ⟨(), owned.1.2, owned⟩
    apply Triple.opened opened
    rintro - rfl
    exact Triple.pure fun cells owned => ⟨⟨rfl, rfl⟩, owned.2⟩
  · have opened (cells : Cells β) (owned : links.chain none first (front.concat value) last behind cells) :
        ∃ joint : Option Nat × Nat, last = some joint.2 ∧ sep (links.entry joint.1 joint.2 value behind)
          (links.chain none first front joint.1 (some joint.2)) cells := by
      rw [List.concat_eq_append] at owned
      obtain ⟨middle, address, next, owned⟩ := stretch_focus_iff.mp owned
      rw [← sep_assoc, sep_comm] at owned
      obtain ⟨⟨rfl, rfl⟩, others⟩ := sep_holds.mp owned
      exact ⟨(middle, address), rfl, others⟩
    apply Triple.opened opened
    rintro ⟨middle, address⟩ rfl
    apply ((links.next_rule other).frame _).weaken (fun _ kept => kept)
    intro _ cells owned
    rw [List.concat_eq_append, moved_snoc]
    refine stretch_focus_iff.mpr ⟨middle, address, other, ?_⟩
    rw [← sep_assoc, sep_comm]
    exact sep_holds.mpr ⟨⟨rfl, rfl⟩, owned⟩

end Links

end LinkedChain
