import PhicommTC1.Proofs.CJsonOwnership

/-! The operations of cJSON on its chains: each does to the items what its name says to a list of values,
and touches nothing but what it is given. -/

namespace PhicommTC1.Proofs.CJsonEdits
open CText PhicommTC1 Separation LinkedChain CJsonOwnership

mutual

def items : CJson → Nat
  | .array child => 1 + itemsOfList child
  | .object child => 1 + itemsOfMembers child
  | _ => 1
termination_by structural tree => tree

def itemsOfList : List CJson → Nat
  | [] => 0
  | tree :: rest => items tree + itemsOfList rest
termination_by structural trees => trees

def itemsOfMember : CStr × CJson → Nat
  | (_, tree) => items tree
termination_by structural member => member

def itemsOfMembers : List (CStr × CJson) → Nat
  | [] => 0
  | member :: rest => itemsOfMember member + itemsOfMembers rest
termination_by structural members => members

end

def turns : List Entry → Nat
  | [] => 0
  | entry :: rest => items entry.2 + turns rest

theorem turns_append (front rest : List Entry) : turns (front ++ rest) = turns front + turns rest := by
  induction front with
  | nil => simp [turns]
  | cons entry front ih => simp only [List.cons_append, turns, ih, Nat.add_assoc]

theorem items_eq (tree : CJson) : items tree = 1 + turns (children tree) := by
  cases tree with
  | array child =>
    have same : itemsOfList child = turns (children (.array child)) := by
      simp only [children]
      induction child with
      | nil => rfl
      | cons tree rest ih => simp only [itemsOfList, List.map_cons, turns, ih]
    rw [items, same]
  | object child =>
    have same : itemsOfMembers child = turns (children (.object child)) := by
      simp only [children]
      induction child with
      | nil => rfl
      | cons member rest ih =>
        obtain ⟨key, tree⟩ := member
        simp only [itemsOfMembers, itemsOfMember, List.map_cons, turns, ih]
    rw [items, same]
  | _ => rfl

theorem length_le_turns (entries : List Entry) : entries.length ≤ turns entries := by
  induction entries with
  | nil => exact Nat.le_refl _
  | cons entry rest ih =>
    rw [List.length_cons, turns, items_eq]
    omega

theorem items_le_turns {entry : Entry} {entries : List Entry} (member : entry ∈ entries) : items entry.2 ≤ turns entries := by
  obtain ⟨front, rest, rfl⟩ := List.append_of_mem member
  rw [turns_append, turns]
  omega

theorem freeOf_rule (pointer : Pointer) (string : Option CStr) :
    Triple (text pointer string) (freeOf pointer) fun _ => emp := by
  have never : Triple (holds False) (freeOf pointer) fun _ => emp := by
    intro frame heap given
    exact (sep_holds.mp given).1.elim
  cases pointer with
  | none =>
    cases string with
    | none => exact Triple.pure fun _ kept => kept
    | some _ => exact never
  | some address =>
    cases string with
    | none => exact never
    | some _ => exact free_triple HeapFault.badAddress

theorem cJSONDelete_none (fuel : Nat) : cJSONDelete fuel none = pure () := by cases fuel <;> rfl

/-- How many items hang below an item and how many come behind it. -/
inductive Shape where
  | none
  | item (child next : Shape)

def Shape.size : Shape → Nat
  | .none => 0
  | .item child next => child.size + next.size + 1

/-- Items with strings of their own, whatever they stand for. -/
def litter : Shape → Pointer → Assertion Block
  | .none, first => holds (first = none)
  | .item child next, first => anyOf fun spot : Nat × Item => anyOf fun strings : Option CStr × Option CStr =>
    sep (holds (first = some spot.1 ∧ spot.2.isReference = false ∧ spot.2.stringIsConst = false))
      (sep (block spot.1 (.item spot.2)) (sep (text spot.2.string strings.1) (sep (text spot.2.valuestring strings.2)
        (sep (litter child spot.2.child) (litter next spot.2.next)))))

/-- At most so many of them. -/
def held (most : Nat) (first : Pointer) : Assertion Block :=
  anyOf fun shape : {shape : Shape // shape.size ≤ most} => litter shape.val first

theorem held_nil {most : Nat} {cells : Cells Block} (empty : emp cells) : held most none cells :=
  ⟨⟨.none, Nat.zero_le _⟩, rfl, empty⟩

theorem held_cons {c below behind : Nat} {item : Item} {key value : Option CStr} {cells : Cells Block}
    (reference : item.isReference = false) (const : item.stringIsConst = false)
    (owned : sep (block c (.item item)) (sep (text item.string key) (sep (text item.valuestring value)
      (sep (held below item.child) (held behind item.next)))) cells) : held (below + behind + 1) (some c) cells := by
  have parts : sep (sep (sep (block c (.item item)) (sep (text item.string key) (text item.valuestring value)))
      (held behind item.next)) (held below item.child) cells := by
    refine Eq.mp (congrFun ?_ cells) owned
    ac_rfl
  obtain ⟨child, parts⟩ := (sep_exists fun _ => Iff.rfl).mp parts
  rw [sep_assoc, sep_comm (held behind _), ← sep_assoc] at parts
  obtain ⟨next, parts⟩ := (sep_exists fun _ => Iff.rfl).mp parts
  refine ⟨⟨.item child.val next.val, ?_⟩, (c, item), (key, value), sep_holds.mpr ⟨⟨rfl, reference, const⟩, ?_⟩⟩
  · rw [Shape.size]
    have := child.property
    have := next.property
    omega
  · refine Eq.mp (congrFun ?_ cells) parts
    ac_rfl

/-- An item that has neither a string nor one behind it, with others below. -/
theorem held_parent {most c : Nat} {item : Item} {key : Option CStr} (reference : item.isReference = false)
    (const : item.stringIsConst = false) (valuestring : item.valuestring = none) (next : item.next = none) :
    ∀ cells, sep (held most item.child) (sep (block c (.item item)) (text item.string key)) cells →
      held (most + 1) (some c) cells := by
  intro cells owned
  have nothing (cells : Cells Block) (empty : emp cells) : held 0 item.next cells := by
    rw [next]
    exact held_nil empty
  have empty : text item.valuestring none = emp := by rw [valuestring]; rfl
  have parts : sep emp (sep (block c (.item item)) (sep (text item.string key) (sep (text item.valuestring none)
      (held most item.child)))) cells := by
    refine Eq.mp (congrFun ?_ cells) owned
    rw [empty]
    simp only [emp_sep]
    ac_rfl
  have whole : sep (block c (.item item)) (sep (text item.string key) (sep (text item.valuestring none)
      (sep (held most item.child) (held 0 item.next)))) cells := by
    refine Eq.mp (congrFun ?_ cells) (sep_mono nothing (fun _ kept => kept) _ parts)
    ac_rfl
  exact held_cons reference const whole

theorem held_mono {fewer more : Nat} (less : fewer ≤ more) {first : Pointer} :
    ∀ cells, held fewer first cells → held more first cells := by
  rintro cells ⟨shape, owned⟩
  exact ⟨⟨shape.val, Nat.le_trans shape.property less⟩, owned⟩

/-- An item in front of others, once what hangs below it is taken care of. -/
private theorem owns_before {most : Nat} {before next : Pointer} {c : Nat} {entry : Entry} (below : ∀ {first last} cells,
    stretch owns none first (children entry.2) last none cells → held (turns (children entry.2)) first cells) :
    ∀ cells, sep (owns before c entry next) (held most next) cells → held (items entry.2 + most) (some c) cells := by
  rintro _ ⟨one, two, apart, rfl, node, others⟩
  obtain ⟨item, last, placed, inside⟩ := owns_iff.mp node
  obtain rfl := placed.next
  have whole : sep (body entry.2 c entry.1 item last) (held most item.next) (Cells.join one two) :=
    ⟨one, two, apart, rfl, inside, others⟩
  have parts : sep (stretch owns none item.child (children entry.2) last none) (sep (block c (.item item))
      (sep (text item.string entry.1) (sep (text item.valuestring entry.2.valuestring) (held most item.next))))
        (Cells.join one two) := by
    refine Eq.mp (congrFun ?_ _) whole
    rw [body]
    ac_rfl
  have lower := sep_mono below (fun _ kept => kept) _ parts
  rw [items_eq, show 1 + turns (children entry.2) + most = turns (children entry.2) + most + 1 by omega]
  apply held_cons placed.fits.reference placed.fits.const
  refine Eq.mp (congrFun ?_ _) lower
  ac_rfl

/-- A chain is as many items as it takes turns to walk it and all below. -/
theorem chain_held {before first last : Pointer} {entries : List Entry} :
    ∀ cells, stretch owns before first entries last none cells → held (turns entries) first cells := by
  suffices bounded : ∀ most, ∀ {before first last entries}, turns entries ≤ most → ∀ cells,
      stretch owns before first entries last none cells → held (turns entries) first cells from
    bounded _ (Nat.le_refl _)
  have nil {before first last : Pointer} :
      ∀ cells, stretch owns before first [] last none cells → held (turns []) first cells := by
    rintro cells ⟨⟨rfl, -⟩, empty⟩
    exact held_nil empty
  intro most
  induction most with
  | zero =>
    intro before first last entries enough
    cases entries with
    | nil => exact nil
    | cons entry rest =>
      have some := items_eq entry.2
      rw [turns] at enough
      omega
  | succ most ih =>
    intro before first last entries enough
    cases entries with
    | nil => exact nil
    | cons entry rest =>
      intro cells owned
      have count := items_eq entry.2
      rw [turns] at enough ⊢
      obtain ⟨c, next, rfl, parts⟩ := stretch_cons_iff.mp owned
      exact owns_before (ih (by omega)) _ (sep_mono (fun _ kept => kept) (ih (by omega)) _ parts)

theorem owns_held {most : Nat} {before next : Pointer} {c : Nat} {entry : Entry} :
    ∀ cells, sep (owns before c entry next) (held most next) cells → held (items entry.2 + most) (some c) cells :=
  owns_before chain_held

theorem delete_litter {shape : Shape} {fuel : Nat} (enough : shape.size ≤ fuel) {first : Pointer} :
    Triple (litter shape first) (cJSONDelete fuel first) fun _ => emp := by
  induction shape generalizing fuel first with
  | none =>
    have opens (cells : Cells Block) (owned : litter .none first cells) : ∃ _ : Unit, first = none ∧ emp cells :=
      ⟨(), owned⟩
    apply Triple.opened opens
    rintro - rfl
    rw [cJSONDelete_none]
    exact Triple.pure fun _ kept => kept
  | item child next ihChild ihNext =>
    rw [Shape.size] at enough
    obtain ⟨fuel, rfl⟩ := Nat.exists_eq_succ_of_ne_zero (Nat.ne_of_gt (Nat.lt_of_lt_of_le (Nat.succ_pos _) enough))
    apply Triple.anyOf
    rintro ⟨c, item⟩
    apply Triple.anyOf
    rintro ⟨key, value⟩
    have opens (cells : Cells Block) (owned : sep (holds (first = some c ∧ item.isReference = false ∧
        item.stringIsConst = false)) (sep (block c (.item item)) (sep (text item.string key) (sep (text item.valuestring
          value) (sep (litter child item.child) (litter next item.next))))) cells) :
        ∃ _ : Unit, (first = some c ∧ item.isReference = false ∧ item.stringIsConst = false) ∧ sep (block c (.item item))
          (sep (text item.string key) (sep (text item.valuestring value) (sep (litter child item.child)
            (litter next item.next)))) cells := ⟨(), sep_holds.mp owned⟩
    apply Triple.opened opens
    rintro - ⟨rfl, reference, const⟩
    refine Triple.look (fun _ owned => loadItem_looks (block_found owned)) ?_
    simp only [reference, const, Bool.false_eq_true, if_false]
    -- The trees below go first, then the strings and the item itself, then the items behind it.
    refine Triple.step (litter child item.child) (sep (text item.valuestring value) (sep (text item.string key)
      (sep (block c (.item item)) (litter next item.next)))) (by ac_rfl) (ihChild (by omega)) fun _ => ?_
    rw [emp_sep]
    refine Triple.step _ _ rfl (freeOf_rule _ _) fun _ => ?_
    rw [emp_sep]
    refine Triple.step _ _ rfl (freeOf_rule _ _) fun _ => ?_
    rw [emp_sep]
    refine Triple.step _ _ rfl (free_triple _) fun _ => ?_
    rw [emp_sep]
    exact ihNext (by omega)

theorem delete_held {most fuel : Nat} (enough : most ≤ fuel) {first : Pointer} :
    Triple (held most first) (cJSONDelete fuel first) fun _ => emp :=
  Triple.anyOf fun shape => delete_litter (Nat.le_trans shape.property enough)

/-- `cJSON_Delete` gives back every block of the chain and of the trees in it, each once. -/
theorem delete_rule {fuel : Nat} {entries : List Entry} (enough : turns entries ≤ fuel) {before first last : Pointer} :
    Triple (stretch owns before first entries last none) (cJSONDelete fuel first) fun _ => emp :=
  (delete_held enough).given chain_held

section Ends
variable {before first last behind : Pointer} {entries : List Entry}

theorem setNextOf_rule (other : Pointer) : Triple (stretch owns none first entries last behind) (setNextOf last other)
    fun _ => stretch owns none (Links.moved entries first other) entries last other :=
  links.next_end other

end Ends

/-- An item that is as given but for its `child`. -/
def parent (array : Nat) (item : Item) (child : Pointer) : Assertion Block :=
  block array (.item { item with child := child })

def hung (array : Nat) (item : Item) (entries : List Entry) : Assertion Block :=
  anyOf fun ends : Pointer × Pointer => sep (parent array item ends.1) (stretch owns none ends.1 entries ends.2 none)

section Hung
variable {α : Type} {array : Nat} {item : Item} {entries : List Entry} {kept : Assertion Block} {cells : Cells Block}
  {child last : Pointer} {program : OnHeap α} {post : α → Assertion Block}

theorem hung_intro (owned : sep (parent array item child) (stretch owns none child entries last none) cells) :
    hung array item entries cells := ⟨(child, last), owned⟩

theorem opened_hung (valid : ∀ child last, Triple (sep (sep (parent array item child)
    (stretch owns none child entries last none)) kept) program post) :
    Triple (sep (hung array item entries) kept) program post := by
  have opens (part : Cells Block) (owned : hung array item entries part) :
      ∃ ends : Pointer × Pointer, True ∧ sep (parent array item ends.1)
        (stretch owns none ends.1 entries ends.2 none) part := by
    obtain ⟨ends, owned⟩ := owned
    exact ⟨ends, trivial, owned⟩
  apply Triple.opened fun _ => sep_opened kept opens
  exact fun ends _ => valid ends.1 ends.2

theorem parent_looks (owned : sep (parent array item child) kept cells) :
    Looks cells (loadItem array) { item with child := child } :=
  loadItem_looks (block_found owned)

theorem hung_parent {chain : Assertion Block} (owned : sep (sep (parent array item child) chain) kept cells) :
    Looks cells (loadItem array) { item with child := child } := by
  rw [sep_assoc] at owned
  exact parent_looks owned

/-- A chain below an item is empty, or it has a first and a last item. -/
theorem chain_cases {behind : Pointer}
    (empty : entries = [] → last = none → Triple (sep (parent array item behind) kept) program post)
    (ends : ∀ head rest start final, entries = head :: rest → child = some start → last = some final →
      Triple (sep (sep (parent array item child) (stretch owns none child entries last behind)) kept) program post) :
    Triple (sep (sep (parent array item child) (stretch owns none child entries last behind)) kept) program post := by
  cases entries with
  | nil =>
    have opens (cells : Cells Block)
        (owned : sep (sep (parent array item child) (stretch owns none child [] last behind)) kept cells) :
        ∃ _ : Unit, (child = behind ∧ last = none) ∧ sep (parent array item child) kept cells := by
      rw [sep_comm (parent _ _ _), sep_assoc] at owned
      obtain ⟨led, owned⟩ := sep_holds.mp owned
      exact ⟨(), led, owned⟩
    apply Triple.opened opens
    rintro - ⟨rfl, ended⟩
    exact empty rfl ended
  | cons head rest =>
    have opens (cells : Cells Block)
        (owned : sep (sep (parent array item child) (stretch owns none child (head :: rest) last behind)) kept cells) :
        ∃ ends : Nat × Nat, (child = some ends.1 ∧ last = some ends.2) ∧
          sep (sep (parent array item child) (stretch owns none child (head :: rest) last behind)) kept cells := by
      obtain ⟨one, two, apart, rfl, ⟨three, four, also, rfl, above, chain⟩, others⟩ := owned
      obtain ⟨start, final, first, ended⟩ := stretch_ends chain
      exact ⟨(start, final), ⟨first, ended⟩, _, two, apart, rfl, ⟨three, four, also, rfl, above, chain⟩, others⟩
    apply Triple.opened opens
    exact fun found facts => ends head rest found.1 found.2 rfl facts.1 facts.2

theorem setChild_rule (other : Pointer) :
    Triple (parent array item child) (setChild array other) fun _ => parent array item other :=
  modifyItem_rule _

end Hung

/-- The last item is made to lead to the new one, and the new one back to it. -/
theorem suffix_rule {new final : Nat} {child : Pointer} {head : Entry} {rest : List Entry} {entry : Entry} :
    Triple (sep (stretch owns none child (head :: rest) (some final) none) (owns none new entry none))
      (suffixObject final new) fun _ => stretch owns none child (head :: rest ++ [entry]) (some new) none := by
  refine Triple.step _ _ rfl (setNextOf_rule (some new)) fun _ => ?_
  refine Triple.finish (owns none new entry none) (stretch owns none child (head :: rest) (some final) (some new))
    (sep_comm _ _) (links.prev_rule (some final)) ?_
  intro _ cells owned
  rw [sep_comm] at owned
  exact stretch_snoc owned

theorem first_rule {array new : Nat} {item : Item} {child : Pointer} {entry : Entry} :
    Triple (sep (parent array item child) (owns none new entry none)) (setChild array (some new))
      fun _ => sep (parent array item (some new)) (stretch owns none (some new) [entry] (some new) none) :=
  Triple.finish _ _ rfl (setChild_rule (some new)) fun _ _ owned =>
    sep_mono (fun _ kept => kept) (fun _ node => stretch_single node) _ owned

/-- `cJSON_AddItemToArray` puts the item behind the last. -/
theorem addItemToArray_rule {fuel array new : Nat} {item : Item} {entries : List Entry} {entry : Entry}
    (enough : entries.length ≤ fuel) :
    Triple (sep (hung array item entries) (owns none new entry none)) (cJSONAddItemToArray fuel array new)
      fun _ => hung array item (entries ++ [entry]) := by
  apply opened_hung
  intro child last
  apply chain_cases
  · rintro rfl -
    apply Triple.look fun _ => parent_looks
    exact first_rule.weaken (fun _ kept => kept) fun _ _ owned => hung_intro owned
  · rintro head rest start final rfl rfl rfl
    refine Triple.look (fun _ => hung_parent) ?_
    rw [sep_comm (parent _ _ _), sep_assoc]
    refine Triple.look (fun _ => Looks.beside fun _ => lastItem_looks enough) ?_
    refine Triple.finish (sep (stretch owns none (some start) (head :: rest) (some final) none) (owns none new entry none))
      (parent array item (some start)) (by ac_rfl) suffix_rule ?_
    intro _ cells owned
    rw [sep_comm] at owned
    exact hung_intro owned

/-- An item whose key is gone is given a new one. -/
theorem setString_rule {new : Nat} {added : Item} {below : Pointer} {tree : CJson} (key : CStr)
    (placed : Placed tree none none added) :
    Triple (sep (block new (.item added)) (sep (text added.valuestring tree.valuestring)
      (stretch owns none added.child (children tree) below none))) (setString new key)
        fun _ => owns none new (some key, tree) none := by
  rw [← emp_sep (sep _ _)]
  refine Triple.step _ _ rfl (alloc_triple (Block.text key)) fun address => ?_
  refine Triple.finish (block new (.item added)) (sep (text (some address) (some key)) (sep (text added.valuestring
    tree.valuestring) (stretch owns none added.child (children tree) below none))) (by rw [text]; ac_rfl)
    (modifyItem_rule _) ?_
  intro _ cells owned
  have renamed := placed.setKey (some address)
  exact owns_iff.mpr ⟨_, below, renamed, owned⟩

/-- `cJSON_AddItemToObject` gives the item a key of its own, in place of any it had. -/
theorem addItemToObject_rule {fuel object new : Nat} {item : Item} {entries : List Entry} {entry : Entry} (key : CStr)
    (enough : entries.length ≤ fuel) :
    Triple (sep (hung object item entries) (owns none new entry none)) (cJSONAddItemToObject fuel object key new)
      fun _ => hung object item (entries ++ [(some key, entry.2)]) := by
  rw [sep_comm]
  apply opened
  intro added below placed
  refine Triple.look (fun _ => Looks.beside fun _ => body_looks) ?_
  refine Triple.step (text added.string entry.1) (sep (sep (block new (.item added)) (sep (text added.valuestring
    entry.2.valuestring) (stretch owns none added.child (children entry.2) below none))) (hung object item entries))
    (by rw [body]; ac_rfl) (freeOf_rule _ _) fun _ => ?_
  rw [emp_sep]
  refine Triple.step _ _ rfl (setString_rule key placed) fun _ => ?_
  rw [sep_comm]
  exact addItemToArray_rule enough

section Finding
variable {α : Type} {array c : Nat} {item found : Item} {child last below : Pointer} {front rest entries : List Entry}
  {entry : Entry} {program : OnHeap α} {post : α → Assertion Block} {cells : Cells Block}

variable {kept : Assertion Block}

end Finding

/-- An item that was handed out, with no neighbours. -/
def alone : Pointer → Option Entry → Assertion Block
  | some c, some entry => owns none c entry none
  | none, none => emp
  | _, _ => holds False

section Keyed
variable {fuel object new : Nat} {item : Item} {entries : List Entry} (key : CStr)

/-- Where an entry under the key stands, or the end of the list. -/
abbrev place (entries : List Entry) : Nat := entries.findIdx (named key)

/-- The block of a key that no item leads to any more. -/
def lost (string : Option CStr) : Assertion Block := anyOf fun pointer : Pointer => text pointer string

end Keyed

end PhicommTC1.Proofs.CJsonEdits
