import PhicommTC1.CJsonHeapText
import PhicommTC1.Foundation.Runs
import PhicommTC1.Proofs.CJsonEdits

/-! `cJSON_Parse` in memory: the root it returns owns the tree the text stands for, and a text that is
malformed leaves nothing behind. -/

namespace PhicommTC1.Proofs.CJsonParsing
open CText PhicommTC1 Separation LinkedChain CJsonOwnership CJsonEdits

/-- An item whose value is still to come; `before` leads to it. -/
structure Ready (before : Pointer) (item : Item) : Prop where
  prev : item.prev = before
  next : item.next = none
  child : item.child = none
  valuestring : item.valuestring = none
  reference : item.isReference = false
  const : item.stringIsConst = false

def waiting (before : Pointer) (address : Nat) (key : Option CStr) : Assertion Block :=
  anyOf fun item : {item : Item // Ready before item} =>
    sep (block address (.item item.val)) (text item.val.string key)

/-- What `parse_string` makes of an item. -/
def stringItem (item : Item) (out : Nat) : Item := { item with kind := .string, valuestring := some out }

/-- A string that was read into an item. -/
def spelled (before : Pointer) (address : Nat) (key : Option CStr) (string : CStr) : Assertion Block :=
  anyOf fun item : {item : Item // Ready before item} => anyOf fun out : Nat =>
    sep (block address (.item (stringItem item.val out)))
      (sep (text item.val.string key) (text (some out) (some string)))

section Leaves
variable {before : Pointer} {address : Nat} {key : Option CStr} {string : CStr}

theorem new_waiting : Triple emp cJSONNewItem fun address => waiting none address none := by
  apply (alloc_triple (Block.item .zero)).weaken (fun _ kept => kept)
  intro address cells owned
  refine ⟨⟨.zero, rfl, rfl, rfl, rfl, rfl, rfl⟩, ?_⟩
  rw [← sep_emp (block _ _)] at owned
  exact owned

theorem empty_chain : stretch owns none none [] none none = emp := by
  funext cells
  exact propext ⟨fun chain => chain.2, fun empty => ⟨⟨rfl, rfl⟩, empty⟩⟩

/-- An item that has its value and neither a string nor a child. -/
theorem owns_leaf {tree : CJson} {item : Item} {cells : Cells Block} (placed : Placed tree before none item)
    (valuestring : item.valuestring = none) (child : item.child = none) (none_ : tree.valuestring = none)
    (leaf : children tree = []) (owned : sep (block address (.item item)) (text item.string key) cells) :
    owns before address (key, tree) none cells := by
  refine owns_iff.mpr ⟨item, none, placed, ?_⟩
  rw [body, valuestring, child, none_, leaf, empty_chain]
  rwa [text, emp_sep, sep_emp]

theorem owns_spelled : ∀ cells, spelled before address key string cells →
    owns before address (key, .string string) none cells := by
  rintro cells ⟨⟨item, ready⟩, out, owned⟩
  have fits : Fits (.string string) (stringItem item out) := ⟨rfl, ready.reference, ready.const, nofun⟩
  refine owns_iff.mpr ⟨stringItem item out, none, ⟨ready.prev, ready.next, fits⟩, ?_⟩
  rwa [body, show (stringItem item out).child = none from ready.child,
    show children (key, CJson.string string).2 = [] from rfl, empty_chain, sep_emp]

theorem moved_rule : Triple (spelled before address none string)
    (modifyItem address fun child => { child with string := child.valuestring, valuestring := none })
    fun _ => waiting before address (some string) := by
  apply Triple.anyOf
  rintro ⟨item, ready⟩
  apply Triple.anyOf
  intro out
  refine Triple.finish _ _ rfl (modifyItem_rule _) fun _ cells owned => ?_
  have empty : Ready before { item with kind := .string, valuestring := none, string := some out } :=
    ⟨ready.prev, ready.next, ready.child, rfl, ready.reference, ready.const⟩
  have lone := sep_mono (fun _ kept => kept) (sep_mono text_none fun _ kept => kept) _ owned
  rw [emp_sep] at lone
  exact ⟨⟨_, empty⟩, lone⟩

/-- What waits for a value can be deleted. -/
theorem waiting_held : ∀ cells, waiting before address key cells → held 1 (some address) cells := by
  rintro cells ⟨⟨item, ready⟩, owned⟩
  have nothing (cells : Cells Block) (empty : emp cells) : held 0 item.child cells := by
    rw [ready.child]
    exact held_nil empty
  rw [← emp_sep (sep _ _)] at owned
  exact held_parent ready.reference ready.const ready.valuestring ready.next _
    (sep_mono nothing (fun _ kept => kept) _ owned)

end Leaves

section Chains
variable {before : Pointer} {address : Nat} {key : Option CStr} {text : List UInt8}

/-- The next item is linked behind the last one that is complete. -/
theorem newItemBehind_rule {entry : Entry} : Triple (owns before address entry none) (OnHeap.newItemBehind address)
    fun newItem => sep (owns before address entry (some newItem)) (waiting (some address) newItem none) := by
  rw [← emp_sep (owns _ _ _ _)]
  refine Triple.step _ _ rfl (alloc_triple (Block.item .zero)) fun newItem => ?_
  refine Triple.step (owns before address entry none) (block newItem (.item .zero)) (sep_comm _ _)
    (links.next_rule (some newItem)) fun _ => ?_
  refine Triple.step (block newItem (.item .zero)) (owns before address entry (some newItem)) (sep_comm _ _)
    (modifyItem_rule _) fun _ => ?_
  apply Triple.pure
  intro cells owned
  rw [sep_comm] at owned
  refine sep_mono (fun _ kept => kept) (fun part new => ?_) _ owned
  refine ⟨⟨{ Item.zero with prev := some address }, rfl, rfl, rfl, rfl, rfl, rfl⟩, ?_⟩
  rw [← sep_emp (block _ _)] at new
  exact new

/-- What is left after a value was looked for in a text: the value, or items that can be deleted. -/
def valueRead (before : Pointer) (address : Nat) (key : Option CStr) :
    Option (Parsed CJson text) → Option (List UInt8) → Assertion Block
  | some value, some rest => sep (holds (rest = value.rest ∧ items value.item + rest.length ≤ text.length))
    (owns before address (key, value.item) none)
  | none, none => held (text.length + 1) (some address)
  | _, _ => holds False

/-- The same of items or members. -/
def chainRead {α : Type} (entries : α → List Entry) (before : Pointer) (child : Nat) :
    Option (Parsed α text) → Option (List UInt8) → Assertion Block
  | some values, some rest => sep (holds (rest = values.rest ∧ turns (entries values.item) + rest.length ≤ text.length))
    (anyOf fun last => stretch owns before (some child) (entries values.item) last none)
  | none, none => held (text.length + 1) (some child)
  | _, _ => holds False

/-- How a chain is read on from its first entry, and how it ends with it. -/
def Extends {α : Type} {behind : List UInt8} (entries : α → List Entry) (entry : Entry) :
    Option (Parsed α text) → Option (Parsed α behind) → Prop
  | some whole, some values => whole.rest = values.rest ∧ entries whole.item = entry :: entries values.item
  | none, none => True
  | _, _ => False

def Closes {α : Type} (entries : α → List Entry) (entry : Entry) : Option (Parsed α text) → Option (List UInt8) → Prop
  | some whole, some rest => whole.rest = rest ∧ entries whole.item = [entry]
  | none, none => True
  | _, _ => False

/-- What `parse_array` and `parse_object` do once a value is complete. -/
theorem behind_rule {α : Type} {entries : α → List Entry} {entry : Entry} {rest : List UInt8} {close : UInt8}
    {program : Nat → List UInt8 → OnHeap (Option (List UInt8))} {whole : Option (Parsed α text)}
    (size : items entry.2 + rest.length ≤ text.length)
    (more : ∀ behind, accept 44 (skip rest) = some behind → ∃ values : Option (Parsed α (skip behind)),
      (∀ new, Triple (waiting (some address) new none) (program new (skip behind))
        (chainRead entries (some address) new values)) ∧ Extends entries entry whole values)
    (done : accept 44 (skip rest) = none → Closes entries entry whole (accept close (skip rest))) :
    Triple (owns before address entry none) (match accept 44 (skip rest) with
      | some rest => OnHeap.newItemBehind address >>= fun newItem => program newItem (skip rest)
      | none => pure (accept close (skip rest))) (chainRead entries before address whole) := by
  cases comma : accept 44 (skip rest) with
  | some behind =>
    obtain ⟨values, valid, joined⟩ := more behind comma
    have shorter := skip_accept_skip_length comma
    refine Triple.bind newItemBehind_rule fun new => ?_
    refine Triple.finish (waiting (some address) new none) (owns before address entry (some new)) (sep_comm _ _)
      (valid new) fun last cells owned => ?_
    rw [sep_comm] at owned
    cases values with
    | none =>
      cases whole with
      | some _ => exact joined.elim
      | none =>
        cases last with
        | some _ => rw [sep_comm] at owned; exact (sep_holds.mp owned).1.elim
        | none => exact held_mono (by omega) _ (owns_held _ owned)
    | some values =>
      cases whole with
      | none => exact joined.elim
      | some whole =>
        cases last with
        | none => rw [sep_comm] at owned; exact (sep_holds.mp owned).1.elim
        | some last =>
          obtain ⟨same, parts⟩ := joined
          obtain ⟨one, two, apart, rfl, node, others⟩ := owned
          obtain ⟨⟨rfl, small⟩, final, chain⟩ := sep_holds.mp others
          refine sep_holds.mpr ⟨⟨same.symm, ?_⟩, final, ?_⟩
          · rw [parts, turns]
            omega
          · rw [parts]
            exact stretch_cons_iff.mpr ⟨address, some new, rfl, one, two, apart, rfl, node, chain⟩
  | none =>
    have ends := done comma
    apply Triple.pure
    intro cells owned
    cases closed : accept close (skip rest) with
    | none =>
      cases whole with
      | some _ => rw [closed] at ends; exact ends.elim
      | none =>
        have nothing (cells : Cells Block) (empty : emp cells) : held 0 none cells := held_nil empty
        rw [← sep_emp (owns _ _ _ _)] at owned
        exact held_mono (by omega) _ (owns_held _ (sep_mono (fun _ kept => kept) nothing _ owned))
    | some last =>
      have shorter := accept_skip_length closed
      cases whole with
      | none => rw [closed] at ends; exact ends.elim
      | some whole =>
        rw [closed] at ends
        obtain ⟨same, single⟩ := ends
        refine sep_holds.mpr ⟨⟨same.symm, ?_⟩, some address, ?_⟩
        · rw [single, turns, turns]
          omega
        · rw [single]
          exact stretch_single owned

end Chains

/-- A value without a string or a child is complete once its item is filled in. -/
theorem scalar_rule {before : Pointer} {address : Nat} {key : Option CStr} {text : List UInt8} (value : Parsed CJson text)
    (valueint : Item → Int32) (number : ∀ item number, value.item = .number number → valueint item = number)
    (none_ : value.item.valuestring = none) (leaf : children value.item = []) :
    Triple (waiting before address key)
      (modifyItem address (fun item => { item with kind := kindOf value.item, valueint := valueint item }) >>=
        fun _ => pure (some value.rest))
      (valueRead before address key (some value)) := by
  apply Triple.anyOf
  rintro ⟨item, ready⟩
  refine Triple.step _ _ rfl (modifyItem_rule _) fun _ => ?_
  apply Triple.pure
  intro cells owned
  have shorter := value.shorter
  have placed : Placed value.item before none { item with kind := kindOf value.item, valueint := valueint item } :=
    ⟨ready.prev, ready.next, rfl, ready.reference, ready.const, number item⟩
  refine sep_holds.mpr ⟨⟨rfl, ?_⟩, owns_leaf placed ready.valuestring ready.child none_ leaf owned⟩
  rw [items_eq, leaf, turns]
  omega

section Nested
variable {α : Type} {entries : α → List Entry} {tree : α → CJson} {kind : Kind} {before : Pointer} {address : Nat}
  {key : Option CStr} {head close : UInt8} {tail : List UInt8}

/-- What an array or an object is, of the list of what is in it. -/
structure Holds (entries : α → List Entry) (tree : α → CJson) (kind : Kind) : Prop where
  kind : ∀ values, kindOf (tree values) = kind
  below : ∀ values, children (tree values) = entries values
  valuestring : ∀ values, (tree values).valuestring = none
  number : ∀ values number, tree values ≠ .number number

theorem Holds.fits (holding : Holds entries tree kind) {item : Item} (ready : Ready before item) (child : Pointer)
    (values : α) : Placed (tree values) before none { item with kind := kind, child := child } :=
  ⟨ready.prev, ready.next, (holding.kind values).symm, ready.reference, ready.const,
    fun number same => absurd same (holding.number values number)⟩

def Wraps (tree : α → CJson) : Option (Parsed CJson (head :: tail)) → Option (Parsed α (skip tail)) → Prop
  | some whole, some values => whole.rest = values.rest ∧ whole.item = tree values.item
  | none, none => True
  | _, _ => False

/-- What `parse_array` and `parse_object` do once the opening bracket is read. -/
theorem nested_rule (holding : Holds entries tree kind) {item : Item} (ready : Ready before item)
    {program : Nat → List UInt8 → OnHeap (Option (List UInt8))} {result : Option (Parsed CJson (head :: tail))}
    (empty : ∀ rest, accept close (skip tail) = some rest →
      ∃ whole values, result = some whole ∧ whole.rest = rest ∧ whole.item = tree values ∧ entries values = [])
    (more : accept close (skip tail) = none → ∃ values : Option (Parsed α (skip tail)),
      (∀ child, Triple (waiting none child none) (program child (skip tail)) (chainRead entries none child values)) ∧
        Wraps tree result values) :
    Triple (sep (block address (.item { item with kind := kind })) (text item.string key))
      (match accept close (skip tail) with
      | some rest => pure (some rest)
      | none => cJSONNewItem >>= fun child => setChild address (some child) >>= fun _ => program child (skip tail))
      (valueRead before address key result) := by
  have shorter := skip_length tail
  cases closed : accept close (skip tail) with
  | some rest =>
    obtain ⟨whole, values, rfl, rfl, same, none_⟩ := empty rest closed
    have onward := accept_length closed
    apply Triple.pure
    intro cells owned
    refine sep_holds.mpr ⟨⟨rfl, ?_⟩, ?_⟩
    · rw [same, items_eq, holding.below, none_, turns, List.length_cons]
      omega
    · rw [same]
      have placed := holding.fits ready item.child values
      exact owns_leaf placed ready.valuestring ready.child (holding.valuestring values)
        ((holding.below values).trans none_) owned
  | none =>
    obtain ⟨values, valid, wraps⟩ := more closed
    rw [← emp_sep (sep _ _)]
    refine Triple.step _ _ rfl new_waiting fun child => ?_
    refine Triple.step (block address (.item { item with kind := kind }))
      (sep (waiting none child none) (text item.string key)) (by ac_rfl) (modifyItem_rule _) fun _ => ?_
    refine Triple.finish (waiting none child none) (sep (block address (.item { item with kind := kind, child := some child }))
      (text item.string key)) (by ac_rfl) (valid child) fun last cells owned => ?_
    cases values with
    | none =>
      cases result with
      | some _ => exact wraps.elim
      | none =>
        cases last with
        | some _ => exact (sep_holds.mp owned).1.elim
        | none =>
          exact held_mono (by rw [List.length_cons]; omega) _
            (@held_parent _ address { item with kind := kind, child := some child } key ready.reference ready.const
              ready.valuestring ready.next _ owned)
    | some values =>
      cases result with
      | none => exact wraps.elim
      | some whole =>
        cases last with
        | none => exact (sep_holds.mp owned).1.elim
        | some last =>
          obtain ⟨same, shape⟩ := wraps
          obtain ⟨one, two, apart, rfl, chain, others⟩ := owned
          obtain ⟨⟨rfl, small⟩, final, chain⟩ := sep_holds.mp chain
          refine sep_holds.mpr ⟨⟨same.symm, ?_⟩, ?_⟩
          · rw [shape, items_eq, holding.below, List.length_cons]
            omega
          · rw [shape]
            refine owns_iff.mpr ⟨_, final, holding.fits ready (some child) values.item, ?_⟩
            have joined : sep (stretch owns none (some child) (entries values.item) final none)
                (sep (block address (.item { item with kind := kind, child := some child })) (text item.string key))
                  (Cells.join one two) := ⟨one, two, apart, rfl, chain, others⟩
            refine Eq.mp (congrFun ?_ _) joined
            rw [body, show ({ item with kind := kind, child := some child } : Item).valuestring = none from
              ready.valuestring, holding.valuestring, holding.below, text, emp_sep]
            ac_rfl

end Nested

theorem lift_ok {α : Type} (value : α) : lift (.ok value) = pure value := rfl

section Strings
variable {before : Pointer} {address : Nat} {key : Option CStr} {text : List UInt8}

def stringRead (before : Pointer) (address : Nat) (key : Option CStr) :
    Option (Parsed CStr text) → Option (List UInt8) → Assertion Block
  | some string, some rest => sep (holds (rest = string.rest)) (spelled before address key string.item)
  | none, none => waiting before address key
  | _, _ => holds False

theorem parseString_rule {result : Option (Parsed CStr text)} (parse : PhicommTC1.parseString text = .ok result) :
    Triple (waiting before address key) (OnHeap.parseString address text) (stringRead before address key result) := by
  rw [OnHeap.parseString, parse, lift_ok, pure_bind]
  cases result with
  | none => exact Triple.pure fun _ owned => owned
  | some string =>
    apply Triple.anyOf
    rintro ⟨item, ready⟩
    rw [← emp_sep (sep _ _)]
    refine Triple.step _ _ rfl (alloc_triple (Block.text string.item)) fun out => ?_
    refine Triple.step (block address (.item item)) (sep (block out (.text string.item)) (CJsonOwnership.text item.string key))
      (by ac_rfl) (modifyItem_rule _) fun _ => ?_
    apply Triple.pure
    intro cells owned
    refine sep_holds.mpr ⟨rfl, ⟨item, ready⟩, out, ?_⟩
    rw [sep_comm (block out _)] at owned
    exact owned

end Strings

section Rules
variable (convert : Numeral → Int32)

def ofItems (trees : List CJson) : List Entry := children (.array trees)

def ofMembers (members : Members) : List Entry := children (.object members)

theorem array_holds : Holds ofItems CJson.array .array := ⟨fun _ => rfl, fun _ => rfl, fun _ => rfl, nofun⟩

theorem object_holds : Holds ofMembers CJson.object .object := ⟨fun _ => rfl, fun _ => rfl, fun _ => rfl, nofun⟩

/-- Each function of the parser, given turns enough, does what it does without memory. -/
def ValueRule (fuel : Nat) : Prop :=
  ∀ {before : Pointer} {address : Nat} {key : Option CStr} {text : List UInt8} {result : Option (Parsed CJson text)},
    2 * text.length + 1 ≤ fuel → PhicommTC1.parseValue convert text = .ok result →
    Triple (waiting before address key) (OnHeap.parseValue convert fuel address text) (valueRead before address key result)

def ItemsRule (fuel : Nat) : Prop :=
  ∀ {before : Pointer} {child : Nat} {text : List UInt8} {result : Option (Parsed (List CJson) text)},
    2 * text.length + 2 ≤ fuel → PhicommTC1.parseItems convert text = .ok result →
    Triple (waiting before child none) (OnHeap.parseItems convert fuel child text) (chainRead ofItems before child result)

def MembersRule (fuel : Nat) : Prop :=
  ∀ {before : Pointer} {child : Nat} {text : List UInt8} {result : Option (Parsed Members text)},
    2 * text.length + 2 ≤ fuel → PhicommTC1.parseMembers convert text = .ok result →
    Triple (waiting before child none) (OnHeap.parseMembers convert fuel child text)
      (chainRead ofMembers before child result)

variable {convert} {fuel : Nat}

theorem value_rule (items : ItemsRule convert fuel) (members : MembersRule convert fuel) : ValueRule convert (fuel + 1) := by
  intro before address key text result enough parse
  cases text with
  | nil =>
    rw [PhicommTC1.parseValue] at parse
    cases parse
    exact Triple.pure fun _ owned => waiting_held _ owned
  | cons head tail =>
    have shorter := skip_length tail
    rw [List.length_cons] at enough
    rw [PhicommTC1.parseValue] at parse
    rw [OnHeap.parseValue]
    by_cases isNull : startsWith (CStr.ofString "null").bytes (head :: tail) = true
    · rw [if_pos isNull] at parse ⊢
      cases parse
      exact scalar_rule ⟨.jsonNull, tail.drop 3, drop_shorter _ head tail⟩ Item.valueint (fun _ _ same => by cases same) rfl rfl
    rw [if_neg isNull] at parse ⊢
    by_cases isFalse : startsWith (CStr.ofString "false").bytes (head :: tail) = true
    · rw [if_pos isFalse] at parse ⊢
      cases parse
      exact scalar_rule ⟨.jsonFalse, tail.drop 4, drop_shorter _ head tail⟩ Item.valueint (fun _ _ same => by cases same) rfl rfl
    rw [if_neg isFalse] at parse ⊢
    by_cases isTrue : startsWith (CStr.ofString "true").bytes (head :: tail) = true
    · rw [if_pos isTrue] at parse ⊢
      cases parse
      exact scalar_rule ⟨.jsonTrue, tail.drop 3, drop_shorter _ head tail⟩ (fun _ => 1) (fun _ _ same => by cases same) rfl rfl
    rw [if_neg isTrue] at parse ⊢
    by_cases quote : head = 34
    · rw [if_pos quote] at parse ⊢
      obtain ⟨string, read, parse⟩ := Runs.bind_ok.mp parse
      cases parse
      apply (parseString_rule read).weaken (fun _ kept => kept)
      intro rest cells owned
      cases string with
      | none =>
        cases rest with
        | none => exact held_mono (Nat.le_add_left 1 _) _ (waiting_held _ owned)
        | some _ => exact owned.1.elim
      | some string =>
        cases rest with
        | none => exact owned.1.elim
        | some rest =>
          obtain ⟨rfl, spelled⟩ := sep_holds.mp owned
          have consumed := string.shorter
          refine sep_holds.mpr ⟨⟨rfl, ?_⟩, owns_spelled _ spelled⟩
          change 1 + string.rest.length ≤ _
          omega
    rw [if_neg quote] at parse ⊢
    by_cases number : head = 45 ∨ isDigit head = true
    · rw [dif_pos number] at parse
      rw [if_pos number, OnHeap.parseNumber]
      cases parse
      simp only [map_bind, map_pure]
      exact scalar_rule ⟨.number _, _, Numeral.parse_shorter number⟩ (fun _ => _)
        (fun item value same => CJson.number.inj same) rfl rfl
    rw [dif_neg number] at parse
    rw [if_neg number]
    by_cases bracket : head = 91
    · rw [if_pos bracket] at parse ⊢
      apply Triple.anyOf
      rintro ⟨item, ready⟩
      refine Triple.step _ _ rfl (modifyItem_rule _) fun _ => ?_
      refine nested_rule array_holds ready ?_ ?_
      · intro rest closed
        split at parse
        next rest' closed' =>
          obtain rfl : rest = rest' := Option.some.inj (closed.symm.trans closed')
          cases parse
          exact ⟨_, [], rfl, rfl, rfl, rfl⟩
        next closed' => rw [closed] at closed'; cases closed'
      · intro closed
        split at parse
        next rest closed' => rw [closed] at closed'; cases closed'
        next =>
          obtain ⟨values, read, parse⟩ := Runs.bind_ok.mp parse
          refine ⟨values, fun child => items (by omega) read, ?_⟩
          cases values with
          | none => cases parse; trivial
          | some values => cases parse; exact ⟨rfl, rfl⟩
    rw [if_neg bracket] at parse ⊢
    by_cases brace : head = 123
    · rw [if_pos brace] at parse ⊢
      apply Triple.anyOf
      rintro ⟨item, ready⟩
      refine Triple.step _ _ rfl (modifyItem_rule _) fun _ => ?_
      refine nested_rule object_holds ready ?_ ?_
      · intro rest closed
        split at parse
        next rest' closed' =>
          obtain rfl : rest = rest' := Option.some.inj (closed.symm.trans closed')
          cases parse
          exact ⟨_, [], rfl, rfl, rfl, rfl⟩
        next closed' => rw [closed] at closed'; cases closed'
      · intro closed
        split at parse
        next rest closed' => rw [closed] at closed'; cases closed'
        next =>
          obtain ⟨values, read, parse⟩ := Runs.bind_ok.mp parse
          refine ⟨values, fun child => members (by omega) read, ?_⟩
          cases values with
          | none => cases parse; trivial
          | some values => cases parse; exact ⟨rfl, rfl⟩
    rw [if_neg brace] at parse ⊢
    cases parse
    exact Triple.pure fun _ owned => held_mono (Nat.le_add_left 1 _) _ (waiting_held _ owned)

theorem items_rule (values : ValueRule convert fuel) (items : ItemsRule convert fuel) : ItemsRule convert (fuel + 1) := by
  intro before child text result enough parse
  rw [PhicommTC1.parseItems] at parse
  obtain ⟨first, value, parse⟩ := Runs.bind_ok.mp parse
  rw [OnHeap.parseItems]
  refine Triple.bind (values (by omega) value) fun rest => ?_
  cases first with
  | none =>
    cases parse
    cases rest with
    | none => exact Triple.pure fun _ owned => owned
    | some _ => exact Triple.never
  | some first =>
    cases rest with
    | none => exact Triple.never
    | some rest =>
      apply Triple.assuming
      rintro ⟨rfl, size⟩
      dsimp only at parse
      refine behind_rule size ?_ ?_
      · intro behind comma
        split at parse
        next behind' comma' =>
          obtain rfl : behind = behind' := Option.some.inj (comma.symm.trans comma')
          obtain ⟨sub, more, parse⟩ := Runs.bind_ok.mp parse
          have shorter := skip_accept_skip_length comma
          have first := first.shorter
          refine ⟨sub, fun new => items (by omega) more, ?_⟩
          cases sub with
          | none => cases parse; trivial
          | some sub => cases parse; exact ⟨rfl, rfl⟩
        next comma' => rw [comma] at comma'; cases comma'
      · intro comma
        split at parse
        next behind comma' => rw [comma] at comma'; cases comma'
        next =>
          split at parse
          next last closed => rw [closed]; cases parse; exact ⟨rfl, rfl⟩
          next closed => rw [closed]; cases parse; trivial

theorem members_rule (values : ValueRule convert fuel) (members : MembersRule convert fuel) :
    MembersRule convert (fuel + 1) := by
  intro before child text result enough parse
  rw [PhicommTC1.parseMembers] at parse
  obtain ⟨key, read, parse⟩ := Runs.bind_ok.mp parse
  rw [OnHeap.parseMembers]
  refine Triple.bind (parseString_rule read) fun rest => ?_
  cases key with
  | none =>
    cases parse
    cases rest with
    | none => exact Triple.pure fun _ owned => held_mono (Nat.le_add_left 1 _) _ (waiting_held _ owned)
    | some _ => exact Triple.never
  | some key =>
    cases rest with
    | none => exact Triple.never
    | some rest =>
      apply Triple.assuming
      rintro rfl
      dsimp only at parse
      refine Triple.bind moved_rule fun _ => ?_
      split at parse
      next colon =>
        cases parse
        rw [colon]
        exact Triple.pure fun _ owned => held_mono (Nat.le_add_left 1 _) _ (waiting_held _ owned)
      next behind colon =>
        obtain ⟨first, value, parse⟩ := Runs.bind_ok.mp parse
        have shorter := Nat.lt_trans (skip_accept_skip_length colon) key.shorter
        rw [colon]
        refine Triple.bind (values (by omega) value) fun rest => ?_
        cases first with
        | none =>
          cases parse
          cases rest with
          | none => exact Triple.pure fun _ owned => held_mono (by omega) _ owned
          | some _ => exact Triple.never
        | some first =>
          cases rest with
          | none => exact Triple.never
          | some rest =>
            apply Triple.assuming
            rintro ⟨rfl, size⟩
            dsimp only at parse
            refine behind_rule (Nat.le_trans size (Nat.le_of_lt shorter)) ?_ ?_
            · intro behind comma
              split at parse
              next behind' comma' =>
                obtain rfl : behind = behind' := Option.some.inj (comma.symm.trans comma')
                obtain ⟨sub, more, parse⟩ := Runs.bind_ok.mp parse
                have onward := skip_accept_skip_length comma
                have first := first.shorter
                refine ⟨sub, fun new => members (by omega) more, ?_⟩
                cases sub with
                | none => cases parse; trivial
                | some sub => cases parse; exact ⟨rfl, rfl⟩
              next comma' => rw [comma] at comma'; cases comma'
            · intro comma
              split at parse
              next behind comma' => rw [comma] at comma'; cases comma'
              next =>
                split at parse
                next last closed => rw [closed]; cases parse; exact ⟨rfl, rfl⟩
                next closed => rw [closed]; cases parse; trivial

theorem parse_rules (fuel : Nat) : ValueRule convert fuel ∧ ItemsRule convert fuel ∧ MembersRule convert fuel := by
  induction fuel with
  | zero => exact ⟨fun enough => by omega, fun enough => by omega, fun enough => by omega⟩
  | succ fuel ih =>
    obtain ⟨values, items, members⟩ := ih
    exact ⟨value_rule items members, items_rule values items, members_rule values members⟩

/-- `cJSON_Parse` hands out a root that owns the whole tree, or NULL and every block is given back. -/
theorem cJSONParse_rule {value : CStr} {tree : Option CJson} (parse : PhicommTC1.cJSONParse convert value = .ok tree)
    (enough : 2 * value.length + 1 ≤ fuel) : Triple emp (OnHeap.cJSONParse convert fuel value) fun root =>
      sep (holds (∀ found, tree = some found → CJsonEdits.items found ≤ value.length)) (alone root (tree.map (none, ·))) := by
  obtain ⟨parsed, read, parse⟩ := Runs.bind_ok.mp parse
  have shorter : (skip value.bytes).length ≤ value.length := skip_length value.bytes
  refine Triple.bind new_waiting fun c => ?_
  refine Triple.bind ((parse_rules fuel).1 (by omega) read) fun rest => ?_
  cases parse
  cases parsed with
  | none =>
    cases rest with
    | some _ => exact Triple.never
    | none =>
      refine Triple.bind (delete_held (by omega)) fun _ => ?_
      apply Triple.pure
      intro cells owned
      exact sep_holds.mpr ⟨nofun, owned⟩
  | some parsed =>
    cases rest with
    | none => exact Triple.never
    | some rest =>
      apply Triple.assuming
      rintro ⟨rfl, size⟩
      apply Triple.pure
      intro cells owned
      refine sep_holds.mpr ⟨?_, owned⟩
      intro found same
      obtain rfl := Option.some.inj same
      omega

end Rules

end PhicommTC1.Proofs.CJsonParsing
