import PhicommTC1.CJsonHeap
import PhicommTC1.Foundation.LinkedChain

/-! What a cJSON tree owns in memory: its items, their strings and, item by item, the trees below.
An item that hangs in a chain owns no more than one that stands alone. -/

namespace PhicommTC1.Proofs.CJsonOwnership
open CText PhicommTC1 Separation LinkedChain

/-- A string behind a pointer of its own, or NULL for no string. -/
def text : Pointer → Option CStr → Assertion Block
  | some address, some text => block address (.text text)
  | none, none => emp
  | _, _ => holds False

theorem text_none {pointer : Pointer} : ∀ cells, text pointer none cells → emp cells := by
  intro cells owned
  cases pointer with
  | none => exact owned
  | some _ => exact owned.1.elim

def kindOf : CJson → Kind
  | .jsonFalse => .jsonFalse
  | .jsonTrue => .jsonTrue
  | .jsonNull => .jsonNull
  | .number _ => .number
  | .string _ => .string
  | .array _ => .array
  | .object _ => .object

/-- What an item says of its value by itself. -/
structure Fits (tree : CJson) (item : Item) : Prop where
  kind : item.kind = kindOf tree
  reference : item.isReference = false
  const : item.stringIsConst = false
  number : ∀ value, tree = .number value → item.valueint = value

/-- A value and the key it stands under, if it stands under one. -/
abbrev Entry := Option CStr × CJson

/-- What hangs below an item, in order. -/
def children : CJson → List Entry
  | .array child => child.map (none, ·)
  | .object child => child.map fun member => (some member.1, member.2)
  | _ => []

/-- An item of a tree; `below` is what its `child` leads to. -/
def node (tree : CJson) (before : Pointer) (address : Nat) (key : Option CStr) (behind : Pointer)
    (below : Pointer → Assertion Block) : Assertion Block :=
  anyOf fun item : Item => sep (holds (item.prev = before ∧ item.next = behind ∧ Fits tree item))
    (sep (block address (.item item))
      (sep (text item.string key) (sep (text item.valuestring tree.valuestring) (below item.child))))

mutual

def ownsTree : CJson → Pointer → Nat → Option CStr → Pointer → Assertion Block
  | .array child, before, address, key, behind =>
    node (.array child) before address key behind fun first => anyOf fun last => ownsItems child none first last none
  | .object child, before, address, key, behind =>
    node (.object child) before address key behind fun first => anyOf fun last =>
      ownsMembers child none first last none
  | .jsonFalse, before, address, key, behind => node .jsonFalse before address key behind fun first => holds (first = none)
  | .jsonTrue, before, address, key, behind => node .jsonTrue before address key behind fun first => holds (first = none)
  | .jsonNull, before, address, key, behind => node .jsonNull before address key behind fun first => holds (first = none)
  | .number value, before, address, key, behind =>
    node (.number value) before address key behind fun first => holds (first = none)
  | .string value, before, address, key, behind =>
    node (.string value) before address key behind fun first => holds (first = none)
termination_by structural tree => tree

def ownsItems : List CJson → Pointer → Pointer → Pointer → Pointer → Assertion Block
  | [], before, first, last, behind => holds (first = behind ∧ last = before)
  | tree :: rest, before, first, last, behind => anyOf fun address => anyOf fun next =>
    sep (holds (first = some address))
      (sep (ownsTree tree before address none next) (ownsItems rest (some address) next last behind))
termination_by structural items => items

def ownsMember : CStr × CJson → Pointer → Nat → Pointer → Assertion Block
  | (key, tree), before, address, behind => ownsTree tree before address (some key) behind
termination_by structural member => member

def ownsMembers : List (CStr × CJson) → Pointer → Pointer → Pointer → Pointer → Assertion Block
  | [], before, first, last, behind => holds (first = behind ∧ last = before)
  | member :: rest, before, first, last, behind => anyOf fun address => anyOf fun next =>
    sep (holds (first = some address))
      (sep (ownsMember member before address next) (ownsMembers rest (some address) next last behind))
termination_by structural members => members

end

def owns (before : Pointer) (address : Nat) (entry : Entry) (behind : Pointer) : Assertion Block :=
  ownsTree entry.2 before address entry.1 behind

theorem ownsItems_eq (items : List CJson) (before first last behind : Pointer) :
    ownsItems items before first last behind = stretch owns before first (items.map (none, ·)) last behind := by
  induction items generalizing before first with
  | nil => rfl
  | cons tree rest ih => simp only [ownsItems, List.map_cons, stretch, owns, ih]

theorem ownsMembers_eq (members : Members) (before first last behind : Pointer) :
    ownsMembers members before first last behind =
      stretch owns before first (members.map fun member => (some member.1, member.2)) last behind := by
  induction members generalizing before first with
  | nil => rfl
  | cons member rest ih =>
    obtain ⟨key, tree⟩ := member
    simp only [ownsMembers, ownsMember, List.map_cons, stretch, owns, ih]

/-- The item at an address, opened: its strings and the chain below it. -/
def body (tree : CJson) (address : Nat) (key : Option CStr) (item : Item) (last : Pointer) : Assertion Block :=
  sep (block address (.item item)) (sep (text item.string key)
    (sep (text item.valuestring tree.valuestring) (stretch owns none item.child (children tree) last none)))

/-- How an item hangs where it does and stands for what it does. -/
structure Placed (tree : CJson) (before behind : Pointer) (item : Item) : Prop where
  prev : item.prev = before
  next : item.next = behind
  fits : Fits tree item

theorem owns_iff {before behind : Pointer} {address : Nat} {entry : Entry} {cells : Cells Block} :
    owns before address entry behind cells ↔
      ∃ item last, Placed entry.2 before behind item ∧ body entry.2 address entry.1 item last cells := by
  obtain ⟨key, tree⟩ := entry
  have opened (below : Pointer → Assertion Block)
      (same : ∀ first part, below first part ↔ ∃ last, stretch owns none first (children tree) last none part) :
      node tree before address key behind below cells ↔
        ∃ item last, Placed tree before behind item ∧ body tree address key item last cells := by
    have deep (item : Item) : sep (block address (.item item)) (sep (text item.string key)
        (sep (text item.valuestring tree.valuestring) (below item.child))) cells ↔
          ∃ last, body tree address key item last cells :=
      sep_exists fun _ => sep_exists fun _ => sep_exists (same item.child)
    constructor
    · rintro ⟨item, owned⟩
      obtain ⟨⟨prev, next, fits⟩, owned⟩ := sep_holds.mp owned
      obtain ⟨last, owned⟩ := (deep item).mp owned
      exact ⟨item, last, ⟨prev, next, fits⟩, owned⟩
    · rintro ⟨item, last, placed, owned⟩
      exact ⟨item, sep_holds.mpr ⟨⟨placed.prev, placed.next, placed.fits⟩, (deep item).mpr ⟨last, owned⟩⟩⟩
  have leaf (first : Pointer) (part : Cells Block) :
      holds (first = none) part ↔ ∃ last, stretch owns none first [] last none part := by
    constructor
    · intro owned
      exact ⟨none, ⟨owned.1, rfl⟩, owned.2⟩
    · rintro ⟨last, owned⟩
      exact ⟨owned.1.1, owned.2⟩
  cases tree with
  | array child =>
    refine opened (fun first => anyOf fun last => ownsItems child none first last none) ?_
    intro first part
    simp only [anyOf, ownsItems_eq, children]
  | object child =>
    refine opened (fun first => anyOf fun last => ownsMembers child none first last none) ?_
    intro first part
    simp only [anyOf, ownsMembers_eq, children]
  | _ => exact opened _ leaf

section Items
variable {cells : Cells Block} {address : Nat} {item : Item} {tree : CJson} {key : Option CStr} {last : Pointer}

theorem loadItem_looks (found : cells address = some (.item item)) : Looks cells (loadItem address) item :=
  (Looks.load found HeapFault.badAddress).bind Looks.pure

theorem loadText_looks {string : CStr} (found : cells address = some (.text string)) :
    Looks cells (loadText (some address)) string :=
  Looks.pure.bind ((Looks.load found HeapFault.badAddress).bind Looks.pure)

theorem body_item (owned : body tree address key item last cells) : cells address = some (.item item) :=
  block_found owned

theorem body_looks (owned : body tree address key item last cells) : Looks cells (loadItem address) item :=
  loadItem_looks (body_item owned)

theorem modifyItem_rule (change : Item → Item) : Triple (block address (.item item)) (modifyItem address change)
    fun _ => block address (.item (change item)) := by
  apply Triple.look
  · intro cells owned
    exact loadItem_looks (block_here owned)
  · exact store_triple HeapFault.badAddress _

/-- An assignment that leaves the pointers to what the item owns. -/
theorem modify_body (change : Item → Item) (string : (change item).string = item.string)
    (valuestring : (change item).valuestring = item.valuestring) (child : (change item).child = item.child) :
    Triple (body tree address key item last) (modifyItem address change)
      fun _ => body tree address key (change item) last := by
  simp only [body, string, valuestring, child]
  exact (modifyItem_rule change).frame _

end Items

theorem closed {before behind : Pointer} {address : Nat} {tree : CJson} {key : Option CStr} {item : Item} {below : Pointer}
    {kept : Assertion Block} {cells : Cells Block} (placed : Placed tree before behind item)
    (owned : sep (body tree address key item below) kept cells) : sep (owns before address (key, tree) behind) kept cells :=
  sep_mono (fun _ node => owns_iff.mpr ⟨item, below, placed, node⟩) (fun _ kept => kept) _ owned

/-- What can be shown of an item opened, with whatever is owned beside it. -/
theorem opened {α : Type} {before behind : Pointer} {address : Nat} {entry : Entry} {kept : Assertion Block}
    {program : OnHeap α} {post : α → Assertion Block} (valid : ∀ item last, Placed entry.2 before behind item →
      Triple (sep (body entry.2 address entry.1 item last) kept) program post) :
    Triple (sep (owns before address entry behind) kept) program post := by
  have opens (cells : Cells Block) (owned : owns before address entry behind cells) :
      ∃ found : Item × Pointer, Placed entry.2 before behind found.1 ∧
        body entry.2 address entry.1 found.1 found.2 cells := by
    obtain ⟨item, last, placed, owned⟩ := owns_iff.mp owned
    exact ⟨(item, last), placed, owned⟩
  apply Triple.opened fun _ => sep_opened kept opens
  exact fun found placed => valid found.1 found.2 placed

/-- The same of a chain that is not empty. -/
theorem opened_cons {α : Type} {before first last behind : Pointer} {entry : Entry} {entries : List Entry}
    {kept : Assertion Block} {program : OnHeap α} {post : α → Assertion Block} (valid : ∀ c next, first = some c →
      Triple (sep (sep (owns before c entry next) (stretch owns (some c) next entries last behind)) kept) program post) :
    Triple (sep (stretch owns before first (entry :: entries) last behind) kept) program post := by
  have opens (cells : Cells Block) (owned : stretch owns before first (entry :: entries) last behind cells) :
      ∃ spot : Nat × Pointer, first = some spot.1 ∧
        sep (owns before spot.1 entry spot.2) (stretch owns (some spot.1) spot.2 entries last behind) cells := by
    obtain ⟨c, next, here, owned⟩ := stretch_cons_iff.mp owned
    exact ⟨(c, next), here, owned⟩
  apply Triple.opened fun _ => sep_opened kept opens
  exact fun spot here => valid spot.1 spot.2 here

theorem opened_head {α : Type} {before first last behind : Pointer} {entry : Entry} {entries : List Entry}
    {kept : Assertion Block} {program : OnHeap α} {post : α → Assertion Block}
    (valid : ∀ address item below, first = some address → Placed entry.2 before item.next item →
      Triple (sep (sep (body entry.2 address entry.1 item below)
        (stretch owns (some address) item.next entries last behind)) kept) program post) :
    Triple (sep (stretch owns before first (entry :: entries) last behind) kept) program post := by
  apply opened_cons
  intro c next here
  rw [sep_assoc]
  apply opened
  intro item below placed
  obtain rfl := placed.next
  rw [← sep_assoc]
  exact valid c item below here placed

theorem owns_located {before behind : Pointer} {address : Nat} {entry : Entry} {cells : Cells Block}
    (owned : owns before address entry behind cells) : cells address ≠ none := by
  obtain ⟨item, last, -, owned⟩ := owns_iff.mp owned
  rw [body_item owned]
  nofun

/-- An item leads to the next, whatever else it holds. -/
theorem owns_leads {before next : Pointer} {c : Nat} {entry : Entry} {kept : Assertion Block} {cells : Cells Block}
    (owned : sep (owns before c entry next) kept cells) :
    ∃ source : Item, source.next = next ∧ Looks cells (loadItem c) source := by
  obtain ⟨one, two, apart, rfl, node, -⟩ := owned
  obtain ⟨source, below, placed, inside⟩ := owns_iff.mp node
  exact ⟨source, placed.next, (body_looks inside).widen Cells.within_join⟩

/-- An assignment to one of the two links, which leaves what the item says of its value. -/
theorem relink {before behind newBefore newBehind : Pointer} {address : Nat} {entry : Entry} (change : Item → Item)
    (placed : ∀ item, Placed entry.2 before behind item → Placed entry.2 newBefore newBehind (change item))
    (string : ∀ item, (change item).string = item.string)
    (valuestring : ∀ item, (change item).valuestring = item.valuestring)
    (child : ∀ item, (change item).child = item.child) :
    Triple (owns before address entry behind) (modifyItem address change) fun _ => owns newBefore address entry newBehind := by
  rw [← sep_emp (owns before address entry behind)]
  apply opened
  intro item last hangs
  rw [sep_emp]
  apply (modify_body change (string item) (valuestring item) (child item)).weaken (fun _ kept => kept)
  exact fun _ _ owned => owns_iff.mpr ⟨change item, last, placed item hangs, owned⟩

theorem Placed.setNext {tree : CJson} {before behind : Pointer} {item : Item} (placed : Placed tree before behind item)
    (other : Pointer) : Placed tree before other { item with next := other } :=
  ⟨placed.prev, rfl, placed.fits.kind, placed.fits.reference, placed.fits.const, placed.fits.number⟩

theorem Placed.setPrev {tree : CJson} {before behind : Pointer} {item : Item} (placed : Placed tree before behind item)
    (other : Pointer) : Placed tree other behind { item with prev := other } :=
  ⟨rfl, placed.next, placed.fits.kind, placed.fits.reference, placed.fits.const, placed.fits.number⟩

theorem Placed.setKey {tree : CJson} {before behind : Pointer} {item : Item} (placed : Placed tree before behind item)
    (other : Pointer) : Placed tree before behind { item with string := other } :=
  ⟨placed.prev, placed.next, placed.fits.kind, placed.fits.reference, placed.fits.const, placed.fits.number⟩

/-- The links of cJSON's chains. -/
def links : Links Block HeapFault Entry where
  entry := owns
  setNext := setNext
  setPrev := setPrev
  located := owns_located
  next_rule other := relink _ (fun _ placed => placed.setNext other) (fun _ => rfl) (fun _ => rfl) (fun _ => rfl)
  prev_rule other := relink _ (fun _ placed => placed.setPrev other) (fun _ => rfl) (fun _ => rfl) (fun _ => rfl)

section Walking
variable {before first last behind : Pointer} {entries front : List Entry} {cells : Cells Block}

/-- The first item of a chain, read where it lies. -/
theorem head_looks {entry : Entry} (owned : stretch owns before first (entry :: entries) last behind cells) :
    ∃ address item part rest, first = some address ∧ Placed entry.2 before item.next item ∧ Cells.Within part cells ∧
      (∃ below, body entry.2 address entry.1 item below part) ∧
      Cells.Within rest cells ∧ stretch owns (some address) item.next entries last behind rest := by
  obtain ⟨address, next, here, one, two, apart, rfl, node, others⟩ := stretch_cons_iff.mp owned
  obtain ⟨item, below, placed, inside⟩ := owns_iff.mp node
  obtain rfl := placed.next
  exact ⟨address, item, one, two, here, placed, Cells.within_join, ⟨below, inside⟩, Cells.within_join_right apart, others⟩

theorem lastItem_looks {entry : Entry} {fuel : Nat} {address final : Nat} (enough : entries.length < fuel)
    (owned : stretch owns before (some address) (entry :: entries) (some final) none cells) :
    Looks cells (lastItem fuel address) final := by
  suffices general : ∀ whole, Cells.Within cells whole → Looks whole (lastItem fuel address) final from
    general cells fun _ _ found => found
  induction entries generalizing entry before address cells fuel with
  | nil =>
    intro whole within
    obtain ⟨fuel, rfl⟩ := Nat.exists_eq_succ_of_ne_zero (Nat.ne_of_gt enough)
    obtain ⟨_, item, part, rest, same, placed, here, ⟨below, node⟩, -, others⟩ := head_looks owned
    cases same
    obtain ⟨ended, same⟩ := others.1
    cases same
    apply ((body_looks node).widen (here.trans within)).bind
    rw [ended]
    exact Looks.pure
  | cons next entries ih =>
    intro whole within
    obtain ⟨fuel, rfl⟩ := Nat.exists_eq_succ_of_ne_zero (Nat.ne_of_gt (Nat.lt_of_le_of_lt (Nat.zero_le _) enough))
    obtain ⟨_, item, part, rest, same, placed, here, ⟨below, node⟩, there, others⟩ := head_looks owned
    cases same
    obtain ⟨start, -, behind, -⟩ := stretch_ends others
    rw [behind] at others
    apply ((body_looks node).widen (here.trans within)).bind
    rw [behind]
    exact ih (Nat.lt_of_succ_lt_succ enough) others whole (there.trans within)

theorem countItems_looks {fuel : Nat} (enough : entries.length ≤ fuel)
    (owned : stretch owns before first entries last none cells) :
    Looks cells (countItems fuel first) entries.length := by
  suffices general : ∀ whole, Cells.Within cells whole → Looks whole (countItems fuel first) entries.length from
    general cells fun _ _ found => found
  induction entries generalizing before first cells fuel with
  | nil =>
    intro whole within
    obtain ⟨rfl, -⟩ := owned.1
    cases fuel <;> exact Looks.pure
  | cons entry entries ih =>
    intro whole within
    obtain ⟨fuel, rfl⟩ := Nat.exists_eq_succ_of_ne_zero (Nat.ne_of_gt (Nat.lt_of_lt_of_le (Nat.zero_lt_succ _) enough))
    obtain ⟨address, item, part, rest, rfl, placed, here, ⟨below, node⟩, there, others⟩ := head_looks owned
    have onward := ih (Nat.le_of_succ_le_succ enough) others whole (there.trans within)
    exact ((body_looks node).widen (here.trans within)).bind (onward.bind Looks.pure)

/-- What `cJSON_strcasecmp` makes of an entry's key. -/
def named (string : CStr) (entry : Entry) : Bool := entry.1.any fun key => sameIgnoringCase key.bytes string.bytes

theorem hasKey_looks {tree : CJson} {key : Option CStr} {address : Nat} {item : Item} (string : CStr)
    (owned : body tree address key item last cells) : Looks cells (hasKey string item.string) (named string (key, tree)) := by
  obtain ⟨one, two, apart, rfl, -, three, four, also, rfl, keyed, -⟩ := owned
  cases stored : item.string with
  | none =>
    rw [stored] at keyed
    cases key with
    | none => exact Looks.pure
    | some key => exact keyed.1.elim
  | some pointer =>
    rw [stored] at keyed
    cases key with
    | none => exact keyed.1.elim
    | some key =>
      have found : three pointer = some (.text key) := block_here keyed
      have looks : Looks three (hasKey string (some pointer)) (named string (some key, tree)) :=
        (loadText_looks found).bind Looks.pure
      exact looks.widen (Cells.within_join.trans (Cells.within_join_right apart))

/-- A pointer to an item of a tree that is owned, or NULL for nothing. -/
def Shows (part : Cells Block) : Pointer → Option Entry → Prop
  | some address, some entry => ∃ sub before behind, Cells.Within sub part ∧ owns before address entry behind sub
  | none, none => True
  | _, _ => False

theorem Shows.none_iff {part : Cells Block} {pointer : Pointer} {entry : Option Entry} (shows_ : Shows part pointer entry) :
    pointer = none ↔ entry = none := by
  cases pointer <;> cases entry
  · simp
  · exact shows_.elim
  · exact shows_.elim
  · simp

theorem Shows.widen {part whole : Cells Block} {pointer : Pointer} {entry : Option Entry} (within : Cells.Within part whole)
    (shown : Shows part pointer entry) : Shows whole pointer entry := by
  cases pointer with
  | none => cases entry <;> exact shown
  | some p =>
    cases entry with
    | none => exact shown
    | some entry =>
      obtain ⟨sub, before, behind, inside, owned⟩ := shown
      exact ⟨sub, before, behind, inside.trans within, owned⟩

/-- What `cJSON_GetObjectItem` walks past is counted, and the first entry under the key is where it stops. -/
theorem seekKey_looks {fuel : Nat} (string : CStr) (enough : entries.length ≤ fuel)
    (owned : stretch owns before first entries last none cells) :
    ∃ found, Looks cells (seekKey string fuel first) (entries.findIdx (named string), found) ∧
      Shows cells found (entries.find? (named string)) := by
  suffices general : ∀ whole, Cells.Within cells whole →
      ∃ found, Looks whole (seekKey string fuel first) (entries.findIdx (named string), found) ∧
        Shows whole found (entries.find? (named string)) from general cells fun _ _ found => found
  induction entries generalizing before first cells fuel with
  | nil =>
    intro whole within
    obtain ⟨rfl, -⟩ := owned.1
    refine ⟨none, ?_, trivial⟩
    cases fuel <;> exact Looks.pure
  | cons entry entries ih =>
    intro whole within
    obtain ⟨fuel, rfl⟩ := Nat.exists_eq_succ_of_ne_zero (Nat.ne_of_gt (Nat.lt_of_lt_of_le (Nat.zero_lt_succ _) enough))
    obtain ⟨address, item, part, rest, rfl, placed, here, ⟨below, node⟩, there, others⟩ := head_looks owned
    have start := (body_looks node).widen (here.trans within)
    have key := (hasKey_looks string node).widen (here.trans within)
    cases same : named string entry with
    | true =>
      rw [show named string (entry.1, entry.2) = true from same] at key
      rw [List.findIdx_cons, List.find?_cons, same]
      exact ⟨some address, start.bind (key.bind Looks.pure), part, before, item.next, here.trans within,
        owns_iff.mpr ⟨item, below, placed, node⟩⟩
    | false =>
      rw [show named string (entry.1, entry.2) = false from same] at key
      obtain ⟨found, looks, shown⟩ := ih (Nat.le_of_succ_le_succ enough) others whole (there.trans within)
      rw [List.findIdx_cons, List.find?_cons, same]
      exact ⟨found, start.bind (key.bind (looks.bind Looks.pure)), shown⟩

end Walking

end PhicommTC1.Proofs.CJsonOwnership
