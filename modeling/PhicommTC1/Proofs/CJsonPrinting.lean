import PhicommTC1.CJsonHeapText
import PhicommTC1.Proofs.CJsonEdits
import PhicommTC1.Proofs.PrintedSize
import PhicommTC1.Proofs.PrintedText

/-! `cJSON_Print` in memory: every buffer it allocates is large enough for what is written there, and of all
of them only the text it returns is left. -/

namespace PhicommTC1.Proofs.CJsonPrinting
open CText PhicommTC1 Separation LinkedChain CJsonOwnership CJsonEdits

section Clean
variable {first second : List UInt8}

def Clean (bytes : List UInt8) : Prop := 0 ∉ bytes

theorem Clean.nil : Clean [] := List.not_mem_nil

theorem Clean.append (left : Clean first) (right : Clean second) : Clean (first ++ second) := by
  intro member
  rcases List.mem_append.mp member with member | member
  · exact left member
  · exact right member

theorem Clean.cons {byte : UInt8} (nonzero : byte ≠ 0) (rest : Clean first) : Clean (byte :: first) := by
  intro member
  rcases List.mem_cons.mp member with same | member
  · exact nonzero same.symm
  · exact rest member

theorem layout_clean (fmt : Bool) {spaces : List UInt8} (clean : Clean spaces) : Clean (CJson.layout fmt spaces) := by
  cases fmt with
  | true => exact clean
  | false => exact .nil

theorem tabs_clean (depth : Nat) : Clean (CJson.tabs depth) := by
  intro member
  exact absurd (List.eq_of_mem_replicate member) (by decide)

theorem printByte_clean {byte : UInt8} (nonzero : byte ≠ 0) : Clean (CJson.printByte byte) := by
  have every : ∀ n < 256, n ≠ 0 → 0 ∉ CJson.printByte (UInt8.ofNat n) := by decide +kernel
  have clean := every byte.toNat byte.toNat_lt fun zero => nonzero (UInt8.toNat_inj.mp zero)
  rwa [UInt8.ofNat_toNat] at clean

theorem printStringPtr_clean (text : CStr) : Clean (CJson.printStringPtr text) := by
  refine .append (.cons (by decide) ?_) (.cons (by decide) .nil)
  intro member
  obtain ⟨byte, inside, member⟩ := List.mem_flatMap.mp member
  exact printByte_clean (fun zero => text.noNul (zero ▸ inside)) member

theorem decimal_clean (value : Int) : Clean (decimal value) := by
  have digits : Clean (PrintedText.digitBytes value.natAbs) := by
    intro member
    have digit := PrintedText.digitBytes_isDigit _ _ member
    exact absurd digit (by decide)
  rw [PrintedText.decimal_eq]
  split
  · exact .cons (by decide) digits
  · exact digits

mutual

theorem printValue_clean (fmt : Bool) (depth : Nat) : (tree : CJson) → Clean (CJson.printValue fmt depth tree)
  | .jsonNull => (CStr.ofString "null").noNul
  | .jsonFalse => (CStr.ofString "false").noNul
  | .jsonTrue => (CStr.ofString "true").noNul
  | .number value => decimal_clean value.toInt
  | .string text => printStringPtr_clean text
  | .array child => .append (.cons (by decide) (printItems_clean fmt (depth + 1) child)) (.cons (by decide) .nil)
  | .object child => by
    have bracket : Clean [125] := .cons (by decide) .nil
    rw [CJson.printValue]
    split
    · exact .append (.cons (by decide) (layout_clean fmt (.cons (by decide) (tabs_clean _)))) bracket
    · have opening : Clean (123 :: CJson.layout fmt [10]) := .cons (by decide) (layout_clean fmt (.cons (by decide) .nil))
      exact .append (.append (.append opening (printMembers_clean fmt (depth + 1) child))
        (layout_clean fmt (tabs_clean depth))) bracket
termination_by structural tree => tree

theorem printItems_clean (fmt : Bool) (depth : Nat) : (trees : List CJson) → Clean (CJson.printItems fmt depth trees)
  | [] => .nil
  | tree :: rest => by
    have comma : Clean (if rest.isEmpty then [] else 44 :: CJson.layout fmt [32]) := by
      split
      · exact .nil
      · exact .cons (by decide) (layout_clean fmt (.cons (by decide) .nil))
    exact .append (.append (printValue_clean fmt depth tree) comma) (printItems_clean fmt depth rest)
termination_by structural trees => trees

theorem printMember_clean (fmt : Bool) (depth : Nat) : (member : CStr × CJson) → Clean (CJson.printMember fmt depth member)
  | (key, tree) => by
    have colon : Clean (58 :: CJson.layout fmt [9]) := .cons (by decide) (layout_clean fmt (.cons (by decide) .nil))
    exact .append (.append (.append (layout_clean fmt (tabs_clean depth)) (printStringPtr_clean key)) colon)
      (printValue_clean fmt depth tree)
termination_by structural member => member

theorem printMembers_clean (fmt : Bool) (depth : Nat) :
    (members : List (CStr × CJson)) → Clean (CJson.printMembers fmt depth members)
  | [] => .nil
  | member :: rest => by
    have comma : Clean (if rest.isEmpty then [] else [44]) := by
      split
      · exact .nil
      · exact .cons (by decide) .nil
    exact .append (.append (.append (printMember_clean fmt depth member) comma)
      (layout_clean fmt (.cons (by decide) .nil))) (printMembers_clean fmt depth rest)
termination_by structural members => members

end

/-- The text of a value. -/
def printed (fmt : Bool) (depth : Nat) (tree : CJson) : CStr := ⟨_, printValue_clean fmt depth tree⟩

def printedKey (key : CStr) : CStr := ⟨_, printStringPtr_clean key⟩

end Clean

section Buffers
variable {out size : Nat} {sofar : CStr} {bytes : List UInt8}

theorem allocText_rule (clean : Clean bytes) (room : bytes.length < size) :
    Triple emp (OnHeap.allocText size bytes) fun out => block out (.text ⟨bytes, clean⟩) := by
  rw [OnHeap.allocText, if_pos room, show CStr.upToNul bytes = ⟨bytes, clean⟩ from PrintedText.upToNul_bytes ⟨bytes, clean⟩]
  exact alloc_triple _

theorem appendText_rule (clean : Clean bytes) (room : sofar.length + bytes.length < size) :
    Triple (block out (.text sofar)) (OnHeap.appendText out size bytes)
      fun _ => block out (.text (sofar ++ ⟨bytes, clean⟩)) := by
  refine Triple.look (fun _ owned => loadText_looks (block_here owned)) ?_
  rw [if_pos room, show CStr.upToNul (sofar.bytes ++ bytes) = sofar ++ ⟨bytes, clean⟩ from
    PrintedText.upToNul_bytes (sofar ++ ⟨bytes, clean⟩)]
  exact store_triple _ _

/-- The strings printed so far, each with its address. -/
def written : List (Nat × CStr) → Assertion Block
  | [] => emp
  | (out, string) :: rest => sep (block out (.text string)) (written rest)

theorem written_append (front rest : List (Nat × CStr)) :
    written (front ++ rest) = sep (written front) (written rest) := by
  induction front with
  | nil => rw [List.nil_append, written, emp_sep]
  | cons head front ih => rw [List.cons_append, written, ih, written, sep_assoc]

def pointersTo (outs : List (Nat × CStr)) : List Pointer := outs.map fun out => some out.1

theorem entries_look {entries : Nat} {pointers : List Pointer} {kept : Assertion Block} {cells : Cells Block}
    (owned : sep (block entries (.pointers pointers)) kept cells) :
    Looks cells (load HeapFault.badAddress entries >>= OnHeap.pointersOf) pointers :=
  (Looks.load (block_found owned) HeapFault.badAddress).bind Looks.pure

theorem entryAt_looks {entries i : Nat} {pointers : List Pointer} {pointer : Pointer} {kept : Assertion Block}
    {cells : Cells Block} (found : pointers[i]? = some pointer)
    (owned : sep (block entries (.pointers pointers)) kept cells) : Looks cells (OnHeap.entryAt entries i) pointer := by
  rw [OnHeap.entryAt]
  apply (entries_look owned).bind
  rw [found]
  exact Looks.pure

theorem setEntry_rule {entries i ret : Nat} {pointers : List Pointer} (inside : i < pointers.length) :
    Triple (block entries (.pointers pointers)) (OnHeap.setEntry entries i ret)
      fun _ => block entries (.pointers (pointers.set i (some ret))) := by
  have looks (cells : Cells Block) (owned : block entries (.pointers pointers) cells) :
      Looks cells (load HeapFault.badAddress entries >>= OnHeap.pointersOf) pointers := by
    rw [← sep_emp (block _ _)] at owned
    exact entries_look owned
  rw [OnHeap.setEntry]
  refine Triple.look looks ?_
  rw [if_pos inside]
  exact store_triple _ _

end Buffers

section Scalars

/-- What `print_string_ptr` counts is what it writes between the quotes. -/
theorem printedLength_eq (str : CStr) : OnHeap.printedLength str + 2 = (CJson.printStringPtr str).length := by
  have size (byte : UInt8) : OnHeap.tokenLength byte = PrintedSize.escapedSize byte := by
    have every : ∀ n < 256, OnHeap.tokenLength (UInt8.ofNat n) = PrintedSize.escapedSize (UInt8.ofNat n) := by
      decide +kernel
    simpa only [UInt8.ofNat_toNat] using every byte.toNat byte.toNat_lt
  rw [PrintedSize.printStringPtr_length, PrintedSize.quotedSize, OnHeap.printedLength]
  split
  next => rw [show OnHeap.tokenLength = PrintedSize.escapedSize from funext size]
  next plain =>
    have single (bytes : List UInt8) (plain : (bytes.any fun byte => byte < 32 || byte == 34 || byte == 92) = false) :
        (bytes.map PrintedSize.escapedSize).sum = bytes.length := by
      induction bytes with
      | nil => rfl
      | cons byte bytes ih =>
        simp only [List.any_cons, Bool.or_eq_false_iff, decide_eq_false_iff_not, beq_eq_false_iff_ne] at plain
        obtain ⟨⟨⟨control, quote⟩, backslash⟩, rest⟩ := plain
        have printable : 31 < byte := by
          simp only [UInt8.lt_iff_toNat_lt, UInt8.reduceToNat] at control ⊢
          omega
        rw [List.map_cons, List.sum_cons, ih (by simpa using rest), PrintedSize.escapedSize,
          if_pos ⟨printable, quote, backslash⟩, List.length_cons, Nat.add_comm]
    rw [CStr.length, single str.bytes (by simpa using plain)]

theorem printStringPtr_rule {pointer : Pointer} {string : CStr} :
    Triple (text pointer (some string)) (OnHeap.printStringPtr pointer)
      fun out => sep (text pointer (some string)) (block out (.text (printedKey string))) := by
  cases pointer with
  | none => exact Triple.never
  | some address =>
    refine Triple.look (fun _ owned => loadText_looks (block_here owned)) ?_
    have room : (CJson.printStringPtr string).length < OnHeap.printedLength string + 3 := by
      have := printedLength_eq string
      omega
    refine Triple.finish emp (block address (.text string)) (emp_sep _).symm
      (allocText_rule (printStringPtr_clean string) room) fun out cells owned => ?_
    rwa [sep_comm] at owned

theorem decimal_length (number : Int32) : (decimal number.toInt).length < 21 := by
  have digits : (Nat.toDigits 10 number.toInt.natAbs).length ≤ 10 := by
    apply (Nat.length_toDigits_le_iff (by decide) (by decide)).mpr
    have low := number.le_toInt
    have high := number.toInt_lt
    omega
  rw [decimal]
  split <;> simp only [List.length_cons, List.length_map] <;> omega

theorem printNumber_rule (number : Int32) : Triple emp (OnHeap.printNumber number)
    fun out => block out (.text ⟨decimal number.toInt, decimal_clean _⟩) := by
  rw [OnHeap.printNumber]
  split
  next zero =>
    subst zero
    exact allocText_rule (CStr.ofString "0").noNul (by decide)
  next => exact allocText_rule (decimal_clean _) (decimal_length number)

end Scalars

section Composing
variable {fmt : Bool} {out size entries : Nat} {sofar : CStr}

theorem appendEntry_rule {i address : Nat} {pointers : List Pointer} {string : CStr} (here : pointers[i]? = some (some address))
    (room : sofar.length + string.length < size) :
    Triple (sep (block entries (.pointers pointers)) (sep (block address (.text string)) (block out (.text sofar))))
      (OnHeap.appendEntry out size entries i) fun _ =>
        sep (block entries (.pointers pointers)) (sep (block address (.text string)) (block out (.text (sofar ++ string)))) := by
  refine Triple.look (fun _ => entryAt_looks here) ?_
  have reads (cells : Cells Block) (owned : sep (block entries (.pointers pointers))
      (sep (block address (.text string)) (block out (.text sofar))) cells) : Looks cells (loadText (some address)) string := by
    rw [← sep_assoc, sep_comm (block entries _), sep_assoc] at owned
    exact loadText_looks (block_found owned)
  refine Triple.look reads ?_
  refine Triple.finish (block out (.text sofar)) (sep (block entries (.pointers pointers)) (block address (.text string)))
    (by ac_rfl) (appendText_rule string.noNul room) fun _ cells owned => ?_
  refine Eq.mp (congrFun ?_ cells) owned
  ac_rfl

theorem freeEntry_rule {i address : Nat} {pointers : List Pointer} {string : CStr}
    (here : pointers[i]? = some (some address)) :
    Triple (sep (block entries (.pointers pointers)) (block address (.text string))) (OnHeap.freeEntry entries i)
      fun _ => block entries (.pointers pointers) := by
  refine Triple.look (fun _ => entryAt_looks here) ?_
  refine Triple.finish (block address (.text string)) (block entries (.pointers pointers)) (sep_comm _ _)
    (free_triple _) fun _ cells owned => ?_
  rwa [emp_sep] at owned

def empty : CStr := ⟨[], Clean.nil⟩

/-- What stands behind an item that is not the last. -/
def comma (fmt : Bool) : CStr :=
  ⟨44 :: CJson.layout fmt [32], Clean.cons (by decide) (layout_clean fmt (.cons (by decide) .nil))⟩

def colon (fmt : Bool) : CStr :=
  ⟨58 :: CJson.layout fmt [9], Clean.cons (by decide) (layout_clean fmt (.cons (by decide) .nil))⟩

def indent (fmt : Bool) (depth : Nat) : CStr := ⟨CJson.layout fmt (CJson.tabs depth), layout_clean fmt (tabs_clean depth)⟩

/-- What stands behind a member, `left` of them before the end. -/
def lineEnd (fmt : Bool) (left : Nat) : CStr :=
  ⟨(if left = 0 then [] else [44]) ++ CJson.layout fmt [10], by
    refine Clean.append ?_ (layout_clean fmt (.cons (by decide) .nil))
    split
    · exact Clean.nil
    · exact Clean.cons (by decide) .nil⟩

/-- A member with the name it stands under. -/
def memberText (fmt : Bool) (depth left : Nat) (name string : CStr) : CStr :=
  indent fmt depth ++ name ++ colon fmt ++ string ++ lineEnd fmt left

/-- The items of an array, put together. -/
def joined (fmt : Bool) : List (Nat × CStr) → CStr
  | [] => empty
  | item :: rest => item.2 ++ (if rest.isEmpty then empty else comma fmt) ++ joined fmt rest

def joinedMembers (fmt : Bool) (depth : Nat) : List ((Nat × CStr) × (Nat × CStr)) → CStr
  | [] => empty
  | member :: rest => memberText fmt depth rest.length member.1.2 member.2.2 ++ joinedMembers fmt depth rest

theorem append_assoc (first second third : CStr) : first ++ second ++ third = first ++ (second ++ third) :=
  CStr.ext (List.append_assoc ..)

theorem length_append (first second : CStr) : (first ++ second).length = first.length + second.length :=
  List.length_append

theorem append_empty (first : CStr) : first ++ empty = first := CStr.ext (List.append_nil _)

theorem next_entry (gone : List Pointer) (pointer : Pointer) (rest : List Pointer) :
    (gone ++ pointer :: rest)[gone.length]? = some pointer := by
  rw [List.getElem?_append_right (Nat.le_refl _), Nat.sub_self, List.getElem?_cons_zero]

theorem append_rule (piece : CStr) (room : sofar.length + piece.length < size) :
    Triple (block out (.text sofar)) (OnHeap.appendText out size piece.bytes) fun _ => block out (.text (sofar ++ piece)) :=
  appendText_rule piece.noNul room

/-- `print_array` copies every entry once and frees it. -/
theorem composeItems_rule (gone : List Pointer) (left : List (Nat × CStr))
    (room : sofar.length + (joined fmt left).length < size) :
    Triple (sep (block entries (.pointers (gone ++ pointersTo left))) (sep (written left) (block out (.text sofar))))
      (OnHeap.composeItems fmt out size entries left.length gone.length)
      fun _ => sep (block entries (.pointers (gone ++ pointersTo left))) (block out (.text (sofar ++ joined fmt left))) := by
  induction left generalizing gone sofar with
  | nil =>
    apply Triple.pure
    intro cells owned
    rw [written, emp_sep] at owned
    rwa [joined, append_empty]
  | cons item rest ih =>
    obtain ⟨address, string⟩ := item
    simp only [joined, length_append] at room
    have here := next_entry gone (some address) (pointersTo rest)
    have next : gone ++ pointersTo ((address, string) :: rest) = gone ++ [some address] ++ pointersTo rest := by
      rw [List.append_assoc]
      rfl
    refine Triple.step (sep (block entries (.pointers (gone ++ pointersTo ((address, string) :: rest))))
      (sep (block address (.text string)) (block out (.text sofar)))) (written rest) (by rw [written]; ac_rfl)
      (appendEntry_rule here (by omega)) fun _ => ?_
    have separates : Triple (block out (.text (sofar ++ string))) (OnHeap.appendComma fmt out size rest.length)
        fun _ => block out (.text (sofar ++ string ++ if rest.isEmpty then empty else comma fmt)) := by
      cases rest with
      | nil => exact Triple.pure fun _ owned => by rwa [List.isEmpty_nil, if_pos rfl, append_empty]
      | cons _ _ =>
        refine append_rule (comma fmt) ?_
        rw [length_append]
        simp only [List.isEmpty_cons, Bool.false_eq_true, if_false] at room
        omega
    refine Triple.step (block out (.text (sofar ++ string))) (sep (sep (block entries (.pointers (gone ++
      pointersTo ((address, string) :: rest)))) (block address (.text string))) (written rest)) (by ac_rfl) separates
      fun _ => ?_
    refine Triple.step (sep (block entries (.pointers (gone ++ pointersTo ((address, string) :: rest))))
      (block address (.text string))) (sep (written rest) (block out (.text (sofar ++ string ++
        if rest.isEmpty then empty else comma fmt)))) (by ac_rfl) (freeEntry_rule here) fun _ => ?_
    have fits : (sofar ++ string ++ if rest.isEmpty then empty else comma fmt).length + (joined fmt rest).length < size := by
      simp only [length_append]
      omega
    have whole : sofar ++ joined fmt ((address, string) :: rest) =
        sofar ++ string ++ (if rest.isEmpty then empty else comma fmt) ++ joined fmt rest := by
      simp only [joined, append_assoc]
    have onward := ih (gone ++ [some address]) fits
    rw [List.length_append] at onward
    rw [next, whole]
    exact onward

end Composing

section Members
variable {fmt : Bool} {out size names entries depth : Nat} {sofar : CStr}

def outs (members : List ((Nat × CStr) × (Nat × CStr))) : List (Nat × CStr) := members.map Prod.snd

def nameOuts (members : List ((Nat × CStr) × (Nat × CStr))) : List (Nat × CStr) := members.map Prod.fst

theorem composeMember_rule {left i nameAt address : Nat} {namePointers pointers : List Pointer} {name string : CStr}
    (nameHere : namePointers[i]? = some (some nameAt)) (here : pointers[i]? = some (some address))
    (room : sofar.length + (memberText fmt depth left name string).length < size) :
    Triple (sep (block names (.pointers namePointers)) (sep (block entries (.pointers pointers)) (sep (block nameAt (.text name))
      (sep (block address (.text string)) (block out (.text sofar))))))
      (OnHeap.composeMember fmt out size names entries depth left i)
      fun _ => sep (block names (.pointers namePointers)) (sep (block entries (.pointers pointers))
        (block out (.text (sofar ++ memberText fmt depth left name string)))) := by
  simp only [memberText, length_append] at room
  refine Triple.step (block out (.text sofar)) (sep (sep (block names (.pointers namePointers)) (block nameAt (.text name)))
    (sep (block entries (.pointers pointers)) (block address (.text string)))) (by ac_rfl)
    (append_rule (indent fmt depth) (by omega)) fun _ => ?_
  refine Triple.step _ (sep (block entries (.pointers pointers)) (block address (.text string))) (by ac_rfl)
    (appendEntry_rule nameHere (by simp only [length_append]; omega)) fun _ => ?_
  refine Triple.step (block out (.text (sofar ++ indent fmt depth ++ name))) (sep (sep (block names (.pointers namePointers))
    (block nameAt (.text name))) (sep (block entries (.pointers pointers)) (block address (.text string)))) (by ac_rfl)
    (append_rule (colon fmt) (by simp only [length_append]; omega)) fun _ => ?_
  refine Triple.step _ (sep (block names (.pointers namePointers)) (block nameAt (.text name))) (by ac_rfl)
    (appendEntry_rule here (by simp only [length_append]; omega)) fun _ => ?_
  refine Triple.step (block out (.text (sofar ++ indent fmt depth ++ name ++ colon fmt ++ string)))
    (sep (sep (block names (.pointers namePointers)) (block nameAt (.text name)))
      (sep (block entries (.pointers pointers)) (block address (.text string)))) (by ac_rfl)
    (append_rule (lineEnd fmt left) (by simp only [length_append]; omega)) fun _ => ?_
  refine Triple.step _ (sep (sep (block entries (.pointers pointers)) (block address (.text string)))
    (block out (.text (sofar ++ indent fmt depth ++ name ++ colon fmt ++ string ++ lineEnd fmt left)))) (by ac_rfl)
    (freeEntry_rule nameHere) fun _ => ?_
  refine Triple.finish _ (sep (block names (.pointers namePointers))
    (block out (.text (sofar ++ indent fmt depth ++ name ++ colon fmt ++ string ++ lineEnd fmt left)))) (by ac_rfl)
    (freeEntry_rule here) fun _ cells owned => ?_
  refine Eq.mp (congrFun ?_ cells) owned
  simp only [memberText, append_assoc]
  ac_rfl

/-- So does `print_object`, of the names and of the values. -/
theorem composeMembers_rule (goneNames gone : List Pointer) (left : List ((Nat × CStr) × (Nat × CStr)))
    (even : goneNames.length = gone.length) (room : sofar.length + (joinedMembers fmt depth left).length < size) :
    Triple (sep (block names (.pointers (goneNames ++ pointersTo (nameOuts left)))) (sep (block entries
      (.pointers (gone ++ pointersTo (outs left)))) (sep (written (nameOuts left)) (sep (written (outs left))
        (block out (.text sofar))))))
      (OnHeap.composeMembers fmt out size names entries depth left.length gone.length)
      fun _ => sep (block names (.pointers (goneNames ++ pointersTo (nameOuts left)))) (sep (block entries
        (.pointers (gone ++ pointersTo (outs left)))) (block out (.text (sofar ++ joinedMembers fmt depth left)))) := by
  induction left generalizing goneNames gone sofar with
  | nil =>
    apply Triple.pure
    intro cells owned
    simp only [nameOuts, outs, List.map_nil, written, emp_sep] at owned
    rwa [joinedMembers, append_empty]
  | cons member rest ih =>
    obtain ⟨⟨nameAt, name⟩, address, string⟩ := member
    simp only [joinedMembers, length_append] at room
    have nameHere := next_entry goneNames (some nameAt) (pointersTo (nameOuts rest))
    rw [even] at nameHere
    have here := next_entry gone (some address) (pointersTo (outs rest))
    refine Triple.step (sep (block names (.pointers (goneNames ++ some nameAt :: pointersTo (nameOuts rest))))
      (sep (block entries (.pointers (gone ++ some address :: pointersTo (outs rest)))) (sep (block nameAt (.text name))
        (sep (block address (.text string)) (block out (.text sofar)))))) (sep (written (nameOuts rest)) (written (outs rest)))
      (by simp only [nameOuts, outs, List.map_cons, written, pointersTo]; ac_rfl)
      (composeMember_rule nameHere here (by omega)) fun _ => ?_
    have onward := ih (goneNames ++ [some nameAt]) (gone ++ [some address]) (by simp only [List.length_append, even]; rfl)
      (show (sofar ++ memberText fmt depth rest.length name string).length + (joinedMembers fmt depth rest).length < size by
        rw [length_append]; omega)
    rw [List.length_append, append_assoc] at onward
    simp only [List.append_assoc, List.singleton_append] at onward
    exact onward.given fun cells owned => Eq.mp (congrFun (by ac_rfl) cells) owned

end Members

section Lengths
variable {fmt : Bool} {depth : Nat}

def itemsLength (fmt : Bool) (more : List (Nat × CStr)) : Nat :=
  (more.map fun out => out.2.length + 2 + if fmt then 1 else 0).sum

def membersLength (fmt : Bool) (depth : Nat) (more : List ((Nat × CStr) × (Nat × CStr))) : Nat :=
  (more.map fun member => member.2.2.length + member.1.2.length + 2 + if fmt then 2 + depth else 0).sum

theorem layout_length (spaces : List UInt8) : (CJson.layout fmt spaces).length = if fmt then spaces.length else 0 := by
  cases fmt <;> rfl

theorem joined_length (more : List (Nat × CStr)) : (joined fmt more).length ≤ itemsLength fmt more := by
  induction more with
  | nil => exact Nat.le_refl _
  | cons out rest ih =>
    have behind : (if rest.isEmpty then empty else comma fmt).length ≤ 2 + if fmt then 1 else 0 := by
      split
      · exact Nat.zero_le _
      · simp only [comma, CStr.length, List.length_cons, layout_length, List.length_nil, Nat.zero_add]
        omega
    simp only [itemsLength, List.map_cons, List.sum_cons] at ih ⊢
    simp only [joined, length_append]
    omega

theorem memberText_length (left : Nat) (name string : CStr) : (memberText fmt depth left name string).length ≤
    string.length + name.length + 2 + if fmt then 2 + depth else 0 := by
  have ending : (lineEnd fmt left).length ≤ 1 + if fmt then 1 else 0 := by
    simp only [lineEnd, CStr.length, List.length_append, layout_length, List.length_cons, List.length_nil]
    split <;> simp
  have indented : (indent fmt depth).length = if fmt then depth else 0 := by
    simp only [indent, CStr.length, layout_length, CJson.tabs, List.length_replicate]
  have colons : (colon fmt).length = 1 + if fmt then 1 else 0 := by
    simp only [colon, CStr.length, List.length_cons, layout_length, List.length_nil, Nat.zero_add]
    omega
  simp only [memberText, length_append]
  cases fmt with
  | true =>
    simp only [if_true] at *
    omega
  | false =>
    simp only [Bool.false_eq_true, if_false] at *
    omega

theorem joinedMembers_length (more : List ((Nat × CStr) × (Nat × CStr))) :
    (joinedMembers fmt depth more).length ≤ membersLength fmt depth more := by
  induction more with
  | nil => exact Nat.le_refl _
  | cons member rest ih =>
    have first := @memberText_length fmt depth rest.length member.1.2 member.2.2
    simp only [membersLength, List.map_cons, List.sum_cons] at ih ⊢
    simp only [joinedMembers, length_append]
    omega

theorem joined_bytes {trees : List CJson} {more : List (Nat × CStr)} (texts : more.map Prod.snd = trees.map (printed fmt depth)) :
    (joined fmt more).bytes = CJson.printItems fmt depth trees := by
  induction trees generalizing more with
  | nil =>
    rw [List.map_nil, List.map_eq_nil_iff] at texts
    subst texts
    rfl
  | cons tree trees ih =>
    cases more with
    | nil => cases texts
    | cons out more =>
      rw [List.map_cons, List.map_cons, List.cons.injEq] at texts
      have same : more.isEmpty = trees.isEmpty := by
        have lengths := congrArg List.length texts.2
        simp only [List.length_map] at lengths
        rw [Bool.eq_iff_iff, List.isEmpty_iff_length_eq_zero, List.isEmpty_iff_length_eq_zero, lengths]
      rw [joined, CJson.printItems, CStr.append_bytes, CStr.append_bytes, ih texts.2, texts.1, same]
      cases trees.isEmpty <;> rfl

theorem joinedMembers_bytes {members : Members} {more : List ((Nat × CStr) × (Nat × CStr))}
    (texts : (more.map Prod.snd).map Prod.snd = members.map fun member => printed fmt depth member.2)
    (names : (more.map Prod.fst).map Prod.snd = members.map fun member => printedKey member.1) :
    (joinedMembers fmt depth more).bytes = CJson.printMembers fmt depth members := by
  induction members generalizing more with
  | nil =>
    rw [List.map_nil, List.map_eq_nil_iff, List.map_eq_nil_iff] at texts
    subst texts
    rfl
  | cons member members ih =>
    cases more with
    | nil => cases texts
    | cons out more =>
      simp only [List.map_cons, List.cons.injEq] at texts names
      have same : (more.length = 0) = (members.isEmpty = true) := by
        have lengths := congrArg List.length texts.2
        simp only [List.length_map] at lengths
        rw [List.isEmpty_iff_length_eq_zero, lengths]
      obtain ⟨key, tree⟩ := member
      rw [joinedMembers, CJson.printMembers, CJson.printMember, CStr.append_bytes, ih texts.2 names.2, memberText, texts.1,
        names.1]
      simp only [CStr.append_bytes, lineEnd, same, indent, colon, printed, printedKey, List.append_assoc,
        List.cons_append]

end Lengths

section Rules
variable {fmt : Bool} {fuel : Nat}

def ValueRule (fmt : Bool) (fuel : Nat) : Prop :=
  ∀ {before behind : Pointer} {address depth : Nat} {entry : Entry}, 2 * items entry.2 ≤ fuel + 1 →
    Triple (owns before address entry behind) (OnHeap.printValue fmt fuel depth address)
      fun out => sep (owns before address entry behind) (block out (.text (printed fmt depth entry.2)))

/-- The array as far as it is filled. -/
def filled (array : Nat) (done : List (Nat × CStr)) (left : Nat) : Assertion Block :=
  sep (block array (.pointers (pointersTo done ++ .replicate left none))) (written done)

def ItemsRule (fmt : Bool) (fuel : Nat) : Prop :=
  ∀ {before first last : Pointer} {depth array len : Nat} {entries : List Entry} {done : List (Nat × CStr)},
    2 * turns entries ≤ fuel →
    Triple (sep (stretch owns before first entries last none) (filled array done entries.length))
      (OnHeap.printItems fmt fuel depth array done.length first len)
      fun total => anyOf fun more : List (Nat × CStr) =>
        sep (holds (more.map Prod.snd = entries.map (fun entry => printed fmt depth entry.2) ∧
          total = len + itemsLength fmt more))
          (sep (stretch owns before first entries last none) (filled array (done ++ more) 0))

def MembersRule (fmt : Bool) (fuel : Nat) : Prop :=
  ∀ {before first last : Pointer} {depth names array len : Nat} {members : Members}
    {done : List ((Nat × CStr) × (Nat × CStr))}, 2 * turns (children (.object members)) ≤ fuel →
    Triple (sep (stretch owns before first (children (.object members)) last none)
      (sep (filled names (nameOuts done) members.length) (filled array (outs done) members.length)))
      (OnHeap.printMembers fmt fuel depth names array done.length first len)
      fun total => anyOf fun more : List ((Nat × CStr) × (Nat × CStr)) =>
        sep (holds (((outs more).map Prod.snd = members.map (fun member => printed fmt depth member.2) ∧
          (nameOuts more).map Prod.snd = members.map (fun member => printedKey member.1)) ∧
            total = len + membersLength fmt depth more))
          (sep (stretch owns before first (children (.object members)) last none)
            (sep (filled names (nameOuts (done ++ more)) 0) (filled array (outs (done ++ more)) 0)))

/-- A printed string is put into the array at the first place that is free. -/
theorem fill_rule {array out left i : Nat} {done : List (Nat × CStr)} {string : CStr} (place : done.length = i) :
    Triple (sep (filled array done (left + 1)) (block out (.text string))) (OnHeap.setEntry array i out)
      fun _ => filled array (done ++ [(out, string)]) left := by
  subst place
  have inside : done.length < (pointersTo done ++ List.replicate (left + 1) none).length := by
    simp [pointersTo]
  have set : (pointersTo done ++ List.replicate (left + 1) none).set done.length (some out) =
      pointersTo (done ++ [(out, string)]) ++ List.replicate left none := by
    rw [List.set_append_right _ _ (by simp [pointersTo])]
    simp [pointersTo, List.replicate_succ]
  refine Triple.finish (block array (.pointers (pointersTo done ++ List.replicate (left + 1) none)))
    (sep (written done) (block out (.text string))) (by rw [filled]; ac_rfl) (setEntry_rule inside) fun _ cells owned => ?_
  rw [set] at owned
  rw [filled, written_append, written, written, sep_emp]
  exact owned

/-- What was printed last is read where it lies. -/
theorem filled_looks {array out left : Nat} {done : List (Nat × CStr)} {string : CStr} {kept : Assertion Block}
    {cells : Cells Block} (owned : sep (filled array (done ++ [(out, string)]) left) kept cells) :
    Looks cells (loadText (some out)) string := by
  have first : sep (block out (.text string)) (sep (block array (.pointers (pointersTo (done ++ [(out, string)]) ++
      .replicate left none))) (sep (written done) kept)) cells := by
    refine Eq.mp (congrFun ?_ cells) owned
    rw [filled, written_append, written, written, sep_emp]
    ac_rfl
  exact loadText_looks (block_found first)

theorem items_nil {before first last : Pointer} {depth array len : Nat} {done : List (Nat × CStr)} :
    Triple (sep (stretch owns before first [] last none) (filled array done 0))
      (OnHeap.printItems fmt fuel depth array done.length first len)
      fun total => anyOf fun more : List (Nat × CStr) => sep (holds (more.map Prod.snd = [] ∧
        total = len + itemsLength fmt more)) (sep (stretch owns before first [] last none) (filled array (done ++ more) 0)) := by
  apply Triple.assuming
  rintro ⟨rfl, rfl⟩
  rw [show OnHeap.printItems fmt fuel depth array done.length none len = pure len by
    cases fuel <;> simp only [OnHeap.printItems]]
  apply Triple.pure
  intro cells owned
  refine ⟨[], sep_holds.mpr ⟨⟨rfl, rfl⟩, sep_holds.mpr ⟨⟨rfl, rfl⟩, ?_⟩⟩⟩
  rwa [List.append_nil]

theorem items_rule (values : ValueRule fmt fuel) (more : ItemsRule fmt fuel) : ItemsRule fmt (fuel + 1) := by
  intro before first last depth array len entries done enough
  cases entries with
  | nil => exact items_nil
  | cons entry rest =>
    have count := items_eq entry.2
    rw [turns] at enough
    apply opened_cons
    rintro c next rfl
    rw [OnHeap.printItems, List.length_cons]
    refine Triple.step (owns before c entry next) (sep (stretch owns (some c) next rest last none)
      (filled array done (rest.length + 1))) (by ac_rfl) (values (by omega)) fun out => ?_
    refine Triple.step (sep (filled array done (rest.length + 1)) (block out (.text (printed fmt depth entry.2))))
      (sep (owns before c entry next) (stretch owns (some c) next rest last none)) (by ac_rfl) (fill_rule rfl)
      fun _ => ?_
    refine Triple.look (fun _ => filled_looks) ?_
    rw [← sep_assoc, sep_comm (filled _ _ _), sep_assoc]
    refine Triple.look_for (fun _ => owns_leads) fun source here => ?_
    rw [here]
    have onward := @more (some c) next last depth array (len + (printed fmt depth entry.2).length + 2 + if fmt then 1 else 0)
      rest (done ++ [(out, printed fmt depth entry.2)]) (by omega)
    rw [List.length_append] at onward
    refine Triple.finish _ (owns before c entry next) (by ac_rfl) onward fun total cells owned => ?_
    obtain ⟨one, two, apart, rfl, ⟨further, chain⟩, node⟩ := owned
    obtain ⟨⟨texts, sum⟩, chain⟩ := sep_holds.mp chain
    refine ⟨(out, printed fmt depth entry.2) :: further, sep_holds.mpr ⟨⟨?_, ?_⟩, ?_⟩⟩
    · rw [List.map_cons, List.map_cons, texts]
    · simp only [itemsLength, List.map_cons, List.sum_cons] at sum ⊢
      omega
    · rw [List.append_assoc, List.singleton_append] at chain
      have whole : sep (sep (stretch owns (some c) next rest last none)
          (filled array (done ++ (out, printed fmt depth entry.2) :: further) 0)) (owns before c entry next)
            (Cells.join one two) := ⟨one, two, apart, rfl, chain, node⟩
      rw [sep_comm, ← sep_assoc] at whole
      exact sep_mono (fun _ chain => stretch_cons_iff.mpr ⟨c, next, rfl, chain⟩) (fun _ kept => kept) _ whole

theorem filled_full {array : Nat} {done : List (Nat × CStr)} :
    filled array done 0 = sep (block array (.pointers (pointersTo done))) (written done) := by
  rw [filled, List.replicate_zero, List.append_nil]

theorem members_nil {before first last : Pointer} {depth names array len : Nat} {done : List ((Nat × CStr) × (Nat × CStr))} :
    Triple (sep (stretch owns before first (children (.object [])) last none)
      (sep (filled names (nameOuts done) 0) (filled array (outs done) 0)))
      (OnHeap.printMembers fmt fuel depth names array done.length first len)
      fun total => anyOf fun more : List ((Nat × CStr) × (Nat × CStr)) =>
        sep (holds (((outs more).map Prod.snd = [] ∧ (nameOuts more).map Prod.snd = []) ∧
          total = len + membersLength fmt depth more))
          (sep (stretch owns before first (children (.object [])) last none)
            (sep (filled names (nameOuts (done ++ more)) 0) (filled array (outs (done ++ more)) 0))) := by
  apply Triple.assuming
  rintro ⟨rfl, rfl⟩
  rw [show OnHeap.printMembers fmt fuel depth names array done.length none len = pure len by
    cases fuel <;> simp only [OnHeap.printMembers]]
  apply Triple.pure
  intro cells owned
  refine ⟨[], sep_holds.mpr ⟨⟨⟨rfl, rfl⟩, rfl⟩, sep_holds.mpr ⟨⟨rfl, rfl⟩, ?_⟩⟩⟩
  rwa [List.append_nil]

/-- The key of a member, printed while the member stays where it is. -/
theorem printKey_rule {tree : CJson} {c : Nat} {key : CStr} {item : Item} {below : Pointer} :
    Triple (body tree c (some key) item below) (OnHeap.printStringPtr item.string)
      fun out => sep (body tree c (some key) item below) (block out (.text (printedKey key))) := by
  refine Triple.finish (text item.string (some key)) (sep (block c (.item item)) (sep (text item.valuestring tree.valuestring)
    (stretch owns none item.child (children tree) below none))) (by rw [body]; ac_rfl) printStringPtr_rule
    fun out cells owned => ?_
  refine Eq.mp (congrFun ?_ cells) owned
  rw [body]
  ac_rfl

theorem members_rule (values : ValueRule fmt fuel) (further : MembersRule fmt fuel) : MembersRule fmt (fuel + 1) := by
  intro before first last depth names array len members done enough
  cases members with
  | nil => exact members_nil
  | cons member rest =>
    obtain ⟨key, tree⟩ := member
    have count := items_eq tree
    have split : turns (children (.object ((key, tree) :: rest))) = items tree + turns (children (.object rest)) := rfl
    rw [split] at enough
    apply opened_head
    rintro c item below rfl placed
    rw [OnHeap.printMembers, List.length_cons]
    refine Triple.look (fun _ => Looks.beside fun _ => Looks.beside fun _ => body_looks) ?_
    refine Triple.step (body tree c (some key) item below) (sep (stretch owns (some c) item.next (children (.object rest)) last
      none) (sep (filled names (nameOuts done) (rest.length + 1)) (filled array (outs done) (rest.length + 1))))
      (by ac_rfl) printKey_rule fun str => ?_
    refine Triple.step (sep (filled names (nameOuts done) (rest.length + 1)) (block str (.text (printedKey key))))
      (sep (body tree c (some key) item below) (sep (stretch owns (some c) item.next (children (.object rest)) last none)
        (filled array (outs done) (rest.length + 1)))) (by ac_rfl) (fill_rule (List.length_map _)) fun _ => ?_
    rw [← sep_assoc, sep_comm (filled names _ _), sep_assoc]
    refine Triple.given (Triple.step (owns before c (some key, tree) item.next) (sep (filled names (nameOuts done ++
      [(str, printedKey key)]) rest.length) (sep (stretch owns (some c) item.next (children (.object rest)) last none)
        (filled array (outs done) (rest.length + 1)))) rfl (values (show 2 * items tree ≤ fuel + 1 by omega))
          fun ret => ?_) fun _ => closed placed
    refine Triple.step (sep (filled array (outs done) (rest.length + 1)) (block ret (.text (printed fmt depth tree))))
      (sep (owns before c (some key, tree) item.next) (sep (stretch owns (some c) item.next (children (.object rest)) last
        none) (filled names (nameOuts done ++ [(str, printedKey key)]) rest.length))) (by ac_rfl)
      (fill_rule (List.length_map _)) fun _ => ?_
    refine Triple.arranged (sep (filled names (nameOuts done ++ [(str, printedKey key)]) rest.length)
      (sep (filled array (outs done ++ [(ret, printed fmt depth tree)]) rest.length)
        (sep (owns before c (some key, tree) item.next) (stretch owns (some c) item.next (children (.object rest)) last
          none)))) (by ac_rfl) (Triple.look (fun _ => filled_looks) ?_)
    refine Triple.arranged (sep (filled array (outs done ++ [(ret, printed fmt depth tree)]) rest.length)
      (sep (filled names (nameOuts done ++ [(str, printedKey key)]) rest.length)
        (sep (owns before c (some key, tree) item.next) (stretch owns (some c) item.next (children (.object rest)) last
          none)))) (by ac_rfl) (Triple.look (fun _ => filled_looks) ?_)
    refine Triple.arranged (sep (owns before c (some key, tree) item.next)
      (sep (stretch owns (some c) item.next (children (.object rest)) last none)
        (sep (filled names (nameOuts done ++ [(str, printedKey key)]) rest.length)
          (filled array (outs done ++ [(ret, printed fmt depth tree)]) rest.length)))) (by ac_rfl)
      (Triple.look_for (fun _ => owns_leads) fun source here => ?_)
    rw [here]
    have onward := @further (some c) item.next last depth names array
      (len + (printed fmt depth tree).length + (printedKey key).length + 2 + if fmt then 2 + depth else 0)
      rest (done ++ [((str, printedKey key), ret, printed fmt depth tree)]) (by omega)
    rw [List.length_append] at onward
    refine Triple.finish _ (owns before c (some key, tree) item.next)
      (by simp only [nameOuts, outs, List.map_append, List.map_cons, List.map_nil]; ac_rfl) onward
      fun total cells owned => ?_
    obtain ⟨one, two, apart, rfl, ⟨more, chain⟩, node⟩ := owned
    obtain ⟨⟨⟨texts, keys⟩, sum⟩, chain⟩ := sep_holds.mp chain
    refine ⟨((str, printedKey key), ret, printed fmt depth tree) :: more, sep_holds.mpr ⟨⟨⟨?_, ?_⟩, ?_⟩, ?_⟩⟩
    · rw [List.map_cons, ← texts]
      rfl
    · rw [List.map_cons, ← keys]
      rfl
    · simp only [membersLength, List.map_cons, List.sum_cons] at sum ⊢
      omega
    · rw [List.append_assoc, List.singleton_append] at chain
      have whole : sep (sep (stretch owns (some c) item.next (children (.object rest)) last none)
          (sep (filled names (nameOuts (done ++ ((str, printedKey key), ret, printed fmt depth tree) :: more)) 0)
            (filled array (outs (done ++ ((str, printedKey key), ret, printed fmt depth tree) :: more)) 0)))
          (owns before c (some key, tree) item.next) (Cells.join one two) := ⟨one, two, apart, rfl, chain, node⟩
      rw [sep_comm, ← sep_assoc] at whole
      exact sep_mono (fun _ chain => stretch_cons_iff.mpr ⟨c, item.next, rfl, chain⟩) (fun _ kept => kept) _ whole

/-- A text of its own, printed beside the item. -/
theorem beside_rule {address depth : Nat} {entry : Entry} {before behind : Pointer} {item : Item} {below : Pointer}
    {program : OnHeap Nat} {text : CStr} (placed : Placed entry.2 before behind item)
    (same : printed fmt depth entry.2 = text) (valid : Triple emp program fun out => block out (.text text)) :
    Triple (body entry.2 address entry.1 item below) program
      fun out => sep (owns before address entry behind) (block out (.text (printed fmt depth entry.2))) := by
  refine Triple.finish emp (body entry.2 address entry.1 item below) (emp_sep _).symm valid fun out cells owned => ?_
  rw [sep_comm] at owned
  rw [same]
  exact closed placed owned

def opening : CStr := ⟨[91], Clean.cons (by decide) .nil⟩

def closing : CStr := ⟨[93], Clean.cons (by decide) .nil⟩

/-- Whatever is kept beside it, an array of pointers with nothing behind them is filled and put together. -/
theorem printArray_rule {child : List CJson} {chain : Assertion Block} {retrieve : Nat → OnHeap Nat} {depth : Nat}
    (valid : ∀ entries, Triple (sep chain (filled entries [] child.length)) (retrieve entries)
      fun total => anyOf fun more : List (Nat × CStr) =>
        sep (holds (more.map Prod.snd = child.map (printed fmt (depth + 1)) ∧ total = 5 + itemsLength fmt more))
          (sep chain (filled entries more 0))) :
    Triple chain (OnHeap.printArray fmt child.length retrieve)
      fun out => sep chain (block out (.text (printed fmt depth (.array child)))) := by
  rw [OnHeap.printArray]
  split
  next none_ =>
    obtain rfl := List.length_eq_zero_iff.mp none_
    refine Triple.finish emp chain (emp_sep _).symm (allocText_rule (CStr.ofString "[]").noNul (by decide))
      fun out cells owned => ?_
    rw [sep_comm] at owned
    exact owned
  next =>
    refine Triple.step emp chain (emp_sep _).symm (alloc_triple (Block.pointers (.replicate child.length none)))
      fun entries => ?_
    refine Triple.bind ((valid entries).given fun cells owned => ?_) fun total => ?_
    · rw [sep_comm] at owned
      rw [filled, written, sep_emp]
      exact owned
    apply Triple.anyOf
    intro more
    apply Triple.assuming
    rintro ⟨texts, rfl⟩
    have short := @joined_length fmt more
    have count : more.length = child.length := by
      have lengths := congrArg List.length texts
      rwa [List.length_map, List.length_map] at lengths
    rw [filled_full]
    refine Triple.step emp _ (emp_sep _).symm (allocText_rule opening.noNul (by change 1 < _; omega)) fun out => ?_
    rw [← count]
    refine Triple.step _ chain (by ac_rfl) (composeItems_rule [] more (by change 1 + _ < _; omega)) fun _ => ?_
    refine Triple.step (block entries (.pointers ([] ++ pointersTo more))) (sep (block out (.text (opening ++ joined fmt more)))
      chain) (by ac_rfl) (free_triple _) fun _ => ?_
    rw [emp_sep]
    refine Triple.step _ _ rfl (append_rule closing (by rw [length_append]; change 1 + _ + 1 < _; omega)) fun _ => ?_
    apply Triple.pure
    intro cells owned
    rw [sep_comm] at owned
    have whole : opening ++ joined fmt more ++ closing = printed fmt depth (.array child) := by
      apply CStr.ext
      rw [CStr.append_bytes, CStr.append_bytes, joined_bytes texts]
      rfl
    rwa [whole] at owned

def openingBrace (fmt : Bool) : CStr :=
  ⟨123 :: CJson.layout fmt [10], Clean.cons (by decide) (layout_clean fmt (.cons (by decide) .nil))⟩

def closingBrace (fmt : Bool) (depth : Nat) : CStr :=
  ⟨CJson.layout fmt (CJson.tabs depth) ++ [125], Clean.append (layout_clean fmt (tabs_clean depth)) (.cons (by decide) .nil)⟩

theorem braces_length (fmt : Bool) (depth : Nat) :
    (openingBrace fmt).length + (closingBrace fmt depth).length = 2 + if fmt then depth + 1 else 0 := by
  simp only [openingBrace, closingBrace, CStr.length, List.length_cons, List.length_append, layout_length, List.length_nil,
    CJson.tabs, List.length_replicate]
  cases fmt with
  | true => simp only [if_true]
  | false => rfl

theorem emptyObject_length (fmt : Bool) (depth : Nat) :
    (123 :: CJson.layout fmt (10 :: CJson.tabs (depth - 1)) ++ [125]).length < if fmt then depth + 4 else 3 := by
  simp only [List.length_append, List.length_cons, List.length_nil, layout_length, CJson.tabs, List.length_replicate]
  cases fmt with
  | true => simp only [if_true]; omega
  | false => simp only [Bool.false_eq_true, if_false]; omega

theorem printObject_rule {members : Members} {chain : Assertion Block} {retrieve : Nat → Nat → OnHeap Nat} {depth : Nat}
    (valid : ∀ names entries, Triple (sep chain (sep (filled names [] members.length) (filled entries [] members.length)))
      (retrieve names entries) fun total => anyOf fun more : List ((Nat × CStr) × (Nat × CStr)) =>
        sep (holds (((outs more).map Prod.snd = members.map (fun member => printed fmt (depth + 1) member.2) ∧
          (nameOuts more).map Prod.snd = members.map (fun member => printedKey member.1)) ∧
            total = (7 + if fmt then depth + 1 else 0) + membersLength fmt (depth + 1) more))
          (sep chain (sep (filled names (nameOuts more) 0) (filled entries (outs more) 0)))) :
    Triple chain (OnHeap.printObject fmt members.length depth retrieve)
      fun out => sep chain (block out (.text (printed fmt depth (.object members)))) := by
  rw [OnHeap.printObject]
  split
  next none_ =>
    obtain rfl := List.length_eq_zero_iff.mp none_
    refine Triple.finish emp chain (emp_sep _).symm
      (allocText_rule (printValue_clean fmt depth (.object [])) (emptyObject_length fmt depth)) fun out cells owned => ?_
    rw [sep_comm] at owned
    exact owned
  next some_ =>
    refine Triple.step emp chain (emp_sep _).symm (alloc_triple (Block.pointers (.replicate members.length none)))
      fun entries => ?_
    refine Triple.step emp _ (emp_sep _).symm (alloc_triple (Block.pointers (.replicate members.length none)))
      fun names => ?_
    refine Triple.bind ((valid names entries).given fun cells owned => ?_) fun total => ?_
    · rw [← sep_assoc, sep_comm] at owned
      simp only [filled, written, sep_emp]
      exact owned
    apply Triple.anyOf
    intro more
    apply Triple.assuming
    rintro ⟨⟨texts, keys⟩, rfl⟩
    have short := @joinedMembers_length fmt (depth + 1) more
    have braces := braces_length fmt depth
    have count : more.length = members.length := by
      have lengths := congrArg List.length texts
      rwa [List.length_map, outs, List.length_map, List.length_map] at lengths
    rw [filled_full, filled_full]
    refine Triple.step emp _ (emp_sep _).symm (allocText_rule (openingBrace fmt).noNul (by
      change (openingBrace fmt).length < _; omega)) fun out => ?_
    rw [← count]
    have room : (openingBrace fmt).length + (joinedMembers fmt (depth + 1) more).length <
        7 + (if fmt then depth + 1 else 0) + membersLength fmt (depth + 1) more := by omega
    refine Triple.step _ chain ?_ (composeMembers_rule [] [] more rfl room) fun _ => ?_
    · simp only [List.nil_append]
      ac_rfl
    refine Triple.step (block names (.pointers ([] ++ pointersTo (nameOuts more)))) (sep (block entries (.pointers ([] ++
      pointersTo (outs more)))) (sep (block out (.text (openingBrace fmt ++ joinedMembers fmt (depth + 1) more))) chain))
      (by ac_rfl) (free_triple _) fun _ => ?_
    rw [emp_sep]
    refine Triple.step _ _ rfl (free_triple _) fun _ => ?_
    rw [emp_sep]
    refine Triple.step _ _ rfl (append_rule (closingBrace fmt depth) (by rw [length_append]; omega)) fun _ => ?_
    apply Triple.pure
    intro cells owned
    rw [sep_comm] at owned
    have whole : openingBrace fmt ++ joinedMembers fmt (depth + 1) more ++ closingBrace fmt depth =
        printed fmt depth (.object members) := by
      apply CStr.ext
      rw [CStr.append_bytes, CStr.append_bytes, joinedMembers_bytes texts keys]
      change _ = CJson.printValue fmt depth (.object members)
      rw [CJson.printValue, if_neg (by simpa [List.isEmpty_iff_length_eq_zero] using some_)]
      simp only [openingBrace, closingBrace, List.append_assoc, List.cons_append]
    rwa [whole] at owned

/-- The chain below an item is printed, whatever the item keeps beside it. -/
theorem nested_rule {address depth : Nat} {entry : Entry} {before behind : Pointer} {item : Item} {below : Pointer}
    {program : OnHeap Nat} (placed : Placed entry.2 before behind item) (valid : ∀ kept : Assertion Block,
      Triple (sep (stretch owns none item.child (children entry.2) below none) kept) program
        fun out => sep (sep (stretch owns none item.child (children entry.2) below none) kept)
          (block out (.text (printed fmt depth entry.2)))) :
    Triple (body entry.2 address entry.1 item below) program
      fun out => sep (owns before address entry behind) (block out (.text (printed fmt depth entry.2))) := by
  have given : body entry.2 address entry.1 item below = sep (stretch owns none item.child (children entry.2) below none)
      (sep (block address (.item item)) (sep (text item.string entry.1) (text item.valuestring entry.2.valuestring))) := by
    rw [body]
    ac_rfl
  rw [given]
  apply (valid _).weaken (fun _ kept => kept)
  intro out cells owned
  rw [← given] at owned
  exact closed placed owned

theorem value_rule (moreItems : ItemsRule fmt fuel) (moreMembers : MembersRule fmt fuel) : ValueRule fmt (fuel + 1) := by
  intro before behind address depth entry enough
  obtain ⟨key, tree⟩ := entry
  have count := items_eq tree
  rw [← sep_emp (owns _ _ _ _)]
  apply opened
  intro item below placed
  rw [sep_emp, OnHeap.printValue]
  refine Triple.look (fun _ => body_looks) ?_
  rw [placed.fits.kind]
  simp only [sep_emp]
  cases tree with
  | jsonNull => exact beside_rule placed rfl (alloc_triple _)
  | jsonFalse => exact beside_rule placed rfl (alloc_triple _)
  | jsonTrue => exact beside_rule placed rfl (alloc_triple _)
  | number value =>
    change Triple _ (OnHeap.printNumber item.valueint) _
    rw [placed.fits.number value rfl]
    exact beside_rule placed rfl (printNumber_rule value)
  | string value =>
    refine Triple.finish (text item.valuestring (some value)) (sep (block address (.item item)) (sep (text item.string key)
      (stretch owns none item.child [] below none))) (by rw [body]; change sep _ (sep _ (sep (text _ (some value)) _)) = _; ac_rfl)
      printStringPtr_rule fun out cells owned => ?_
    have whole : sep (body (.string value) address key item below) (block out (.text (printed fmt depth (.string value))))
        cells := by
      refine Eq.mp (congrFun ?_ cells) owned
      rw [body]
      change _ = sep (sep _ (sep _ (sep (text _ (some value)) _))) _
      ac_rfl
    exact closed placed whole
  | array child =>
    apply nested_rule placed
    intro kept
    change 2 * items (.array child) ≤ _ at enough
    change Triple (sep (stretch owns none item.child (children (.array child)) below none) kept) _ _
    have short := length_le_turns (children (.array child))
    refine Triple.look (fun _ => Looks.beside fun _ => countItems_looks (by omega)) ?_
    rw [show (children (.array child)).length = child.length from List.length_map _]
    refine printArray_rule fun entries => ?_
    have collects := @moreItems none item.child below (depth + 1) entries 5 (children (.array child)) [] (by omega)
    rw [show (children (.array child)).length = child.length from List.length_map _] at collects
    refine Triple.finish _ kept (by ac_rfl) collects fun total cells owned => ?_
    obtain ⟨one, two, apart, rfl, ⟨more, chain⟩, others⟩ := owned
    obtain ⟨⟨texts, sum⟩, chain⟩ := sep_holds.mp chain
    refine ⟨more, sep_holds.mpr ⟨⟨?_, sum⟩, ?_⟩⟩
    · rw [texts, children, List.map_map]
      rfl
    · rw [sep_assoc, sep_comm kept, ← sep_assoc]
      exact ⟨one, two, apart, rfl, chain, others⟩
  | object child =>
    apply nested_rule placed
    intro kept
    change 2 * items (.object child) ≤ _ at enough
    change Triple (sep (stretch owns none item.child (children (.object child)) below none) kept) _ _
    have short := length_le_turns (children (.object child))
    refine Triple.look (fun _ => Looks.beside fun _ => countItems_looks (by omega)) ?_
    rw [show (children (.object child)).length = child.length from List.length_map _]
    refine printObject_rule fun names entries => ?_
    have collects := @moreMembers none item.child below (depth + 1) names entries (7 + if fmt then depth + 1 else 0) child []
      (by omega)
    refine Triple.finish _ kept (by ac_rfl) collects fun total cells owned => ?_
    obtain ⟨one, two, apart, rfl, ⟨more, chain⟩, others⟩ := owned
    obtain ⟨facts, chain⟩ := sep_holds.mp chain
    refine ⟨more, sep_holds.mpr ⟨facts, ?_⟩⟩
    rw [sep_assoc, sep_comm kept, ← sep_assoc]
    exact ⟨one, two, apart, rfl, chain, others⟩

theorem print_rules (fuel : Nat) : ValueRule fmt fuel ∧ ItemsRule fmt fuel ∧ MembersRule fmt fuel := by
  induction fuel with
  | zero =>
    refine ⟨?_, ?_, ?_⟩
    · intro before behind address depth entry enough
      have some := items_eq entry.2
      omega
    · intro before first last depth array len entries done enough
      cases entries with
      | nil => exact items_nil
      | cons entry rest =>
        have some := items_eq entry.2
        rw [turns] at enough
        omega
    · intro before first last depth names array len members done enough
      cases members with
      | nil => exact members_nil
      | cons member rest =>
        have some := items_eq member.2
        have split : turns (children (.object (member :: rest))) = items member.2 + turns (children (.object rest)) := rfl
        omega
  | succ fuel ih =>
    obtain ⟨values, moreItems, moreMembers⟩ := ih
    exact ⟨value_rule moreItems moreMembers, items_rule values moreItems, members_rule values moreMembers⟩

end Rules

/-- `cJSON_Print` returns the text of the tree in a block of its own. -/
theorem cJSONPrint_rule {fuel address : Nat} {before behind : Pointer} {entry : Entry} (enough : 2 * items entry.2 ≤ fuel) :
    Triple (owns before address entry behind) (OnHeap.cJSONPrint fuel address)
      fun out => sep (owns before address entry behind) (block out (.text (printed true 0 entry.2))) :=
  (print_rules fuel).1 (Nat.le_succ_of_le enough)

end PhicommTC1.Proofs.CJsonPrinting
