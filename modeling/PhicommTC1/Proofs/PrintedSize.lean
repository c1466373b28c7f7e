import Mathlib.Algebra.Group.Action.Defs
import Mathlib.Algebra.Order.BigOperators.Group.List
import Mathlib.Algebra.Order.Ring.Nat
import PhicommTC1.CJsonText

/-! How long a printed object is, as a sum over its members. -/

namespace PhicommTC1.Proofs.PrintedSize
open CText PhicommTC1

/-- The bytes a byte takes inside quotes. -/
def escapedSize (byte : UInt8) : Nat :=
  if 31 < byte ∧ byte ≠ 34 ∧ byte ≠ 92 then 1
  else if byte ∈ [92, 34, 8, 12, 10, 13, 9] then 2
  else 6

def quotedSize (text : CStr) : Nat := (text.bytes.map escapedSize).sum + 2

def numberSize (value : Int32) : Nat := (decimal value.toInt).length

/-- A member with its tabs, its colon and what separates it from the next. -/
def memberSize (depth : Nat) (key : CStr) (value : Nat) : Nat := depth + quotedSize key + 2 + value + 2

/-- An object inside another one, whose members take the given size. -/
def objectSize (depth members : Nat) : Nat := members + depth + 2

theorem printByte_length (byte : UInt8) : (CJson.printByte byte).length = escapedSize byte := by
  unfold CJson.printByte escapedSize
  split
  · rfl
  · split_ifs <;> simp_all

theorem printStringPtr_length (text : CStr) : (CJson.printStringPtr text).length = quotedSize text := by
  simp only [CJson.printStringPtr, List.length_append, List.length_cons, List.length_flatMap, printByte_length,
    List.length_nil, quotedSize]

theorem escapedSize_le (byte : UInt8) : escapedSize byte ≤ 6 := by
  unfold escapedSize
  split_ifs <;> decide

theorem quotedSize_le (text : CStr) : quotedSize text ≤ 6 * text.length + 2 := by
  have each : ∀ size ∈ text.bytes.map escapedSize, size ≤ 6 := by
    simp only [List.mem_map]
    intro size member
    obtain ⟨byte, -, rfl⟩ := member
    exact escapedSize_le byte
  have sum := List.sum_le_card_nsmul _ 6 each
  simp only [List.length_map, smul_eq_mul] at sum
  simp only [quotedSize, CStr.length]
  omega

/-- The members of an object as they are printed, each counted with a comma. -/
def membersSize (depth : Nat) (members : Members) : Nat :=
  (members.map fun member => memberSize depth member.1 (CJson.printValue true depth member.2).length).sum

theorem membersSize_addItem (depth : Nat) (members : Members) (key : CStr) (item : CJson) :
    membersSize depth (members.addItem key item) =
      membersSize depth members + memberSize depth key (CJson.printValue true depth item).length := by
  simp [membersSize, Members.addItem]

theorem printMembers_length (depth : Nat) {members : Members} (nonempty : members ≠ []) :
    (CJson.printMembers true depth members).length + 1 = membersSize depth members := by
  induction members with
  | nil => exact absurd rfl nonempty
  | cons member members ih =>
    obtain ⟨key, item⟩ := member
    have own : (CJson.printMember true depth (key, item)).length + 2 =
        memberSize depth key (CJson.printValue true depth item).length := by
      simp only [CJson.printMember, CJson.layout, if_true, List.length_append, List.length_cons, List.length_nil,
        CJson.tabs, List.length_replicate, printStringPtr_length, memberSize]
    have whole : membersSize depth ((key, item) :: members) =
        memberSize depth key (CJson.printValue true depth item).length + membersSize depth members := by
      simp [membersSize]
    rw [whole, ← own, CJson.printMembers]
    by_cases last : members = []
    · subst last
      simp [CJson.layout, CJson.printMembers, membersSize]
    · rw [← ih last]
      simp only [List.isEmpty_eq_false_iff.mpr last, CJson.layout, List.length_append, List.length_cons,
        List.length_nil, Bool.false_eq_true, if_false, if_true]
      omega

theorem object_length (depth : Nat) (members : Members) :
    (CJson.printValue true (depth + 1) (.object members)).length =
      objectSize (depth + 1) (membersSize (depth + 2) members) := by
  by_cases empty : members = []
  · subst empty
    simp [CJson.printValue, CJson.layout, CJson.tabs, objectSize, membersSize]
  · rw [CJson.printValue, if_neg (by simpa using empty), objectSize, ← printMembers_length (depth + 1 + 1) empty]
    simp only [CJson.layout, CJson.tabs, if_true, List.length_append, List.length_cons, List.length_nil,
      List.length_replicate]
    omega

theorem print_length {members : Members} (nonempty : members ≠ []) :
    (CJson.print (.object members)).length = membersSize 1 members + 2 := by
  rw [CJson.print, CJson.printValue, if_neg (by simpa using nonempty), ← printMembers_length (0 + 1) nonempty]
  simp only [CJson.layout, CJson.tabs, if_true, List.length_append, List.length_cons, List.length_nil,
    List.length_replicate]
  omega

end PhicommTC1.Proofs.PrintedSize
