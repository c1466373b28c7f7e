import Mathlib.Algebra.Order.BigOperators.Group.List
import Mathlib.Algebra.Order.Ring.Nat
import PhicommTC1.Proofs.CJsonEdits

/-! Any number of edits of one array or object, one after another. The items come with the edits;
what an edit takes out is deleted. -/

namespace PhicommTC1.Proofs.CJsonSessions
open CText PhicommTC1 Separation LinkedChain CJsonOwnership CJsonEdits

/-- An edit with the item it brings, which hangs nowhere yet, and what that item stands for. -/
inductive Edit where
  | addItemToArray (new : Nat) (entry : Entry)
  | addItemToObject (string : CStr) (new : Nat) (entry : Entry)
  | insertItemInArray (which : Int) (new : Nat) (entry : Entry)
  | replaceItemInArray (which : Int) (new : Nat) (entry : Entry)
  | replaceItemInObject (string : CStr) (new : Nat) (entry : Entry)
  | deleteItemFromArray (which : Int)
  | deleteItemFromObject (string : CStr)

namespace Edit

/-- What an edit is for. An index below zero stands for zero. -/
def apply (entries : List Entry) : Edit → List Entry
  | addItemToArray _ entry => entries ++ [entry]
  | addItemToObject string _ entry => entries ++ [(some string, entry.2)]
  | insertItemInArray which _ entry => entries.take which.toNat ++ entry :: entries.drop which.toNat
  | replaceItemInArray which _ entry => entries.set which.toNat entry
  | replaceItemInObject string _ entry => entries.set (place string entries) (some string, entry.2)
  | deleteItemFromArray which => entries.eraseIdx which.toNat
  | deleteItemFromObject string => entries.eraseIdx (place string entries)

def brought : Edit → Option (Nat × Entry)
  | addItemToArray new entry => some (new, entry)
  | addItemToObject _ new entry => some (new, entry)
  | insertItemInArray _ new entry => some (new, entry)
  | replaceItemInArray _ new entry => some (new, entry)
  | replaceItemInObject _ new entry => some (new, entry)
  | deleteItemFromArray _ => none
  | deleteItemFromObject _ => none

/-- A replacement finds nothing to replace and leaves its item to the caller. -/
def refused (entries : List Entry) : Edit → Bool
  | replaceItemInArray which _ _ => entries.length ≤ which.toNat
  | replaceItemInObject string _ _ => entries.length ≤ place string entries
  | _ => false

/-- The turns that the item of an edit adds to later walks. -/
def size (edit : Edit) : Nat := (edit.brought.map fun new => items new.2.2).getD 0

end Edit

def handed : Option (Nat × Entry) → Assertion Block
  | some (new, entry) => owns none new entry none
  | none => emp

section Single
variable {fuel array which new : Nat} {item : Item} {entries : List Entry} {entry : Entry}

/-- A replacement either takes its item in or leaves chain and item alone. -/
private theorem replaced {program : OnHeap Unit} {given gone : Assertion Block}
    (valid : Triple (sep (hung array item entries) given) program fun _ => if which < entries.length then
      sep (hung array item (entries.set which entry)) gone else sep (hung array item entries) given) :
    Triple (sep (hung array item entries) given) program fun _ =>
      sep (hung array item (entries.set which entry)) (if entries.length ≤ which then given else gone) := by
  apply valid.weaken (fun _ kept => kept)
  intro _ cells owned
  rcases Nat.lt_or_ge which entries.length with inside | past
  · rw [if_neg (Nat.not_le.mpr inside)]
    rwa [if_pos inside] at owned
  · rw [if_pos past, List.set_eq_of_length_le past]
    rwa [if_neg (Nat.not_lt.mpr past)] at owned

end Single

end PhicommTC1.Proofs.CJsonSessions
