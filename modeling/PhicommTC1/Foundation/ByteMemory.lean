import PhicommTC1.Foundation.CText

/-! Memory as bytes at integer addresses, so that a store can miss its array on either side. -/

namespace ByteMemory
open CText

abbrev Memory := Int → UInt8

def write (memory : Memory) (start : Int) : List UInt8 → Memory
  | [] => memory
  | byte :: bytes => write (Function.update memory start byte) (start + 1) bytes

/-- The C string that begins at an address. -/
def HoldsText (memory : Memory) (start : Int) (text : CStr) : Prop :=
  (∀ (position : Nat) byte, text.bytes[position]? = some byte → memory (start + (position : Int)) = byte) ∧
    memory (start + (text.length : Int)) = 0

variable {memory : Memory} {start address : Int} {bytes : List UInt8}

theorem write_before (before : address < start) : write memory start bytes address = memory address := by
  induction bytes generalizing memory start with
  | nil => rfl
  | cons byte bytes ih =>
    rw [write, ih (by omega), Function.update_of_ne (by omega)]

theorem write_inside {position : Nat} {byte : UInt8} (found : bytes[position]? = some byte) :
    write memory start bytes (start + (position : Int)) = byte := by
  induction bytes generalizing memory start position with
  | nil => cases found
  | cons head bytes ih =>
    cases position with
    | zero =>
      cases found
      rw [write, write_before (by omega)]
      simp
    | succ position =>
      rw [write, show start + ((position + 1 : Nat) : Int) = start + 1 + (position : Int) by omega]
      exact ih (by simpa using found)

theorem write_append {start : Int} (first second : List UInt8) :
    write memory start (first ++ second) = write (write memory start first) (start + (first.length : Int)) second := by
  induction first generalizing memory start with
  | nil => simp [write]
  | cons byte first ih =>
    rw [List.cons_append, write, ih, write, List.length_cons]
    congr 1
    omega

/-- Bytes written with a terminator are read back up to the first zero among them. -/
theorem write_text : HoldsText (write memory start (bytes ++ [0])) start (.upToNul bytes) := by
  obtain ⟨rest, split⟩ := CStr.upToNul_split bytes
  rw [split]
  constructor
  · intro position byte found
    apply write_inside
    obtain ⟨inside, -⟩ := List.getElem?_eq_some_iff.mp found
    rw [List.getElem?_append_left inside, found]
  · apply write_inside
    rw [CStr.length, List.getElem?_append_right (Nat.le_refl _), Nat.sub_self]
    rfl

end ByteMemory
