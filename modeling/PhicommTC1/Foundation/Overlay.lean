import Mathlib.Data.List.Basic
import Mathlib.Data.List.OfFn

/-! Bytes put into an array one piece after another. What an address holds in the end is said by the
last piece that covers it, so nothing has to be replayed. -/

namespace Overlay
variable {β : Type*} {n : Nat}

/-- A piece and the address it begins at. -/
structure Put (β : Type*) where
  start : Nat
  bytes : List β

/-- What a piece has for an address, if it covers it. -/
def Put.at? (put : Put β) (address : Nat) : Option β :=
  if put.start ≤ address then put.bytes[address - put.start]? else none

def lastPut (puts : List (Put β)) (address : Nat) : Option β := puts.reverse.findSome? (·.at? address)

/-- The array under the pieces shows where none of them lies. -/
def overlay (puts : List (Put β)) (memory : Fin n → β) : Fin n → β :=
  fun address => (lastPut puts address.val).getD (memory address)

variable {memory : Fin n → β}

@[simp] theorem overlay_nil : overlay [] memory = memory := rfl

theorem overlay_append (first second : List (Put β)) :
    overlay (first ++ second) memory = overlay second (overlay first memory) := by
  funext address
  simp only [overlay, lastPut, List.reverse_append, List.findSome?_append]
  cases second.reverse.findSome? (·.at? address.val) <;> rfl

theorem overlay_one (put : Put β) (address : Fin n) :
    overlay [put] memory address = (put.at? address.val).getD (memory address) := by
  simp [overlay, lastPut]

end Overlay
