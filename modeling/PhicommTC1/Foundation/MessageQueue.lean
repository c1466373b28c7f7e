import Mathlib.Data.List.Basic

/-! Bounded first-in first-out queues behind handles. -/

namespace MessageQueue

structure Fifo (α : Type*) (capacity : Nat) where
  items : List α
  bounded : items.length ≤ capacity

variable {α : Type*} {capacity : Nat}

namespace Fifo

def create : Fifo α capacity := ⟨[], Nat.zero_le _⟩

def send (queue : Fifo α capacity) (item : α) : Option (Fifo α capacity) :=
  if room : queue.items.length < capacity then
    some ⟨queue.items ++ [item], by rw [List.length_append]; exact room⟩
  else none

def recv (queue : Fifo α capacity) : Option (α × Fifo α capacity) :=
  match queue with
  | ⟨[], _⟩ => none
  | ⟨item :: items, bounded⟩ => some (item, ⟨items, Nat.le_of_succ_le bounded⟩)

theorem items_create : (create : Fifo α capacity).items = [] := rfl

theorem send_items {queue sent : Fifo α capacity} {item : α} (success : queue.send item = some sent) :
    sent.items = queue.items ++ [item] := by
  unfold send at success
  split at success
  · cases success; rfl
  · cases success

theorem recv_items {queue rest : Fifo α capacity} {item : α} (success : queue.recv = some (item, rest)) :
    queue.items = item :: rest.items := by
  unfold recv at success
  split at success
  · cases success
  · cases success; rfl

end Fifo

/-- The queues created so far. Handles count up, so a new queue never takes the place of another. -/
structure Table (α : Type*) (capacity : Nat) where
  created : Nat
  queue : Nat → Fifo α capacity

namespace Table

def empty : Table α capacity := ⟨0, fun _ => .create⟩

def create (table : Table α capacity) : Nat × Table α capacity :=
  (table.created, ⟨table.created + 1, Function.update table.queue table.created .create⟩)

def set (table : Table α capacity) (handle : Nat) (queue : Fifo α capacity) : Table α capacity :=
  { table with queue := Function.update table.queue handle queue }

@[simp] theorem create_queue (table : Table α capacity) : table.create.2.queue table.create.1 = .create := by
  simp [create]

@[simp] theorem set_queue (table : Table α capacity) (handle : Nat) (queue : Fifo α capacity) :
    (table.set handle queue).queue handle = queue := by
  simp [set]

end Table

end MessageQueue
