/-!
# Slot tables

A table whose entries keep their slot for as long as they live. Vacated slots are reused, the one
vacated last first.
-/

namespace HybridHeap

/-- Entries in numbered slots. -/
structure SlotTable (α : Type) where
  slots : Array (Option α)
  /-- The vacated slots, the one vacated last first. -/
  free : List Nat
  /-- The number of occupied slots. -/
  size : Nat

namespace SlotTable

variable {α : Type}

/-- A table without slots. -/
def empty : SlotTable α := ⟨#[], [], 0⟩

/-- The slot of the next entry: the one vacated last, or a new one. -/
def nextSlot (t : SlotTable α) : Nat := t.free.head?.getD t.slots.size

/-- Put an entry into the next slot. -/
def insert (t : SlotTable α) (a : α) : SlotTable α :=
  match t.free with
  | slot :: free =>
    { slots := t.slots.setIfInBounds slot (some a), free, size := t.size + 1 }
  | [] => { t with slots := t.slots.push (some a), size := t.size + 1 }

/-- The entry in a slot. -/
def get? (t : SlotTable α) (slot : Nat) : Option α := t.slots[slot]?.join

/-- Vacate a slot. One that is not occupied changes nothing. -/
def erase (t : SlotTable α) (slot : Nat) : SlotTable α :=
  match t.get? slot with
  | none => t
  | some _ =>
    { slots := t.slots.setIfInBounds slot none, free := slot :: t.free, size := t.size - 1 }

/-- The entries in the order of their slots. -/
def toList (t : SlotTable α) : List α := t.slots.toList.filterMap id

/-- The entries with their slots, in the order of the slots. -/
def entries (t : SlotTable α) : List (Nat × α) :=
  t.slots.toList.zipIdx.filterMap fun (entry, slot) => entry.map fun a => (slot, a)

/-- Change the entry in a slot, if it is occupied. -/
def modify (t : SlotTable α) (slot : Nat) (f : α → α) : SlotTable α :=
  { t with slots := t.slots.modify slot (·.map f) }

end SlotTable

end HybridHeap
