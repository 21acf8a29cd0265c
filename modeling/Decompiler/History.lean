import Decompiler.Opcode.Category

/-!
What was executed most recently: a ring of the last values, the recent instruction codes with template
matching on them, and the recently touched local slots.
-/

namespace Decompiler

/-- The last `capacity` values pushed. The next push writes at `head`; the `size` values before it are
in use, wrapping around at the end. -/
structure Ring (α : Type) (capacity : Nat) where
  slots : Vector (Option α) capacity
  head : Fin capacity
  size : Nat

namespace Ring

variable {α : Type} {capacity : Nat}

def empty (positive : 0 < capacity) : Ring α capacity :=
  { slots := Vector.replicate capacity none, head := ⟨0, positive⟩, size := 0 }

/-- A ring has room for a value, because its head is a place in it. -/
theorem positive (ring : Ring α capacity) : 0 < capacity :=
  Nat.lt_of_le_of_lt (Nat.zero_le _) ring.head.isLt

/-- Overwrites the oldest value once the ring is full. -/
def push (ring : Ring α capacity) (value : α) : Ring α capacity :=
  { slots := ring.slots.set ring.head (some value)
    head := ⟨(ring.head.val + 1) % capacity, Nat.mod_lt _ ring.positive⟩
    size := min (ring.size + 1) capacity }

/-- The value pushed `back` pushes before the last one. -/
def recent? (ring : Ring α capacity) (back : Nat) : Option α :=
  if ring.size ≤ back then none
  else
    ring.slots.get ⟨(ring.head + capacity - 1 - back) % capacity, Nat.mod_lt _ ring.positive⟩

/-- The stored values, oldest first. -/
def toList (ring : Ring α capacity) : List α := (List.range ring.size).reverse.filterMap ring.recent?

end Ring

/-- The codes executed most recently. -/
structure InstructionHistory where
  codes : Ring Opcode 10

namespace InstructionHistory

def empty : InstructionHistory := { codes := .empty (Nat.succ_pos 9) }

instance : Inhabited InstructionHistory := ⟨empty⟩

def record (history : InstructionHistory) (op : Opcode) : InstructionHistory :=
  { codes := history.codes.push op }

def recent? (history : InstructionHistory) (back : Nat) : Option Opcode := history.codes.recent? back

def latest? (history : InstructionHistory) : Option Opcode := history.recent? 0

/-- The codes up to the one `skipped` before the latest satisfy the template, whose last entry speaks
of the most recent of them. -/
def endsWith (history : InstructionHistory) (template : List Pattern) (skipped : Nat) : Bool :=
  template.reverse.zipIdx.all fun (pattern, back) =>
    (history.recent? (back + skipped)).any pattern.accepts

/-- The last codes satisfy the template entry by entry. No history satisfies the empty template. -/
def endsInTemplate (history : InstructionHistory) (template : List Pattern) : Bool :=
  !template.isEmpty && template.length ≤ history.codes.size && history.endsWith template 0

/-- The codes just before the latest one satisfy the template. -/
def precededBy (history : InstructionHistory) (template : List Pattern) : Bool :=
  template.length + 1 ≤ history.codes.size && history.endsWith template 1

end InstructionHistory

/-- The local slots touched most recently. -/
structure SlotHistory where
  slots : Ring UInt16 10

namespace SlotHistory

def empty : SlotHistory := { slots := .empty (Nat.succ_pos 9) }

instance : Inhabited SlotHistory := ⟨empty⟩

def record (history : SlotHistory) (slot : UInt16) : SlotHistory := { slots := history.slots.push slot }

def recent? (history : SlotHistory) (back : Nat) : Option UInt16 := history.slots.recent? back

/-- The two latest accesses touched the same slot. -/
def repeats (history : SlotHistory) : Bool :=
  match history.recent? 0, history.recent? 1 with
  | some latest, some before => latest == before
  | _, _ => false

end SlotHistory

end Decompiler
