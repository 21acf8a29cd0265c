import Decompiler.Proofs.Arithmetic.Effect

/-!
Orderly code, whose symbolic stack can be told from the instructions alone. Pending values and finished statements
share the symbolic stack, a duplicated entry is a single flag, and the copy that `dup_x1` puts below the top is not
made; code is orderly if no instruction meets one of these. They are faults of symbolic execution and no limits that it
is meant to have: it fails on other code that runs well, or gives it another meaning.
-/

namespace Decompiler.Arithmetic

/-- What is known of an entry of the stack, with the slots that its evaluation reads and writes. -/
inductive Entry where
  | value (reads writes : List UInt16)
  /-- Two copies of a value. -/
  | double (reads writes : List UInt16)
  /-- A statement, which is no value any more. -/
  | finished (reads writes : List UInt16)
  /-- A copy that only the stack machine makes. -/
  | hidden
  deriving DecidableEq

namespace Entry

/-- Takes a value off the stack, the top of which comes first. Of two copies one is left, which is evaluated again. -/
def take? : List Entry → Option (List UInt16 × List UInt16 × List Entry)
  | value reads writes :: rest => some (reads, writes, rest)
  | double reads writes :: rest =>
    if repeatable reads writes then some (reads, writes, value reads writes :: rest) else none
  | _ => none

/-- The needed slots come out the same if only the statements among the entries are evaluated. -/
def keeps (needed : List UInt16) : List Entry → Bool
  | [] => true
  | value _ writes :: rest | double _ writes :: rest =>
    (needed.all fun slot => !writes.contains slot) && keeps needed rest
  | finished reads writes :: rest => keeps (reads ++ needed.filter fun slot => !writes.contains slot) rest
  | hidden :: rest => keeps needed rest

end Entry

/-- The latest instruction, if the next one may belong to it. -/
inductive Last where
  /-- A local was loaded, and may be incremented after its use. -/
  | load (slot : UInt16)
  /-- A local was incremented by a statement, which may be used as a value. -/
  | step (slot : UInt16)
  | other
  deriving DecidableEq

structure Shape where
  entries : List Entry := []
  last : Last := .other
  deriving DecidableEq

namespace Shape

/-- The shape after an instruction; nothing if the instruction is not in order. -/
def step (shape : Shape) : Instruction → Option Shape
  | .constant _ => some { entries := .value [] [] :: shape.entries }
  | .load slot =>
    if shape.last = .step slot then some { entries := .value [slot] [slot] :: shape.entries.tail }
    else some { entries := .value [slot] [] :: shape.entries, last := .load slot }
  | .store slot =>
    match shape.entries with
    | .value reads writes :: rest => some { entries := .finished reads (slot :: writes) :: rest }
    | .double reads writes :: rest => some { entries := .value reads (slot :: writes) :: rest }
    | _ => none
  | .increment slot amount =>
    if shape.last = .load slot ∧ (amount = 1 ∨ amount = -1) then
      some { entries := .value [slot] [slot] :: shape.entries.tail }
    else some { entries := .finished [slot] [slot] :: shape.entries, last := .step slot }
  | .operate _ => do
    let (reads', writes', entries) ← Entry.take? shape.entries
    let (reads, writes, entries) ← Entry.take? entries
    return { entries := .value (reads ++ reads') (writes ++ writes') :: entries }
  | .negate => do
    let (reads, writes, entries) ← Entry.take? shape.entries
    return { entries := .value reads writes :: entries }
  | .duplicate =>
    match shape.entries with
    | .value reads writes :: rest => some { entries := .double reads writes :: rest }
    -- One mark stands for two copies; the third one is the lowest.
    | .double reads writes :: rest => some { entries := .double reads writes :: .hidden :: rest }
    | _ => none
  | .duplicateBelow =>
    match shape.entries with
    | .value reads' writes' :: .value reads writes :: rest =>
      some { entries := .value reads' writes' :: .value reads writes :: .hidden :: rest }
    | .double reads writes :: rest => some { entries := .double reads writes :: .hidden :: rest }
    | _ => none
  | .swap =>
    match shape.entries with
    | .value reads' writes' :: .value reads writes :: rest =>
      if independent reads writes reads' writes' then
        some { entries := .value reads writes :: .value reads' writes' :: rest }
      else none
    | _ => none
  | .drop => do
    let (reads, writes, entries) ← Entry.take? shape.entries
    return { entries := .finished reads writes :: entries }

section

variable {shape next : Shape}

/-! What an instruction in order finds on the stack. -/

theorem step_store {slot : UInt16} (hStep : shape.step (.store slot) = some next) :
    (∃ reads writes rest, shape.entries = .value reads writes :: rest ∧
        next = { entries := .finished reads (slot :: writes) :: rest }) ∨
      ∃ reads writes rest, shape.entries = .double reads writes :: rest ∧
        next = { entries := .value reads (slot :: writes) :: rest } := by
  simp only [step] at hStep
  split at hStep
  · next hEntries => exact .inl ⟨_, _, _, hEntries, (Option.some.inj hStep).symm⟩
  · next hEntries => exact .inr ⟨_, _, _, hEntries, (Option.some.inj hStep).symm⟩
  · cases hStep

theorem step_operate {operation : Operation} (hStep : shape.step (.operate operation) = some next) :
    ∃ reads' writes' middle reads writes rest, Entry.take? shape.entries = some (reads', writes', middle) ∧
      Entry.take? middle = some (reads, writes, rest) ∧
      next = { entries := .value (reads ++ reads') (writes ++ writes') :: rest } := by
  obtain ⟨⟨reads', writes', middle⟩, hTop, hRest⟩ := Option.bind_eq_some_iff.mp hStep
  obtain ⟨⟨reads, writes, rest⟩, hBelow, hShape⟩ := Option.bind_eq_some_iff.mp hRest
  exact ⟨_, _, _, _, _, _, hTop, hBelow, (Option.some.inj hShape).symm⟩

theorem step_negate (hStep : shape.step .negate = some next) :
    ∃ reads writes rest, Entry.take? shape.entries = some (reads, writes, rest) ∧
      next = { entries := .value reads writes :: rest } := by
  obtain ⟨⟨reads, writes, rest⟩, hTake, hShape⟩ := Option.bind_eq_some_iff.mp hStep
  exact ⟨_, _, _, hTake, (Option.some.inj hShape).symm⟩

theorem step_duplicate (hStep : shape.step .duplicate = some next) :
    (∃ reads writes rest, shape.entries = .value reads writes :: rest ∧
        next = { entries := .double reads writes :: rest }) ∨
      ∃ reads writes rest, shape.entries = .double reads writes :: rest ∧
        next = { entries := .double reads writes :: .hidden :: rest } := by
  simp only [step] at hStep
  split at hStep
  · next hEntries => exact .inl ⟨_, _, _, hEntries, (Option.some.inj hStep).symm⟩
  · next hEntries => exact .inr ⟨_, _, _, hEntries, (Option.some.inj hStep).symm⟩
  · cases hStep

theorem step_duplicateBelow (hStep : shape.step .duplicateBelow = some next) :
    (∃ reads' writes' reads writes rest, shape.entries = .value reads' writes' :: .value reads writes :: rest ∧
        next = { entries := .value reads' writes' :: .value reads writes :: .hidden :: rest }) ∨
      ∃ reads writes rest, shape.entries = .double reads writes :: rest ∧
        next = { entries := .double reads writes :: .hidden :: rest } := by
  simp only [step] at hStep
  split at hStep
  · next hEntries => exact .inl ⟨_, _, _, _, _, hEntries, (Option.some.inj hStep).symm⟩
  · next hEntries => exact .inr ⟨_, _, _, hEntries, (Option.some.inj hStep).symm⟩
  · cases hStep

theorem step_swap (hStep : shape.step .swap = some next) :
    ∃ reads' writes' reads writes rest, shape.entries = .value reads' writes' :: .value reads writes :: rest ∧
      independent reads writes reads' writes' = true ∧
      next = { entries := .value reads writes :: .value reads' writes' :: rest } := by
  simp only [step] at hStep
  split at hStep
  · next hEntries =>
      split at hStep
      · next hApart => exact ⟨_, _, _, _, _, hEntries, hApart, (Option.some.inj hStep).symm⟩
      · cases hStep
  · cases hStep

theorem step_drop (hStep : shape.step .drop = some next) :
    ∃ reads writes rest, Entry.take? shape.entries = some (reads, writes, rest) ∧
      next = { entries := .finished reads writes :: rest } := by
  obtain ⟨⟨reads, writes, rest⟩, hTake, hShape⟩ := Option.bind_eq_some_iff.mp hStep
  exact ⟨_, _, _, hTake, (Option.some.inj hShape).symm⟩

end

/-- A value can be returned, and it does not depend on values that are left behind. -/
def returns (shape : Shape) : Bool := (Entry.take? shape.entries).any fun (reads, _, rest) => Entry.keeps reads rest

/-- The events are instructions in order that end in the return of an int. -/
def admits (shape : Shape) : List Event → Bool
  | [] => false
  | [.insn .ireturn] => shape.returns
  | event :: rest => ((Instruction.ofEvent? event).bind shape.step).any fun next => next.admits rest

end Shape

/-- Code that returns an int from an empty stack and in which every instruction is in order. -/
def Orderly (events : List Event) : Prop := Shape.admits {} events = true

instance (events : List Event) : Decidable (Orderly events) := inferInstanceAs (Decidable (_ = true))

end Decompiler.Arithmetic
