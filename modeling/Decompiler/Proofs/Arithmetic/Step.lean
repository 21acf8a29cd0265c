import Decompiler.Proofs.Arithmetic.Mirror
import Decompiler.Proofs.Arithmetic.Variable
import Decompiler.Proofs.Execution.Straight

/-!
The symbolic execution of one instruction of orderly code. `Tracks` relates a block to the runs of the stack machine
from all initial locals; every instruction that is in order preserves it.
-/

namespace Decompiler.Arithmetic

open Execution

/-! ### What holds of a block between two instructions -/

/-- What is known of an operand made so far. A part of it never has the identity of an operand made later. -/
structure Known (supply : Supply) (operand : Operand) : Prop where
  type : IsInt operand.type
  id : operand.id < supply.nextId
  left : ∀ left operator right, operand.kind = .binary left operator right → left.id < supply.nextId

/-- The block of a static unit that computes with ints. -/
structure Plain (block : Block) : Prop where
  locals : IntTable block.locals
  types : IntCells block.supply.types
  operands : ∀ operand ∈ block.stack.reverse, Known block.supply operand
  codes : Opcode.new ∉ block.codes
  result : block.descriptor.result = .int

/-- What the latest instruction left of which the next one may make use. -/
def Recalls (block : Block) (entries : List Entry) : Last → Prop
  | .load slot => block.codes.head? = some .iload ∧ block.touched.head? = some slot ∧
      ∃ below top rest id, entries = .value [slot] [] :: below ∧ block.stack.reverse = top :: rest ∧
        top.kind = .localVariable id false ∧ Found block.locals slot id
  | .step slot => block.codes.head? = some .iinc ∧ block.touched.head? = some slot ∧
      ∃ below top rest id amount, entries = .finished [slot] [slot] :: below ∧ block.stack.reverse = top :: rest ∧
        top.statement = true ∧ top.duplicated = false ∧ top.asLocal? = none ∧ top.references id = true ∧
        Found block.locals slot id ∧
        ∀ slots, Agrees slots block.locals → Computes slots top (.increment slot amount false)
  | .other => (block.codes.head? = some .iload → ∀ top ∈ block.stack.reverse.head?, top.asLocal? = none) ∧
      (block.codes.head? = some .iinc → ∀ top ∈ block.stack.reverse.head?, top.statement = false)

/-- The block is what symbolic execution makes of the instructions that lead the stack machine from all initial locals
to the states of the run. -/
structure Tracks (shape : Shape) (block : Block) (run : Locals → Option Machine) : Prop where
  mirrors : ∀ slots, Agrees slots block.locals →
    ∃ reach, (∀ locals, run locals = some (reach locals)) ∧ Mirrors slots shape.entries block.stack.reverse reach
  recalls : Recalls block shape.entries shape.last
  plain : Plain block

/-- The run with one more instruction. -/
def following (run : Locals → Option Machine) (instruction : Instruction) : Locals → Option Machine :=
  fun locals => (run locals).bind (·.step instruction)

variable {setting : Setting} {block : Block} {shape next : Shape} {run : Locals → Option Machine} {op : Opcode}
  {operand top : Operand} {rest operands : List Operand} {entries entries' : List Entry} {supply : Supply}
  {locals : LocalVariables} {touched : List UInt16} {instruction : Instruction} {last : Last}
  {reads writes : List UInt16} {id : VariableId}

namespace Known

/-- What is known stays known when more operands are made. -/
theorem mono {supply' : Supply} (known : Known supply operand) (hNext : supply.nextId ≤ supply'.nextId) :
    Known supply' operand :=
  ⟨known.type, known.id.trans_le hNext,
    fun left operator right hKind => (known.left left operator right hKind).trans_le hNext⟩

/-- A copy of an operand is no less known than the operand. -/
theorem single (known : Known supply operand) : Known supply (single operand) := ⟨known.type, known.id, known.left⟩

/-- A popped value leaves known operands. -/
theorem remaining (known : ∀ operand ∈ top :: rest, Known supply operand) :
    ∀ operand ∈ remaining top rest, Known supply operand := by
  intro operand hOperand
  rw [Arithmetic.remaining] at hOperand
  split at hOperand
  · rcases List.mem_cons.mp hOperand with rfl | hRest
    · exact (known top List.mem_cons_self).single
    · exact known operand (List.mem_cons_of_mem _ hRest)
  · exact known operand (List.mem_cons_of_mem _ hOperand)

/-- A new operand on top of known ones. -/
theorem cons {supply' : Supply} (hNext : supply.nextId ≤ supply'.nextId)
    (known : ∀ operand ∈ rest, Known supply operand) (hOperand : Known supply' operand) :
    ∀ other ∈ operand :: rest, Known supply' other := by
  intro other hOther
  rcases List.mem_cons.mp hOther with rfl | hRest
  · exact hOperand
  · exact (known other hRest).mono hNext

end Known

/-- After other instructions than a load or an increment there is nothing to make use of. -/
theorem recalls_other (hLoad : block.codes.head? ≠ some .iload) (hStep : block.codes.head? ≠ some .iinc) :
    Recalls block entries .other :=
  ⟨fun hCode => absurd hCode hLoad, fun hCode => absurd hCode hStep⟩

namespace Tracks

/-- The slots that the table itself gives to the variables. -/
theorem canonical (tracks : Tracks shape block run) :
    ∃ slots reach, Mirrors slots shape.entries block.stack.reverse reach := by
  obtain ⟨reach, -, mirrors⟩ := tracks.mirrors (fun id => (block.locals.get id).slot) fun _ _ => rfl
  exact ⟨_, reach, mirrors⟩

/-- The value that an instruction takes is the topmost operand, which is no statement. -/
theorem exists_top (tracks : Tracks shape block run)
    (hTake : Entry.take? shape.entries = some (reads, writes, entries)) :
    ∃ top rest, block.stack.reverse = top :: rest ∧ top.statement = false := by
  obtain ⟨slots, reach, mirrors⟩ := tracks.canonical
  exact mirrors.exists_top hTake

/-- A value on top is an operand, whether it is there once or twice. -/
theorem exists_pending (tracks : Tracks shape block run)
    (hPending : (∃ reads writes below, shape.entries = .value reads writes :: below) ∨
      ∃ reads writes below, shape.entries = .double reads writes :: below) :
    ∃ top rest, block.stack.reverse = top :: rest := by
  obtain ⟨slots, reach, mirrors⟩ := tracks.canonical
  rcases hPending with ⟨_, _, _, hEntries⟩ | ⟨_, _, _, hEntries⟩
  · obtain ⟨top, rest, hStack, -⟩ := (hEntries ▸ mirrors).top_of_value
    exact ⟨top, rest, hStack⟩
  · obtain ⟨top, rest, hStack, -⟩ := (hEntries ▸ mirrors).top_of_double
    exact ⟨top, rest, hStack⟩

/-- The block after an instruction tracks the run with it. -/
theorem advance (tracks : Tracks shape block run) (hOp : op ≠ .new) (hLocals : IntTable locals)
    (hAgrees : ∀ slots, Agrees slots locals → Agrees slots block.locals) (hTypes : IntCells supply.types)
    (hKnown : ∀ operand ∈ operands, Known supply operand)
    (hRecalls : Recalls { block with
      stack := operands.reverse, supply, locals, codes := op :: block.codes, touched } entries last)
    (hLeads : ∀ slots, Agrees slots locals → ∀ reach, Mirrors slots shape.entries block.stack.reverse reach →
      Leads slots reach instruction entries operands) :
    Tracks { entries, last }
      { block with stack := operands.reverse, supply, locals, codes := op :: block.codes, touched }
      (following run instruction) := by
  refine ⟨?_, hRecalls, hLocals, hTypes, ?_, ?_, tracks.plain.result⟩
  · intro slots hSlots
    obtain ⟨reach, hRun, mirrors⟩ := tracks.mirrors slots (hAgrees slots hSlots)
    obtain ⟨reach', hStep, mirrors'⟩ := hLeads slots hSlots reach mirrors
    refine ⟨reach', fun locals => ?_, by rwa [List.reverse_reverse]⟩
    rw [following, hRun, Option.bind_some, hStep]
  · rwa [List.reverse_reverse]
  · rw [List.mem_cons, not_or]
    exact ⟨hOp.symm, tracks.plain.codes⟩

/-- The block after an instruction that knows nothing of locals. -/
theorem advanceOther (tracks : Tracks shape block run) (hOp : op ≠ .new ∧ op ≠ .iload ∧ op ≠ .iinc)
    (hTypes : IntCells supply.types) (hKnown : ∀ operand ∈ operands, Known supply operand)
    (hLeads : ∀ slots reach, Mirrors slots shape.entries block.stack.reverse reach →
      Leads slots reach instruction entries operands) :
    Tracks { entries } { block with stack := operands.reverse, supply, codes := op :: block.codes }
      (following run instruction) := by
  refine tracks.advance hOp.1 tracks.plain.locals (fun _ hAgrees => hAgrees) hTypes hKnown (recalls_other ?_ ?_)
    fun slots _ => hLeads slots
  · exact fun hCode => hOp.2.1 (Option.some.inj hCode)
  · exact fun hCode => hOp.2.2 (Option.some.inj hCode)

end Tracks

/-! ### Stack operations -/

theorem stack_eq (hStack : block.stack.reverse = top :: rest) : block.stack = rest.reverse ++ [top] := by
  rw [← List.reverse_reverse block.stack, hStack, List.reverse_cons]

section

variable (block : Block)

/-- The topmost operand is taken, or one of its two copies. -/
theorem yields_pop_top (hStack : block.stack.reverse = top :: rest) :
    Yields setting (pop 0) block.execution (single top)
      { block with stack := (remaining top rest).reverse }.execution := by
  cases hDouble : top.duplicated with
  | false =>
      have hSingle : single top = top := by
        cases top
        cases hDouble
        rfl
      rw [remaining, hDouble, hSingle]
      exact Block.yields_pop (stack_eq hStack) hDouble
  | true =>
      rw [remaining, hDouble, if_pos rfl, List.reverse_cons]
      exact Block.yields_pop_duplicated (stack_eq hStack) hDouble

/-- A pushed operand is the topmost one. -/
theorem yields_push_top (operand : Operand) :
    Yields setting (push operand) block.execution ()
      { block with stack := (operand :: block.stack.reverse).reverse }.execution := by
  rw [List.reverse_cons, List.reverse_reverse]
  exact Block.yields_push operand

/-- The supply after a guess of an int. -/
def guessed (supply : Supply) : Supply :=
  { nextId := supply.nextId + 1, types := (supply.types.add .int false).2 }

/-- A new operand that is guessed to be an int takes the next identity and a new type cell. -/
theorem yields_pushGuessed (kind : OperandKind) :
    Yields setting (do push (← Operand.guessed kind .int)) block.execution ()
      { block with
        stack := (({ id := block.supply.nextId, type := .cell block.supply.types.cells.size, kind } : Operand) ::
          block.stack.reverse).reverse
        supply := guessed block.supply }.execution :=
  Yields.bind (Block.yields_supply _) (yields_push_top _ _)

theorem yields_pushMade (kind : OperandKind) (type : TypeRef) :
    Yields setting (do push (← Operand.make kind type)) block.execution ()
      { block with
        stack := (({ id := block.supply.nextId, type, kind } : Operand) :: block.stack.reverse).reverse
        supply := { block.supply with nextId := block.supply.nextId + 1 } }.execution :=
  Yields.bind (Block.yields_supply _) (yields_push_top _ _)

/-- Two operands make way for the one that computes with them. -/
theorem yields_applyBinary {operator : BinaryOperator} {below : Operand} {lower : List Operand}
    (hOperator : (Operation.ofBinary? operator).isSome) (hStack : block.stack.reverse = top :: rest)
    (hBelow : remaining top rest = below :: lower) :
    Yields setting (applyBinary operator .int) block.execution ()
      { block with
        stack := (({ id := block.supply.nextId, type := .cell block.supply.types.cells.size
                     kind := .binary (single below) operator (single top) } : Operand) ::
          remaining below lower).reverse
        supply := guessed block.supply }.execution := by
  have hMiddle : (remaining top rest).reverse.reverse = below :: lower := by rw [List.reverse_reverse, hBelow]
  have hBitwise : (operator == .bitAnd || operator == .bitOr || operator == .bitXor) = false := by
    cases operator with
    | add | subtract | multiply => rfl
    | _ => cases hOperator
  refine Yields.bind (yields_pop_top _ hStack) (Yields.bind (yields_pop_top _ hMiddle)
    (Yields.bind (yields_typeOf _ _) (Yields.bind (yields_typeOf _ _) ?_)))
  rw [hBitwise]
  have hPush : Yields setting _ { block with stack := (remaining below lower).reverse }.execution () _ :=
    yields_pushGuessed _ (.binary (single below) operator (single top))
  rw [List.reverse_reverse] at hPush
  exact hPush

/-- The topmost operand makes way for its negation. -/
theorem yields_negate (hStack : block.stack.reverse = top :: rest) :
    Yields setting (do
        let value ← pop 0
        push (← Operand.make (.unary .negate value) value.type)) block.execution ()
      { block with
        stack := (({ id := block.supply.nextId, type := top.type, kind := .unary .negate (single top) } : Operand) ::
          remaining top rest).reverse
        supply := { block.supply with nextId := block.supply.nextId + 1 } }.execution := by
  have hPush : Yields setting _ { block with stack := (remaining top rest).reverse }.execution () _ :=
    yields_pushMade _ (.unary .negate (single top)) top.type
  rw [List.reverse_reverse] at hPush
  exact Yields.bind (yields_pop_top _ hStack) hPush

/-- A copy is a mark on the topmost operand. -/
theorem yields_duplicate (hStack : block.stack.reverse = top :: rest)
    (hNew : (InstructionHistory.ofCodes block.codes).endsInTemplate [Opcode.new, Category.duplicate] = false) :
    Yields setting (duplicate .dup) block.execution ()
      { block with stack := (({ top with duplicated := true } : Operand) :: rest).reverse }.execution := by
  rw [List.reverse_cons]
  exact Block.yields_duplicate (stack_eq hStack) hNew

/-- The two topmost operands change places. -/
theorem yields_swap {below : Operand} (hStack : block.stack.reverse = top :: below :: rest) :
    Yields setting (do
        let top ← take 0
        let below ← take 0
        push top
        push below) block.execution () { block with stack := (below :: top :: rest).reverse }.execution := by
  have hTop : block.stack = (below :: rest).reverse ++ [top] := stack_eq hStack
  have hBelow : (below :: rest).reverse = rest.reverse ++ [below] := List.reverse_cons
  have hAfter : (below :: top :: rest).reverse = rest.reverse ++ [top] ++ [below] := by
    rw [List.reverse_cons, List.reverse_cons]
  rw [hAfter]
  exact Yields.bind (Block.yields_take hTop) (Yields.bind (Block.yields_take hBelow)
    (Yields.bind (Block.yields_push _) (Block.yields_push _)))

/-- A value that is no call is kept as a statement. -/
theorem yields_popStatement (hStack : block.stack.reverse = top :: rest)
    (hCall : ∀ owner name descriptor receiver arguments special,
      top.kind ≠ .call owner name descriptor receiver arguments special) :
    Yields setting popStatement block.execution ()
      { block with stack := ((single top).asStatement :: remaining top rest).reverse }.execution := by
  have hTop : block.stack = rest.reverse ++ [top] := stack_eq hStack
  refine Yields.bind Block.yields_here (Yields.bind Block.yields_peek? (Yields.bind (yields_get _) ?_))
  rw [hTop, List.getLast?_concat]
  rw [Option.isNone_some, Bool.false_and, if_neg Bool.false_ne_true]
  refine Yields.bind (yields_endsIn _ _) (Yields.bind (yields_pop_top _ hStack) ?_)
  split
  · next hFound =>
      cases hFound
      exact absurd rfl (hCall _ _ _ _ _ _)
  · have hPush : Yields setting (pushStatement (single top))
        { block with stack := (remaining top rest).reverse }.execution () _ := yields_push_top _ _
    rw [List.reverse_reverse] at hPush
    rw [Bool.and_false]
    exact hPush

end

/-- An instruction that pushes a constant is recorded, and an operand with the constant is pushed. -/
theorem Instruction.accept_constant {event : Event} {value : Int32} (hEvent : ofEvent? event = some (.constant value)) :
    ∃ op, event.code? = some op ∧ (op ≠ .new ∧ op ≠ .iload ∧ op ≠ .iinc) ∧
      accept event = (record op >>= fun _ => do push (← Operand.guessed (.number (.int value)) .int)) := by
  unfold ofEvent? at hEvent
  split at hEvent <;> cases hEvent <;> exact ⟨_, rfl, by decide, rfl⟩

namespace Tracks

/-! ### Constants and operations -/

/-- A constant is pushed on both stacks. -/
theorem constant {event : Event} {value : Int32} (tracks : Tracks shape block run)
    (hEvent : Instruction.ofEvent? event = some (.constant value)) :
    ∃ after, Runs setting [event] block after ∧
      Tracks { entries := .value [] [] :: shape.entries } after (following run (.constant value)) := by
  obtain ⟨op, hCode, hOp, hAccept⟩ := Instruction.accept_constant hEvent
  refine ⟨_, .single hCode (hAccept ▸ Yields.bind (Block.yields_record op) (yields_pushGuessed _ _)), ?_⟩
  refine tracks.advanceOther hOp tracks.plain.types.add ?_ ?_
  · refine Known.cons (Nat.le_succ _) tracks.plain.operands ⟨trivial, Nat.lt_succ_self _, nofun⟩
  · exact fun slots reach mirrors => mirrors.constant rfl rfl (.number rfl)

/-- Both sides take two values and leave the result, on the stack machine as a number. -/
theorem operate {event : Event} {operation : Operation} (tracks : Tracks shape block run)
    (hEvent : Instruction.ofEvent? event = some (.operate operation))
    (hNext : shape.step (.operate operation) = some next) :
    ∃ after, Runs setting [event] block after ∧ Tracks next after (following run (.operate operation)) := by
  obtain ⟨reads', writes', middle, reads, writes, lower, hTop, hBelow, rfl⟩ := Shape.step_operate hNext
  obtain ⟨slots, reach, mirrors⟩ := tracks.canonical
  obtain ⟨top, rest, hStack, -⟩ := mirrors.exists_top hTop
  rw [hStack] at mirrors
  obtain ⟨_, _, _, _, middleMirrors, _⟩ := mirrors.take hTop
  obtain ⟨below, operands, hRemaining, -⟩ := middleMirrors.exists_top hBelow
  have hApply : ∃ op operator, event.code? = some op ∧ (op ≠ .new ∧ op ≠ .iload ∧ op ≠ .iinc) ∧
      Operation.ofBinary? operator = some operation ∧
      accept event = (record op >>= fun _ => applyBinary operator .int) := by
    unfold Instruction.ofEvent? at hEvent
    split at hEvent <;> cases hEvent <;> exact ⟨_, _, rfl, by decide, rfl, rfl⟩
  obtain ⟨op, operator, hCode, hOp, hOperator, hAccept⟩ := hApply
  have hArity : (Operation.ofBinary? operator).isSome := by
    rw [hOperator]
    rfl
  have hApplied : Yields setting (applyBinary operator .int) { block with codes := op :: block.codes }.execution () _ :=
    yields_applyBinary _ hArity hStack hRemaining
  refine ⟨_, .single hCode (hAccept ▸ Yields.bind (Block.yields_record op) hApplied), ?_⟩
  have hKnown : ∀ operand ∈ top :: rest, Known block.supply operand := hStack ▸ tracks.plain.operands
  have hMiddle : ∀ operand ∈ below :: operands, Known block.supply operand := hRemaining ▸ Known.remaining hKnown
  refine tracks.advanceOther hOp tracks.plain.types.add ?_ ?_
  · refine Known.cons (Nat.le_succ _) (Known.remaining hMiddle) ⟨trivial, Nat.lt_succ_self _, ?_⟩
    rintro _ _ _ hKind
    cases hKind
    exact Nat.lt_succ_of_lt (hMiddle below List.mem_cons_self).id
  · intro slots reach mirrors
    rw [hStack] at mirrors
    exact mirrors.operate hTop hRemaining hBelow (fun f g hLeft hRight => .binary rfl hOperator hLeft hRight) rfl rfl

/-- Both sides negate the value on top. -/
theorem negate (tracks : Tracks shape block run) (hNext : shape.step .negate = some next) :
    ∃ after, Runs setting [.insn .ineg] block after ∧ Tracks next after (following run .negate) := by
  obtain ⟨reads, writes, lower, hTake, rfl⟩ := Shape.step_negate hNext
  obtain ⟨top, rest, hStack, -⟩ := tracks.exists_top hTake
  refine ⟨_, .single rfl (Yields.bind (Block.yields_record .ineg) (yields_negate _ hStack)), ?_⟩
  have hKnown : ∀ operand ∈ top :: rest, Known block.supply operand := hStack ▸ tracks.plain.operands
  refine tracks.advanceOther (by decide) tracks.plain.types ?_ ?_
  · exact Known.cons (Nat.le_succ _) (Known.remaining hKnown)
      ⟨(hKnown top List.mem_cons_self).type, Nat.lt_succ_self _, nofun⟩
  · intro slots reach mirrors
    rw [hStack] at mirrors
    exact mirrors.negate hTake (fun f hTop => .negate rfl hTop) rfl rfl

/-! ### Instructions that move operands -/

/-- The stack machine has the value twice, the block once with a mark. -/
theorem duplicate (tracks : Tracks shape block run) (hNext : shape.step .duplicate = some next) :
    ∃ after, Runs setting [.insn .dup] block after ∧ Tracks next after (following run .duplicate) := by
  obtain ⟨top, rest, hStack⟩ := tracks.exists_pending <| (Shape.step_duplicate hNext).imp
    (fun ⟨_, _, _, hEntries, _⟩ => ⟨_, _, _, hEntries⟩) fun ⟨_, _, _, hEntries, _⟩ => ⟨_, _, _, hEntries⟩
  refine ⟨_, .single rfl (Yields.bind (Block.yields_record .dup)
    (yields_duplicate _ hStack (InstructionHistory.endsInTemplate_new tracks.plain.codes _ _))), ?_⟩
  have hKnown : ∀ operand ∈ top :: rest, Known block.supply operand := hStack ▸ tracks.plain.operands
  have known : Known block.supply top := hKnown top List.mem_cons_self
  have hAfter : ∀ operand ∈ ({ top with duplicated := true } : Operand) :: rest, Known block.supply operand :=
    Known.cons (Nat.le_refl _) (fun operand hOperand => hKnown operand (List.mem_cons_of_mem _ hOperand))
      ⟨known.type, known.id, known.left⟩
  rcases Shape.step_duplicate hNext with ⟨_, _, _, hEntries, rfl⟩ | ⟨_, _, _, hEntries, rfl⟩
  · refine tracks.advanceOther (by decide) tracks.plain.types hAfter fun slots reach mirrors => ?_
    rw [hStack, hEntries] at mirrors
    exact mirrors.duplicate
  · refine tracks.advanceOther (by decide) tracks.plain.types hAfter fun slots reach mirrors => ?_
    rw [hStack, hEntries] at mirrors
    exact mirrors.duplicateDouble

/-- The copy below the top is made by the stack machine only. -/
theorem duplicateBelow (tracks : Tracks shape block run) (hNext : shape.step .duplicateBelow = some next) :
    ∃ after, Runs setting [.insn .dup_x1] block after ∧ Tracks next after (following run .duplicateBelow) := by
  refine ⟨{ block with codes := .dup_x1 :: block.codes }, .single rfl (Block.yields_record .dup_x1), ?_⟩
  have hLeads : ∀ slots reach, Mirrors slots shape.entries block.stack.reverse reach →
      Leads slots reach .duplicateBelow next.entries block.stack.reverse := by
    intro slots reach mirrors
    rcases Shape.step_duplicateBelow hNext with ⟨_, _, _, _, _, hEntries, rfl⟩ | ⟨_, _, _, hEntries, rfl⟩
    · exact Mirrors.duplicateBelow (hEntries ▸ mirrors)
    · exact Mirrors.duplicateBelowDouble (hEntries ▸ mirrors)
  have hLast : next.last = .other := by
    rcases Shape.step_duplicateBelow hNext with ⟨_, _, _, _, _, -, rfl⟩ | ⟨_, _, _, -, rfl⟩ <;> rfl
  have hOp : Opcode.dup_x1 ≠ .new ∧ Opcode.dup_x1 ≠ .iload ∧ Opcode.dup_x1 ≠ .iinc := by decide
  have hAdvance := tracks.advanceOther hOp tracks.plain.types tracks.plain.operands hLeads
  rw [List.reverse_reverse, ← hLast] at hAdvance
  exact hAdvance

/-- Both sides exchange the two values on top. -/
theorem swap (tracks : Tracks shape block run) (hNext : shape.step .swap = some next) :
    ∃ after, Runs setting [.insn .swap] block after ∧ Tracks next after (following run .swap) := by
  obtain ⟨reads', writes', reads, writes, entries, hEntries, hApart, rfl⟩ := Shape.step_swap hNext
  obtain ⟨slots, reach, mirrors⟩ := tracks.canonical
  rw [hEntries] at mirrors
  obtain ⟨top, below, rest, hStack⟩ := mirrors.exists_pair
  have hKnown : ∀ operand ∈ top :: below :: rest, Known block.supply operand := hStack ▸ tracks.plain.operands
  refine ⟨_, .single rfl (Yields.bind (Block.yields_record .swap) (yields_swap _ hStack)), ?_⟩
  refine tracks.advanceOther (by decide) tracks.plain.types ?_ ?_
  · intro operand hOperand
    rw [List.mem_cons, List.mem_cons, or_left_comm, ← List.mem_cons, ← List.mem_cons] at hOperand
    exact hKnown operand hOperand
  · intro slots reach mirrors
    rw [hStack, hEntries] at mirrors
    exact mirrors.swap hApart

/-- The stack machine drops the value, the block keeps it as a statement. -/
theorem drop (tracks : Tracks shape block run) (hNext : shape.step .drop = some next) :
    ∃ after, Runs setting [.insn .pop] block after ∧ Tracks next after (following run .drop) := by
  obtain ⟨reads, writes, lower, hTake, rfl⟩ := Shape.step_drop hNext
  obtain ⟨top, rest, hStack, -⟩ := tracks.exists_top hTake
  obtain ⟨slots, reach, mirrors⟩ := tracks.canonical
  obtain ⟨f, -, hComputes, -⟩ := (hStack ▸ mirrors).take hTake
  have hCall (owner name descriptor : String) (receiver : Option Operand) (arguments : List Operand) (special : Bool) :
      top.kind ≠ .call owner name descriptor receiver arguments special := by
    intro hKind
    have hNothing := hComputes fun _ => 0
    rw [evaluate_eq, Arithmetic.single, hKind] at hNothing
    cases hNothing
  refine ⟨_, .single rfl (Yields.bind (Block.yields_record .pop) (yields_popStatement _ hStack hCall)), ?_⟩
  have hKnown : ∀ operand ∈ top :: rest, Known block.supply operand := hStack ▸ tracks.plain.operands
  have known : Known block.supply top := hKnown top List.mem_cons_self
  refine tracks.advanceOther (by decide) tracks.plain.types ?_ ?_
  · exact Known.cons (Nat.le_refl _) (Known.remaining hKnown) ⟨known.type, known.id, known.left⟩
  · intro slots reach mirrors
    rw [hStack] at mirrors
    exact mirrors.drop hTake rfl rfl

end Tracks

end Decompiler.Arithmetic
