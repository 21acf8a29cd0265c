import Decompiler.Proofs.Arithmetic.Access

/-!
Runs of orderly code. From the first instruction on, symbolic execution tracks the stack machine; at the return the
statements left on the block return what the machine does.
-/

namespace Decompiler.Arithmetic

open Execution

variable {setting : Setting} {block : Block} {shape next : Shape} {run : Locals → Option Machine} {event : Event}
  {events rest : List Event} {instruction : Instruction} {unit : CompiledUnit} {count : Nat}

/-! ### One instruction -/

/-- Every instruction in order is executed, and the block tracks the machine after it. -/
theorem Tracks.step (tracks : Tracks shape block run) (hEvent : Instruction.ofEvent? event = some instruction)
    (hNext : shape.step instruction = some next) :
    ∃ after, Runs setting [event] block after ∧ Tracks next after (following run instruction) := by
  have hForm := Instruction.eq_of_ofEvent? hEvent
  cases instruction with
  | constant value =>
      obtain rfl := Option.some.inj hNext
      exact tracks.constant hEvent
  | operate operation => exact tracks.operate hEvent hNext
  | load slot =>
      rw [show event = .var .iload slot from hForm]
      exact tracks.load hNext
  | store slot =>
      rw [show event = .var .istore slot from hForm]
      exact tracks.store hNext
  | increment slot amount =>
      rw [show event = .iinc slot amount from hForm]
      exact tracks.increment hNext
  | negate =>
      rw [show event = .insn .ineg from hForm]
      exact tracks.negate hNext
  | duplicate =>
      rw [show event = .insn .dup from hForm]
      exact tracks.duplicate hNext
  | duplicateBelow =>
      rw [show event = .insn .dup_x1 from hForm]
      exact tracks.duplicateBelow hNext
  | swap =>
      rw [show event = .insn .swap from hForm]
      exact tracks.swap hNext
  | drop =>
      rw [show event = .insn .pop from hForm]
      exact tracks.drop hNext

/-! ### The return -/

/-- What a unit has become when it returns from a state of the run. -/
structure Returned (block : Block) (run : Locals → Option Machine) (events : List Event) : Prop where
  locals : IntTable block.locals
  nonempty : block.stack ≠ []
  plain : ∀ operand ∈ block.stack, operand.isCondition = false
  value : ∀ slots, Agrees slots block.locals → ∀ locals, ∃ value,
    (run locals).bind (·.returned? events) = some value ∧ returnedBy? slots block.stack locals = some value

/-- The value on top of the stack is returned. -/
theorem Tracks.returns (tracks : Tracks shape block run) (hReturns : shape.returns = true) :
    ∃ after, Runs setting [.insn .ireturn] block after ∧ Returned after run [.insn .ireturn] := by
  obtain ⟨⟨reads, writes, below⟩, hTake, hKeeps⟩ := Option.any_eq_true _ _ |>.mp hReturns
  obtain ⟨top, rest, hStack, -⟩ := tracks.exists_top hTake
  have hFold : block.descriptor.result ≠ .boolean := by
    rw [tracks.plain.result]
    nofun
  have hStored : (single top).StoredAs block.descriptor.result := by
    rw [tracks.plain.result]
    exact .inl ⟨nofun, nofun⟩
  let entered : Block := { block with codes := .ireturn :: block.codes }
  have hPop : Yields setting (pop 0) entered.execution (single top)
      { entered with stack := (remaining top rest).reverse }.execution := yields_pop_top entered hStack
  obtain ⟨id, type, supply, hReturn⟩ : ∃ id type supply, Yields setting (returnValue .ireturn) entered.execution () _ :=
    Block.yields_returnValue nofun (.inl hFold) hPop hStored
  refine ⟨_, .single rfl (Yields.bind (Block.yields_record .ireturn) hReturn), tracks.plain.locals, ?_, ?_, ?_⟩
  · simp
  · obtain ⟨slots, reach, mirrors⟩ := tracks.canonical
    rw [hStack] at mirrors
    obtain ⟨_, _, _, _, lower, _⟩ := mirrors.take hTake
    intro operand hOperand
    rcases List.mem_append.mp hOperand with hBelow | hLast
    · exact lower.isCondition_eq_false operand (List.mem_reverse.mp hBelow)
    · rw [List.mem_singleton.mp hLast]
      rfl
  · intro slots hSlots locals
    obtain ⟨reach, hRun, mirrors⟩ := tracks.mirrors slots hSlots
    rw [hStack] at mirrors
    obtain ⟨f, reach', hValue, hWithin, lower, rfl⟩ := mirrors.take hTake
    obtain ⟨after, hAfter, hReturned⟩ := lower.returnedBy? hKeeps locals
    refine ⟨(f (reach' locals).locals).1, ?_, ?_⟩
    · rw [hRun]
      rfl
    · rw [hReturned, ← hWithin.value after (reach' locals).locals hAfter]
      simp only [returnedBy?, Bool.not_true, Bool.false_eq_true, ↓reduceIte, hValue after, Option.map_some]

/-! ### A whole run -/

theorem Shape.admits_cons (hAdmits : shape.admits (event :: rest) = true) :
    (event = .insn .ireturn ∧ rest = [] ∧ shape.returns = true) ∨
      ∃ instruction next, Instruction.ofEvent? event = some instruction ∧ shape.step instruction = some next ∧
        next.admits rest = true := by
  unfold Shape.admits at hAdmits
  split at hAdmits
  · next hNil => cases hNil
  · next hLast =>
      obtain ⟨rfl, rfl⟩ := List.cons.inj hLast
      exact .inl ⟨rfl, rfl, hAdmits⟩
  · next hCons =>
      obtain ⟨rfl, rfl⟩ := List.cons.inj hCons
      obtain ⟨next, hNext, hRest⟩ := Option.any_eq_true _ _ |>.mp hAdmits
      obtain ⟨instruction, hEvent, hStep⟩ := Option.bind_eq_some_iff.mp hNext
      exact .inr ⟨instruction, next, hEvent, hStep, hRest⟩

theorem Machine.returned?_cons (hEvent : Instruction.ofEvent? event = some instruction) (machine : Machine)
    (rest : List Event) :
    machine.returned? (event :: rest) = (machine.step instruction).bind (·.returned? rest) := by
  rw [Machine.returned?, hEvent]
  · rfl
  · rintro rfl
    cases hEvent

theorem Returned.cons (hEvent : Instruction.ofEvent? event = some instruction)
    (returned : Returned block (following run instruction) rest) : Returned block run (event :: rest) := by
  refine ⟨returned.locals, returned.nonempty, returned.plain, fun slots hSlots locals => ?_⟩
  obtain ⟨value, hMachine, hStatements⟩ := returned.value slots hSlots locals
  refine ⟨value, ?_, hStatements⟩
  rw [← hMachine, following, Option.bind_assoc]
  exact congrArg (run locals).bind (funext fun machine => machine.returned?_cons hEvent rest)

/-- The events that a shape admits lead to a return. -/
theorem Tracks.runs (tracks : Tracks shape block run) (hAdmits : shape.admits events = true) :
    ∃ after, Runs setting events block after ∧ Returned after run events := by
  induction events generalizing shape block run with
  | nil => cases hAdmits
  | cons event rest ih =>
      rcases Shape.admits_cons hAdmits with ⟨rfl, rfl, hReturns⟩ | ⟨instruction, next, hEvent, hNext, hRest⟩
      · exact tracks.returns hReturns
      · obtain ⟨middle, first, tracks'⟩ := tracks.step hEvent hNext
        obtain ⟨after, second, returned⟩ := ih tracks' hRest
        exact ⟨after, first.append second, returned.cons hEvent⟩

/-- A unit of ints begins with nothing on the stack. -/
theorem tracks_start {descriptor : MethodDescriptor} (hStatic : unit.isStatic = true)
    (hDescriptor : descriptor = { parameters := List.replicate count .int, result := .int }) :
    Tracks {} (.start unit descriptor) fun locals => some { locals, stack := [] } := by
  subst hDescriptor
  have hInts := IntTable.ofDescriptor unit.owner count
  rw [← hStatic] at hInts
  refine ⟨fun slots _ => ⟨_, fun _ => rfl, .empty⟩, recalls_other nofun nofun, hInts, nofun, nofun, ?_, rfl⟩
  exact fun hNew => by cases List.mem_singleton.mp hNew

end Decompiler.Arithmetic
