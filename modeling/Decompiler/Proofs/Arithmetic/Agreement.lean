import Decompiler.Proofs.Arithmetic.Declaration
import Decompiler.Proofs.Arithmetic.Run

/-!
Symbolic execution agrees with the stack machine on orderly code. The statements of an orderly unit of ints return
what its instructions return, whatever the parameters are. Other units run just as well on the stack machine, but
symbolic execution refuses them, or its statements return something else.
-/

namespace Decompiler.Arithmetic

open Execution

variable {setting : Setting} {block : Block} {run : Locals → Option Machine} {events : List Event} {unit : CompiledUnit}
  {count : Nat}

/-- A local that is no parameter has its slot for itself. -/
theorem IntTable.slotSiblings {table : LocalVariables} {id : VariableId} (ints : IntTable table)
    (hId : id < table.list.length) (hParameter : (table.get id).parameter = false) : table.slotSiblings id = [] := by
  apply List.filter_eq_nil_iff.mpr
  intro other hOther hSibling
  rw [Bool.and_eq_true, beq_iff_eq, bne_iff_ne] at hSibling
  exact hSibling.2 (ints.own id hId hParameter other (List.mem_range.mp hOther) hSibling.1)

/-- The finished graph of a block returns what the machine does. -/
theorem Returned.finished (returned : Returned block run events) (options : Options) (locals : Locals) :
    let body : MethodBody := { block.execution.toMethodBody with graph := block.finished options }
    ∃ value, (run locals).bind (·.returned? events) = some value ∧ body.returned? locals = some value := by
  intro body
  have hSame := returnSame_finished returned.plain (fun id hId => returned.locals.slotSiblings hId) options
  obtain ⟨value, hMachine, hStatements⟩ :=
    returned.value (fun id => (block.locals.get id).slot) (fun _ _ => rfl) locals
  exact ⟨value, hMachine, (hSame _ locals).trans hStatements⟩

/-- Symbolic execution of the unit succeeds. From all values of the locals its statements, evaluated one after the
other, return what the stack machine returns. -/
def Faithful (unit : CompiledUnit) (setting : Setting) : Prop :=
  ∃ body, (MethodBody.ofUnit unit setting).1 = .ok body ∧
    ∀ locals, ∃ value, Machine.returned? { locals, stack := [] } unit.events = some value ∧
      body.returned? locals = some value

/-- Orderly code that takes ints and returns one is executed faithfully. All code that the stack machine runs ought to
be; what orderly code keeps clear of are faults. -/
theorem faithful_of_orderly (hStatic : unit.isStatic = true)
    (hText : MethodDescriptor.ofText? unit.descriptor =
      some { parameters := List.replicate count .int, result := .int })
    (hOrderly : Orderly unit.events) : Faithful unit setting := by
  obtain ⟨after, runs, returned⟩ : ∃ after, Runs setting unit.events (.start unit _) after ∧
      Returned after (fun locals => some { locals, stack := [] }) unit.events :=
    (tracks_start hStatic rfl).runs hOrderly
  have hSome : unit.events ≠ [] := by
    intro hNil
    rw [hNil] at hOrderly
    cases hOrderly
  have hBody := MethodBody.ofUnit_eq hText (runs.ofInitial hSome) returned.nonempty returned.plain
  exact ⟨_, hBody, returned.finished setting.options⟩

/-- A chained assignment, an increment after a use, an exchange, a copy that is not taken and a dropped value. -/
theorem faithful_chained :
    Faithful
      { owner := "A", name := "m", descriptor := "(II)I", isStatic := true
        events :=
          [.var .iload 0, .insn .dup, .var .istore 2, .var .iload 1, .iinc 1 1, .insn .imul, .insn .iconst_3,
            .insn .swap, .insn .isub, .insn .ineg, .insn .iconst_5, .insn .dup_x1, .insn .iadd, .var .istore 3,
            .var .iload 3, .insn .pop, .iinc 0 7, .var .iload 2, .var .iload 3, .insn .dup, .insn .imul, .insn .isub,
            .insn .ireturn] }
      {} :=
  have hText : MethodDescriptor.ofText? "(II)I" = some { parameters := List.replicate 2 .int, result := .int } := by
    decide
  faithful_of_orderly rfl hText (by decide)

/-! ### Code that is not orderly -/

/-- A static method with the code. -/
def staticUnit (descriptor : String) (events : List Event) : CompiledUnit :=
  { owner := "A", name := "m", descriptor, isStatic := true, events }

/-- The stack machine returns, and the unit is not executed faithfully all the same. -/
def Differs (unit : CompiledUnit) : Prop :=
  (∀ locals, ∃ value, Machine.returned? { locals, stack := [] } unit.events = some value) ∧ ¬Faithful unit {}

/-- The values returned from one state of the locals show the difference. -/
theorem differs_of_returned {value : Int32} (locals : Locals)
    (hReturns : ∀ locals, ∃ value, Machine.returned? { locals, stack := [] } unit.events = some value)
    (hMachine : Machine.returned? { locals, stack := [] } unit.events = some value)
    (hBody : (MethodBody.ofUnit unit {}).1.toOption.bind (·.returned? locals) ≠ some value) : Differs unit := by
  refine ⟨hReturns, ?_⟩
  rintro ⟨body, hOk, hSame⟩
  obtain ⟨same, hSameMachine, hSameBody⟩ := hSame locals
  rw [hMachine] at hSameMachine
  apply hBody
  rw [hOk, hSameMachine]
  exact hSameBody

/-- The faults that orderly code keeps clear of. The copy that `dup_x1` puts below the top is not made, so the unit fails
as if its stack had run empty; a finished statement is taken in place of the value below it; one copy of an increment is
evaluated twice; exchanged values are evaluated in the other order; a value left behind is not evaluated. -/
theorem differs_disorderly :
    Differs (staticUnit "()I"
        [.insn .iconst_1, .insn .iconst_2, .insn .dup_x1, .insn .iadd, .insn .iadd, .insn .ireturn]) ∧
      Differs (staticUnit "(I)I"
        [.var .iload 0, .insn .iconst_3, .var .istore 1, .insn .iconst_1, .insn .iadd, .insn .ireturn]) ∧
      Differs (staticUnit "(I)I" [.iinc 0 1, .var .iload 0, .insn .dup, .insn .iadd, .insn .ireturn]) ∧
      Differs (staticUnit "(I)I"
        [.var .iload 0, .iinc 0 1, .var .iload 0, .insn .swap, .insn .isub, .insn .ireturn]) ∧
      Differs (staticUnit "(I)I" [.iinc 0 1, .var .iload 0, .var .iload 0, .insn .ireturn]) := by
  let zero : Locals := fun _ => 0
  refine ⟨?_, ?_, ?_, ?_, ?_⟩ <;> exact differs_of_returned zero (fun _ => ⟨_, rfl⟩) rfl (by decide +kernel)

end Decompiler.Arithmetic
