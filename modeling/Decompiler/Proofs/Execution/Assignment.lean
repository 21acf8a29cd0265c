import Decompiler.Proofs.Execution.Block

/-!
The forms in which symbolic execution writes an assignment: as it is, as the compound assignment of a value that computes
with the target, and as an increment.
-/

namespace Decompiler.Execution

variable {setting : Setting} {target value left right : Operand} {operator : BinaryOperator} {joined : AssignOperator}
  {asValue : Bool}

/-- What the assignment of a value to a target may become, where the type of the target is numeric or not. -/
inductive AssignmentForm (numeric : Bool) (target value : Operand) (asValue : Bool) : OperandKind → Prop
  | plain : AssignmentForm numeric target value asValue (.assign target .assign value)
  | compound {left right : Operand} {operator : BinaryOperator} {joined : AssignOperator}
      (hValue : value.kind = .binary left operator right) (hLeft : left.equivalent target = true)
      (hJoined : AssignOperator.ofBinary? operator = some joined) :
      AssignmentForm numeric target value asValue (.assign target joined right)
  | step {left right : Operand} {upwards : Bool} {step : UnaryOperator}
      (hValue : value.kind = .binary left (if upwards then .add else .subtract) right)
      (hLeft : left.equivalent target = true) (hNumeric : numeric = true) (hOne : right.isConstant 1 = true)
      (hStep : UnaryOperator.ofStep? (if upwards then 1 else -1) (!asValue) = some step) :
      AssignmentForm numeric target value asValue (.unary step target)

/-- A value is joined with its assignment if it computes with what the target is equivalent to. -/
theorem compound?_eq_some (hCompound : compound? target value = some (operator, joined, right)) :
    ∃ left, value.kind = .binary left operator right ∧ left.equivalent target = true ∧
      AssignOperator.ofBinary? operator = some joined := by
  unfold compound? at hCompound
  split at hCompound
  · next left found right' hKind =>
      by_cases hEquivalent : left.equivalent target = true
      · simp only [hEquivalent, guard, ↓reduceIte, Option.bind_eq_bind, Option.pure_def, Option.bind_some,
          Option.bind_eq_some_iff, Option.some.injEq, Prod.mk.injEq] at hCompound
        obtain ⟨_, hJoined, rfl, rfl, rfl⟩ := hCompound
        exact ⟨left, hKind, hEquivalent, hJoined⟩
      · simp only [hEquivalent, guard] at hCompound
        cases hCompound
  · cases hCompound

/-- The state after one more identity was given away. -/
def identified (state : Execution) : Execution :=
  { state with graph.supply.nextId := state.graph.supply.nextId + 1 }

theorem identified_execution (block : Block) :
    block.execution.identified =
      { block with supply := { block.supply with nextId := block.supply.nextId + 1 } }.execution := rfl

/-- A new operand takes the next identity. -/
theorem yields_make (kind : OperandKind) (type : TypeRef) (state : Execution) :
    Yields setting (Operand.make kind type : ExecutionM Operand) state { id := state.graph.supply.nextId, type, kind }
      state.identified := rfl

/-- An increment is a step up or down with the type of its target. -/
theorem yields_increment (upwards after : Bool) (target : Operand) (state : Execution) :
    ∃ step, UnaryOperator.ofStep? (if upwards then 1 else -1) after = some step ∧
      Yields setting (increment upwards after target : ExecutionM Operand) state
        { id := state.graph.supply.nextId, type := target.type, kind := .unary step target } state.identified := by
  cases upwards <;> cases after <;> exact ⟨_, rfl, rfl⟩

/-- An assignment always takes one of the forms. -/
theorem yields_assignment (target value : Operand) (asValue : Bool) (state : Execution) :
    ∃ kind, Yields setting (assignment target value asValue) state
        { id := state.graph.supply.nextId, type := target.type, kind } state.identified ∧
      AssignmentForm (isNumeric (state.graph.typeOf target)) target value asValue kind := by
  generalize hNumeric : isNumeric (state.graph.typeOf target) = numeric
  cases hFused : if setting.options.fuseIncrements then compound? target value else none with
  | none =>
      refine ⟨_, Yields.bind (yields_read _) ?_, .plain⟩
      rw [hFused]
      exact yields_make _ _ _
  | some parts =>
      obtain ⟨operator, joined, right⟩ := parts
      have hCompound : compound? target value = some (operator, joined, right) := by
        split at hFused
        · exact hFused
        · cases hFused
      obtain ⟨left, hValue, hLeft, hJoined⟩ := compound?_eq_some hCompound
      have hSum (upwards : Bool) (hOperator : operator = if upwards then .add else .subtract) :
          ∃ kind, Yields setting
              (if numeric && right.isConstant 1 then increment upwards (!asValue) target
                else Operand.make (.assign target joined right) target.type : ExecutionM Operand) state
              { id := state.graph.supply.nextId, type := target.type, kind } state.identified ∧
            AssignmentForm numeric target value asValue kind := by
        by_cases hOne : (numeric && right.isConstant 1) = true
        · obtain ⟨step, hStep, hYields⟩ := yields_increment upwards (!asValue) target state
          rw [if_pos hOne]
          rw [Bool.and_eq_true] at hOne
          exact ⟨_, hYields, .step (hOperator ▸ hValue) hLeft hOne.1 hOne.2 hStep⟩
        · rw [if_neg hOne]
          exact ⟨_, yields_make _ _ _, .compound hValue hLeft hJoined⟩
      cases operator with
      | add =>
          obtain ⟨kind, hKind, form⟩ := hSum true rfl
          refine ⟨kind, Yields.bind (yields_read _) ?_, form⟩
          rw [hFused]
          exact Yields.bind (yields_typeOf _ _) (hNumeric ▸ hKind)
      | subtract =>
          obtain ⟨kind, hKind, form⟩ := hSum false rfl
          refine ⟨kind, Yields.bind (yields_read _) ?_, form⟩
          rw [hFused]
          exact Yields.bind (yields_typeOf _ _) (hNumeric ▸ hKind)
      | _ =>
          refine ⟨_, Yields.bind (yields_read _) ?_, .compound hValue hLeft hJoined⟩
          rw [hFused]
          exact Yields.bind (yields_typeOf _ _) (yields_make _ _ _)

end Decompiler.Execution
