import Decompiler.Proofs.Assignment.Equivalent
import Decompiler.Proofs.Execution.Assignment

/-!
A compound assignment and an increment do what the plain assignment of the same value does: they store the same value at
the same location, and stop where it stops. Prefix increments have its value too.
-/

namespace Decompiler

mutual

/-- The operand is made of `this`, locals, fields, array elements, int and long constants and strings by arithmetic and
bitwise operators. -/
def Operand.isPlain : Operand → Bool
  | ⟨_, _, _, _, _, kind⟩ => kind.isPlain

def OperandKind.isPlain : OperandKind → Bool
  | .number (.int _) | .number (.long _) | .string _ | .this | .localVariable .. | .field _ _ none => true
  | .field _ _ (some receiver) => receiver.isPlain
  | .element array index => array.isPlain && index.isPlain
  | .binary left operator right => (AssignOperator.ofBinary? operator).isSome && left.isPlain && right.isPlain
  | _ => false

end

namespace Assignment

open Operand Execution

variable {memory : Memory} {target value left right operand : Operand} {operator : BinaryOperator}
  {location : Location} {before : Value}

theorem operation?_of_ofBinary? {joined : AssignOperator} (hJoined : AssignOperator.ofBinary? operator = some joined) :
    joined.operation? = some operator := by
  cases operator <;> cases hJoined <;> rfl

theorem operation?_of_ofStep? {upwards after : Bool} {step : UnaryOperator}
    (hStep : UnaryOperator.ofStep? (if upwards then 1 else -1) after = some step) :
    step.operation? = some (if upwards then .add else .subtract) ∧ step.followsOperand = after := by
  cases upwards <;> cases after <;> cases hStep <;> exact ⟨rfl, rfl⟩

/-- The value of what can be a target is the one at its location. -/
theorem evaluate_target (memory : Memory) (operand : Operand) :
    evaluate memory operand = (locate memory operand >>= memory.read) ∨ locate memory operand = throw .illTyped := by
  rw [evaluate_eq, locate]
  cases operand.kind
  case localVariable => exact .inl rfl
  case field _ _ receiver =>
    cases receiver with
    | none => exact .inl rfl
    | some receiver => exact .inl (by simp only [evaluateKind, bind_assoc, pure_bind])
  case element => exact .inl (by simp only [evaluateKind, bind_assoc, pure_bind])
  all_goals exact .inr rfl

theorem evaluate_of_locate (hLocation : locate memory operand = .ok location) :
    evaluate memory operand = memory.read location := by
  rcases evaluate_target memory operand with hRead | hNone
  · rw [hRead, hLocation]
    rfl
  · rw [hLocation] at hNone
    cases hNone

theorem isPlain_right (hPlain : value.isPlain = true) (hValue : value.kind = .binary left operator right) :
    right.isPlain = true := by
  obtain ⟨_, _, _, _, _, kind⟩ := value
  cases hValue
  exact (Bool.and_eq_true_iff.mp hPlain).2

/-- A constant one is the number one of its width. -/
theorem evaluate_one (hPlain : right.isPlain = true) (hOne : right.isConstant 1 = true) :
    ∃ one, evaluate memory right = .ok one ∧ (one = .int 1 ∨ one = .long 1) := by
  obtain ⟨_, _, _, _, _, kind⟩ := right
  cases kind
  case number value =>
    cases value with
    | int value =>
        have hValue : value = 1 := by
          simp only [isConstant, Number.integer?, beq_iff_eq, Option.some.injEq] at hOne
          exact Int32.toInt_inj.mp hOne
        exact ⟨.int 1, by rw [hValue]; rfl, .inl rfl⟩
    | long value =>
        have hValue : value = 1 := by
          simp only [isConstant, Number.integer?, beq_iff_eq, Option.some.injEq] at hOne
          exact Int64.toInt_inj.mp hOne
        exact ⟨.long 1, by rw [hValue]; rfl, .inr rfl⟩
    | float | double => cases hPlain
  all_goals cases hOne

/-- A step by one does not depend on the width of the one. -/
theorem write_step {type : JvmType} {upwards : Bool} {one : Value} (hRead : memory.read location = .ok before)
    (hNumber : before.isNumberOf type = true) (hOne : one = .int 1 ∨ one = .long 1) :
    (combine memory (if upwards then .add else .subtract) before one >>= memory.write location) =
      (combine memory (if upwards then .add else .subtract) before (.int 1) >>= memory.write location) := by
  rcases hOne with rfl | rfl
  · rfl
  · cases before with
    | int value =>
        have hNarrow (number : Int64) :
            memory.write location (.long number) = memory.write location (.int number.toInt32) := by
          rw [Memory.write, Memory.write, hRead]
          rfl
        cases upwards with
        | true =>
            change memory.write location (.long (value.toInt64 + 1)) = memory.write location (.int (value + 1))
            rw [hNarrow, Int64.toInt32_add, Int32.toInt32_toInt64]
            rfl
        | false =>
            change memory.write location (.long (value.toInt64 - 1)) = memory.write location (.int (value - 1))
            rw [hNarrow, Int64.toInt32_sub, Int32.toInt32_toInt64]
            rfl
    | long value => cases upwards <;> rfl
    | string | reference => cases hNumber

/-- The assignment of a value that computes with the target, in the order of its steps. -/
theorem execute_assign (hValue : value.kind = .binary left operator right)
    (hLeft : evaluate memory left = evaluate memory target) :
    execute memory (.assign target .assign value) = (do
      let location ← locate memory target
      let before ← memory.read location
      let after ← evaluate memory right
      combine memory operator before after >>= memory.write location) := by
  have hEvaluate : evaluate memory value = (do
      combine memory operator (← evaluate memory left) (← evaluate memory right)) := by
    rw [evaluate_eq, hValue, evaluateKind]
  simp only [execute, AssignOperator.operation?, hEvaluate, hLeft, bind_assoc]
  cases hLocation : locate memory target with
  | error fault => rfl
  | ok location =>
      rw [evaluate_of_locate hLocation]
      rfl

theorem execute_compound {joined : AssignOperator} (hJoined : AssignOperator.ofBinary? operator = some joined) :
    execute memory (.assign target joined right) = (do
      let location ← locate memory target
      let before ← memory.read location
      let after ← evaluate memory right
      combine memory operator before after >>= memory.write location) := by
  simp only [execute, operation?_of_ofBinary? hJoined]

theorem execute_increment {step : UnaryOperator} (hOperation : step.operation? = some operator) :
    execute memory (.unary step target) = (do
      let location ← locate memory target
      let before ← memory.read location
      let (stored, after) ← combine memory operator before (.int 1) >>= memory.write location
      return (if step.followsOperand then before else stored, after)) := by
  simp only [execute, hOperation, bind_assoc]

/-- At its location the target holds a number of the type, if it holds anything. -/
def HoldsNumber (memory : Memory) (target : Operand) (type : JvmType) : Prop :=
  ∀ location before, locate memory target = .ok location → memory.read location = .ok before →
    before.isNumberOf type = true

/-- An increment stores what the sum or difference with one is, and before the target it has the value stored. -/
theorem execute_step {type : JvmType} {upwards asValue : Bool} {step : UnaryOperator} (hPlain : value.isPlain = true)
    (hValue : value.kind = .binary left (if upwards then .add else .subtract) right)
    (hLeft : evaluate memory left = evaluate memory target) (hOne : right.isConstant 1 = true)
    (hStep : UnaryOperator.ofStep? (if upwards then 1 else -1) (!asValue) = some step)
    (holds : HoldsNumber memory target type) :
    Prod.snd <$> execute memory (.unary step target) = Prod.snd <$> execute memory (.assign target .assign value) ∧
      (asValue = true → execute memory (.unary step target) = execute memory (.assign target .assign value)) := by
  obtain ⟨hOperation, hFollows⟩ := operation?_of_ofStep? hStep
  obtain ⟨one, hRight, hOne⟩ : ∃ one, evaluate memory right = .ok one ∧ (one = .int 1 ∨ one = .long 1) :=
    evaluate_one (isPlain_right hPlain hValue) hOne
  rw [execute_assign hValue hLeft, execute_increment hOperation, hRight]
  cases hLocation : locate memory target with
  | error fault => exact ⟨rfl, fun _ => rfl⟩
  | ok location =>
      change Prod.snd <$> (memory.read location >>= _) = Prod.snd <$> (memory.read location >>= _) ∧
        (_ → (memory.read location >>= _) = (memory.read location >>= _))
      cases hRead : memory.read location with
      | error fault => exact ⟨rfl, fun _ => rfl⟩
      | ok before =>
          have hNumber := holds location before hLocation hRead
          change Prod.snd <$> ((combine memory _ before (.int 1) >>= memory.write location) >>= _) =
              Prod.snd <$> (combine memory _ before one >>= memory.write location) ∧
            (_ → ((combine memory _ before (.int 1) >>= memory.write location) >>= _) =
              (combine memory _ before one >>= memory.write location))
          rw [write_step hRead hNumber hOne]
          generalize (combine memory _ before (.int 1) >>= memory.write location) = outcome
          cases outcome with
          | error fault => exact ⟨rfl, fun _ => rfl⟩
          | ok stored =>
              refine ⟨rfl, fun hAsValue => ?_⟩
              change Except.ok (if step.followsOperand = true then before else stored.1, stored.2) = .ok stored
              rw [hFollows, hAsValue]
              rfl

/-- Every form of an assignment does what the plain one does. -/
theorem execute_form {type : JvmType} {asValue : Bool} {kind : OperandKind} (hPlain : value.isPlain = true)
    (copies : ShareCopies value target) (holds : HoldsNumber memory target type)
    (form : AssignmentForm (isNumeric type) target value asValue kind) :
    Prod.snd <$> execute memory kind = Prod.snd <$> execute memory (.assign target .assign value) ∧
      (asValue = true → execute memory kind = execute memory (.assign target .assign value)) := by
  have hSame {left right : Operand} {operator : BinaryOperator} (hValue : value.kind = .binary left operator right)
      (hLeft : left.equivalent target = true) : evaluate memory left = evaluate memory target := by
    have hPart : left ∈ value.children := by simp [children, hValue]
    exact (equivalent_means memory (fun x hx => copies x (mem_walk_of_child hPart hx)) hLeft).1
  cases form with
  | plain => exact ⟨rfl, fun _ => rfl⟩
  | compound hValue hLeft hJoined =>
      rw [execute_assign hValue (hSame hValue hLeft), execute_compound hJoined]
      exact ⟨rfl, fun _ => rfl⟩
  | step hValue hLeft _ hOne hStep => exact execute_step hPlain hValue (hSame hValue hLeft) hOne hStep holds

/-- Equivalent operands have one value in every memory, and are one location. Hence the operand built for an assignment
to an int or long changes every memory as the plain assignment does, and if its value is used it has the same one. -/
theorem assignment_keepsMeaning :
    (∀ a b : Operand, ShareCopies a b → a.equivalent b = true → ∀ memory,
      evaluate memory a = evaluate memory b ∧ locate memory a = locate memory b) ∧
    ∀ (setting : Setting) (state : Execution) (target value : Operand) (asValue : Bool),
      value.isPlain = true → ShareCopies value target →
      ∃ built after, Yields setting (assignment target value asValue) state built after ∧
        ∀ memory, HoldsNumber memory target (state.graph.typeOf target) →
          Prod.snd <$> execute memory built.kind = Prod.snd <$> execute memory (.assign target .assign value) ∧
          (asValue = true → execute memory built.kind = execute memory (.assign target .assign value)) := by
  refine ⟨fun a b copies hEquivalent memory => equivalent_means memory copies hEquivalent, ?_⟩
  intro setting state target value asValue hPlain copies
  obtain ⟨kind, hYields, form⟩ := yields_assignment target value asValue state
  exact ⟨_, _, hYields, fun memory holds => execute_form hPlain copies holds form⟩

/-- The greatest int, in an array that a field of `this` holds, plus a long one. It is the least int afterwards. -/
theorem assignment_keepsMeaning_wrapping :
    let this : Operand := { id := 1, type := .known (.reference "A"), kind := .this }
    let cells : Operand := { id := 2, type := .known (.array .int), kind := .field "A" "cells" (some this) }
    let index : Operand := { id := 3, type := .known .int, kind := .localVariable 1 false }
    let target : Operand := { id := 4, type := .known .int, kind := .element cells index }
    let one : Operand := { id := 5, type := .known .long, kind := .number (.long 1) }
    let value : Operand :=
      { id := 6, type := .known .int, kind := .binary { target with duplicated := true } .add one }
    let memory : Memory :=
      { this := .reference (some 0), locals := fun _ => .int 0, statics := fun _ => .reference none
        fields := fun _ => .reference (some 7), arrays := fun _ => [.int 2147483647], describe := fun _ => "" }
    let state : Execution := Execution.initial ⟨"A", "m", "(I)V", false, []⟩ ⟨[.int], .void⟩
    value.isPlain = true ∧ ShareCopies value target ∧ HoldsNumber memory target (state.graph.typeOf target) ∧
      ∃ built after, Yields {} (assignment target value true) state built after ∧
        Prod.fst <$> execute memory built.kind = .ok (.int (-2147483648)) := by
  intro this cells index target one value memory state
  have copies : ShareCopies value target := by
    intro x hx y hy hId
    simp [value, target, cells, this, index, one, walk, OperandKind.walkParts, walkOption] at hx hy
    rcases hx with rfl | rfl | rfl | rfl | rfl | rfl <;> rcases hy with rfl | rfl | rfl | rfl <;> cases hId <;> rfl
  have holds : HoldsNumber memory target (state.graph.typeOf target) := by
    rintro location before ⟨⟩ ⟨⟩
    rfl
  obtain ⟨built, after, hYields, hSame⟩ := assignment_keepsMeaning.2 {} state target value true rfl copies
  exact ⟨rfl, copies, holds, built, after, hYields, by rw [(hSame memory holds).2 rfl]; rfl⟩

end Assignment

end Decompiler
