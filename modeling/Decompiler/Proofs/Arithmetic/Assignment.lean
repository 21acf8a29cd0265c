import Decompiler.Proofs.Arithmetic.Effect
import Decompiler.Proofs.Execution.Assignment

/-!
What the assignment of a value to a local computes, in each of the forms in which it is written: as an assignment, as a
compound assignment of a value that computes with the local, and as an increment.
-/

namespace Decompiler.Arithmetic

open Execution

variable {setting : Setting} {target value left operand : Operand} {id : VariableId} {slots : VariableId → UInt16}
  {f : Evaluation}

/-- The operand stores what the evaluation gives into the variable. As a value it is what is stored. -/
def Stores (slots : VariableId → UInt16) (id : VariableId) (asValue : Bool) (f : Evaluation)
    (operand : Operand) : Prop :=
  ∃ g, Computes slots operand g ∧ (∀ locals, (g locals).2 = (Evaluation.store (slots id) f locals).2) ∧
    (asValue = true → g = .store (slots id) f)

/-- An operand that is equivalent to a local and no copy of it is the same local. -/
theorem local_of_equivalent (hTarget : target.kind = .localVariable id false) (hFresh : left.id ≠ target.id)
    (hEquivalent : left.equivalent target = true) : ∃ declares, left.kind = .localVariable id declares := by
  obtain ⟨_, _, _, _, _, kind⟩ := left
  obtain ⟨_, _, _, _, _, _⟩ := target
  obtain rfl := hTarget
  cases kind with
  | localVariable other declares =>
      simp only [Operand.equivalent, Bool.or_eq_true, beq_iff_eq] at hEquivalent
      exact ⟨declares, by rw [hEquivalent.resolve_left hFresh]⟩
  | _ => simp [Operand.equivalent, hFresh] at hEquivalent

/-- The increment of a local, if the value stored into it is a step by one. -/
theorem stores_increment {upwards asValue : Bool} {operator : UnaryOperator}
    (hKind : operand.kind = .unary operator target)
    (hTarget : target.kind = .localVariable id false)
    (hOperator : UnaryOperator.ofStep? (if upwards then 1 else -1) (!asValue) = some operator)
    (hStep : ∀ locals, f locals = (locals (slots id) + (if upwards then 1 else -1), locals)) :
    Stores slots id asValue f operand := by
  have hAmount : UnaryOperator.ofStep? (if upwards then 1 else -1 : Int32).toInt (!asValue) = some operator := by
    rw [← hOperator]
    cases upwards <;> rfl
  refine ⟨_, .step hKind hTarget hAmount, fun locals => ?_, fun hValue => ?_⟩
  · simp [Evaluation.increment, Evaluation.store, hStep]
  · funext locals
    simp [Evaluation.increment, Evaluation.store, hStep, hValue]

/-- Whatever its form, an assignment stores what the value gives. -/
theorem stores_form {numeric asValue : Bool} {kind : OperandKind} (hTarget : target.kind = .localVariable id false)
    (hFresh : ∀ left operator right, value.kind = .binary left operator right → left.id ≠ target.id)
    (form : AssignmentForm numeric target value asValue kind) (hKind : operand.kind = kind)
    (hValue : Computes slots value f) : Stores slots id asValue f operand := by
  cases form with
  | plain => exact ⟨_, .assign hKind hTarget hValue, fun _ => rfl, fun _ => rfl⟩
  | compound hBinary hLeft hJoined =>
      obtain ⟨declares, hLocal⟩ := local_of_equivalent hTarget (hFresh _ _ _ hBinary) hLeft
      exact ⟨_, .compound hKind hTarget hBinary hLocal hJoined hValue, fun _ => rfl, fun _ => rfl⟩
  | step hBinary hLeft _ hOne hStep =>
      obtain ⟨declares, hLocal⟩ := local_of_equivalent hTarget (hFresh _ _ _ hBinary) hLeft
      exact stores_increment hKind hTarget hStep fun locals => hValue.stepped hBinary hLocal hOne rfl locals

/-- An assignment that is used as a value stays on the stack as one. -/
theorem yields_assign (block : Block) (asValue : Bool) (hTarget : target.kind = .localVariable id false)
    (hFresh : ∀ left operator right, value.kind = .binary left operator right → left.id ≠ target.id) :
    ∃ operand : Operand, Yields setting (assign target value asValue) block.execution ()
        { block with
          stack := block.stack ++ [operand]
          supply := { block.supply with nextId := block.supply.nextId + 1 } }.execution ∧
      operand.id = block.supply.nextId ∧ operand.type = target.type ∧ operand.duplicated = false ∧
      operand.statement = !asValue ∧ (∀ left operator right, operand.kind ≠ .binary left operator right) ∧
      ∀ slots f, Computes slots value f → Stores slots id asValue f operand := by
  obtain ⟨kind, hAssignment, form⟩ := yields_assignment target value asValue block.execution
  rw [identified_execution] at hAssignment
  have hKind (left : Operand) (operator : BinaryOperator) (right : Operand) : kind ≠ .binary left operator right := by
    cases form <;> nofun
  have hStores (operand : Operand) (hSame : operand.kind = kind) (slots : VariableId → UInt16) (f : Evaluation)
      (hValue : Computes slots value f) : Stores slots id asValue f operand :=
    stores_form hTarget hFresh form hSame hValue
  cases asValue with
  | true =>
      refine ⟨Operand.enclose { id := block.supply.nextId, type := target.type, kind }, Yields.bind hAssignment ?_,
        rfl, rfl, rfl, rfl, hKind, hStores _ rfl⟩
      exact Block.yields_push _
  | false =>
      refine ⟨Operand.asStatement { id := block.supply.nextId, type := target.type, kind }, Yields.bind hAssignment ?_,
        rfl, rfl, rfl, rfl, hKind, hStores _ rfl⟩
      exact Block.yields_push _

end Decompiler.Arithmetic
