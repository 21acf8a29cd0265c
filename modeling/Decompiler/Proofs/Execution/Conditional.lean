import Decompiler.Execution.Idiom
import Decompiler.Proofs.Condition.Truth
import Decompiler.Proofs.Types.Binding

/-!
The meaning of conditional expressions. The value of one is the second value if its test holds, and the first one
otherwise. Two values of one type make an expression of this type; but one and zero, whatever numbers they are, become
ints.
-/

namespace Decompiler

variable {σ α : Type}

/-- How operands that are no conditional expressions are evaluated. -/
structure Valuation (σ α : Type) where
  decision : Decision σ
  number : Number → α
  other : OperandKind → StateM σ α

mutual

/-- The value of an operand. Only the value that is chosen is evaluated. -/
def Operand.value (valuation : Valuation σ α) : Operand → StateM σ α
  | ⟨_, _, _, _, _, kind⟩ => OperandKind.value valuation kind

def OperandKind.value (valuation : Valuation σ α) : OperandKind → StateM σ α
  | .number number => return valuation.number number
  | .zeroOrOne test => return valuation.number (.int (if ← test.truth valuation.decision then 1 else 0))
  | .ternary test onTrue onFalse => do
    if ← test.truth valuation.decision then Operand.value valuation onTrue else Operand.value valuation onFalse
  | kind => valuation.other kind

end

/-- If the operand is the constant zero or one, its value is that of the int constant. An int always is. -/
def Valuation.ReadsBit (valuation : Valuation σ α) (operand : Operand) : Prop :=
  ∀ number value, operand.kind = .number number → number.integer? = some value → value = 0 ∨ value = 1 →
    valuation.number number = valuation.number (.int (.ofInt value))

variable {valuation : Valuation σ α} {test first second operand : Operand}

namespace Operand

theorem value_eq (valuation : Valuation σ α) (operand : Operand) :
    operand.value valuation = operand.kind.value valuation := by
  cases operand
  rw [value]

theorem value_of_isConstant (reads : valuation.ReadsBit operand) {value : Int} (hBit : value = 0 ∨ value = 1)
    (hConstant : operand.isConstant value = true) :
    operand.value valuation = pure (valuation.number (.int (.ofInt value))) := by
  rw [value_eq]
  cases hKind : operand.kind with
  | number number =>
      simp only [isConstant, hKind, beq_iff_eq] at hConstant
      rw [OperandKind.value, reads number value hKind hConstant hBit]
  | _ => simp [isConstant, hKind] at hConstant

/-- Negating an operand teaches nothing about types. -/
theorem types_invert (operand : Operand) (supply : Supply) :
    (operand.invert.run supply).2.types = supply.types := by
  induction operand using induction_children generalizing supply with
  | step operand ih =>
      have hTest (test : Condition) (hKind : operand.kind = .condition test) :
          (test.invert.run supply).2.types = supply.types := by
        by_cases hLogical : test.operator.isLogical = true
        · rw [Condition.run_invert_of_isLogical hLogical]
          exact (ih test.right (by simp [children, hKind]) _).trans (ih test.left (by simp [children, hKind]) _)
        · rw [Condition.run_invert_of_comparison (Bool.eq_false_iff.mpr hLogical)]
      rcases run_invert operand supply with ⟨test, hKind, hRun⟩ | ⟨test, hKind, hRun⟩ | ⟨_, -, hRun⟩ | ⟨-, hRun⟩
      · rw [hRun]
        exact hTest test hKind
      · rw [hRun]
        exact ih test (by simp [children, hKind]) supply
      · rw [hRun]
      · rw [hRun]
        rfl

end Operand

namespace Execution

/-- One and zero are the values, in whichever order. -/
def choosesBit (first second : Operand) : Bool :=
  second.isConstant 1 && first.isConstant 0 || second.isConstant 0 && first.isConstant 1

/-- The three forms of a conditional expression. -/
theorem run_conditional (test first second : Operand) (supply : Supply) :
    (second.isConstant 1 = true ∧ first.isConstant 0 = true ∧
      (conditional test first second).run supply = (Operand.guessed (.zeroOrOne test) .int).run supply) ∨
    (second.isConstant 0 = true ∧ first.isConstant 1 = true ∧ (conditional test first second).run supply =
      (Operand.guessed (.zeroOrOne (test.invert.run supply).1) .int).run (test.invert.run supply).2) ∨
    (choosesBit first second = false ∧ ∃ negated later,
      test.invert.run { supply with types := supply.types.bindMutually first.type second.type } = (negated, later) ∧
      (conditional test first second).run supply =
        ({ id := later.nextId, type := first.type, enclosed := true, kind := .ternary negated first second },
          { later with nextId := later.nextId + 1 })) := by
  rw [conditional, choosesBit]
  by_cases hOne : (second.isConstant 1 && first.isConstant 0) = true
  · rw [if_pos hOne]
    exact .inl ⟨(Bool.and_eq_true_iff.mp hOne).1, (Bool.and_eq_true_iff.mp hOne).2, rfl⟩
  · rw [if_neg hOne]
    by_cases hZero : (second.isConstant 0 && first.isConstant 1) = true
    · rw [if_pos hZero]
      exact .inr (.inl ⟨(Bool.and_eq_true_iff.mp hZero).1, (Bool.and_eq_true_iff.mp hZero).2, rfl⟩)
    · rw [if_neg hZero]
      exact .inr (.inr ⟨by simp [hOne, hZero], _, _, rfl, rfl⟩)

/-- A conditional expression evaluates its test and then one value: the second one if the test holds. Zero and one are
taken for ints. -/
theorem value_conditional (negates : valuation.decision.Negates) (hFirst : valuation.ReadsBit first)
    (hSecond : valuation.ReadsBit second) (test : Operand) (supply : Supply) :
    ((conditional test first second).run supply).1.value valuation =
      (do if ← test.truth valuation.decision then second.value valuation else first.value valuation) := by
  rcases run_conditional test first second supply with
    ⟨hOne, hZero, hRun⟩ | ⟨hZero, hOne, hRun⟩ | ⟨-, negated, later, hInvert, hRun⟩
  · rw [hRun, Operand.value_of_isConstant hFirst (.inl rfl) hZero, Operand.value_of_isConstant hSecond (.inr rfl) hOne,
      Operand.value_eq]
    change OperandKind.value valuation (.zeroOrOne test) = _
    rw [OperandKind.value]
    congr
    funext holds
    cases holds <;> rfl
  · rw [hRun, Operand.value_of_isConstant hFirst (.inr rfl) hOne, Operand.value_of_isConstant hSecond (.inl rfl) hZero,
      Operand.value_eq]
    change OperandKind.value valuation (.zeroOrOne (test.invert.run supply).1) = _
    rw [OperandKind.value, Operand.truth_invert negates, ← notM_bind_ite]
    congr
    funext holds
    cases holds <;> rfl
  · obtain rfl : (test.invert.run _).1 = negated := congrArg Prod.fst hInvert
    rw [hRun, Operand.value_eq]
    change OperandKind.value valuation (.ternary _ first second) = _
    rw [OperandKind.value, Operand.truth_invert negates, notM_bind_ite]

theorem typeOf_guessed (kind : OperandKind) (type : JvmType) (supply : Supply) :
    ((Operand.guessed kind type).run supply).2.types.typeOf ((Operand.guessed kind type).run supply).1.type = type := by
  change (supply.types.add type false).2.typeOf (.cell supply.types.cells.size) = type
  simp [TypeCells.typeOf, TypeCells.add, TypeCells.cell?]

/-- If both values have one type, the expression has it too, unless they are one and zero. -/
theorem typeOf_conditional {supply : Supply}
    (hAgree : supply.types.typeOf first.type = supply.types.typeOf second.type) (test : Operand) :
    ((conditional test first second).run supply).2.types.typeOf ((conditional test first second).run supply).1.type =
      if choosesBit first second then .int else supply.types.typeOf first.type := by
  rcases run_conditional test first second supply with
    ⟨hOne, hZero, hRun⟩ | ⟨hZero, hOne, hRun⟩ | ⟨hOther, negated, later, hInvert, hRun⟩
  · rw [hRun, typeOf_guessed, if_pos (by simp [choosesBit, hOne, hZero])]
  · rw [hRun, typeOf_guessed, if_pos (by simp [choosesBit, hOne, hZero])]
  · have hTypes : later.types = supply.types.bindMutually first.type second.type := by
      obtain rfl : (test.invert.run _).2 = later := congrArg Prod.snd hInvert
      exact Operand.types_invert test _
    rw [hRun, if_neg (by simp [hOther])]
    change later.types.typeOf first.type = _
    rw [hTypes, TypeCells.typeOf_bindMutually_agree hAgree]

/-- One and zero that are longs become an int. -/
example :
    let long (value : Int64) : Operand := { id := 0, type := .known .long, kind := .number (.long value) }
    let (joined, later) := (conditional default (long 0) (long 1)).run {}
    later.types.typeOf joined.type = .int := by
  rfl

end Execution

end Decompiler
