import Decompiler.Proofs.Operand.Targets

/-!
What a condition means, and what negating it does to its meaning. Comparisons and other boolean values are decided in
a state, which their evaluation may change. A connective evaluates its right side only if the left one leaves the result
open.
-/

namespace Decompiler

variable {σ : Type}

/-- How the operands at the leaves of a condition are decided. -/
structure Decision (σ : Type) where
  compare : Operand → ConditionOperator → Operand → StateM σ Bool
  value : OperandKind → StateM σ Bool

mutual

/-- Whether an operand is true. Parentheses and types do not matter. -/
def Operand.truth (decision : Decision σ) : Operand → StateM σ Bool
  | ⟨_, _, _, _, _, kind⟩ => OperandKind.truth decision kind

/-- The truth of the operand that this is the kind of. -/
def OperandKind.truth (decision : Decision σ) : OperandKind → StateM σ Bool
  | .condition test => Condition.truth decision test
  | .zeroOrOne test => Operand.truth decision test
  | .boolean value => return value
  | .unary .not value => notM (Operand.truth decision value)
  | kind => decision.value kind

/-- The right side of a connective is evaluated only if the left one leaves it open. -/
def Condition.truth (decision : Decision σ) : Condition → StateM σ Bool
  | ⟨left, .and, right, _, _, _⟩ => Operand.truth decision left <&&> Operand.truth decision right
  | ⟨left, .or, right, _, _, _⟩ => Operand.truth decision left <||> Operand.truth decision right
  | ⟨left, operator, right, _, _, _⟩ => decision.compare left operator right

end

/-- The node that control goes to on a condition. -/
def Condition.select (decision : Decision σ) (test : Condition) : StateM σ (Option NodeId) := do
  if ← test.truth decision then return test.onTrue else return test.onFalse

/-- A comparison with the negated operator has the negated result, and it leaves the same state. -/
def Decision.Negates (decision : Decision σ) : Prop :=
  ∀ left operator right, operator.isLogical = false →
    decision.compare left operator.negate right = notM (decision.compare left operator right)

/-! ### Operators -/

namespace ConditionOperator

variable {operator : ConditionOperator}

theorem eq_and_or_of_isLogical (hLogical : operator.isLogical = true) : operator = .and ∨ operator = .or := by
  cases operator <;> simp_all [isLogical]

/-- Negating an operator twice gives it back. -/
theorem negate_negate (operator : ConditionOperator) : operator.negate.negate = operator := by
  cases operator <;> rfl

theorem isLogical_negate (operator : ConditionOperator) : operator.negate.isLogical = operator.isLogical := by
  cases operator <;> rfl

/-- The comparison of two integers. A connective compares nothing. -/
def holds : ConditionOperator → Int → Int → Bool
  | .eq, a, b => a = b
  | .ne, a, b => a ≠ b
  | .gt, a, b => a > b
  | .le, a, b => a ≤ b
  | .lt, a, b => a < b
  | .ge, a, b => a ≥ b
  | .and, _, _ | .or, _, _ => false

/-- The negated comparison holds where the comparison fails. -/
theorem holds_negate (hComparison : operator.isLogical = false) (a b : Int) :
    operator.negate.holds a b = !operator.holds a b := by
  cases operator <;> grind [isLogical, negate, holds]

end ConditionOperator

/-- Comparisons of integers, the left side evaluated first. -/
def Decision.ofIntegers (integer : Operand → StateM σ Int) (value : OperandKind → StateM σ Bool) : Decision σ where
  compare left operator right := do return operator.holds (← integer left) (← integer right)
  value

/-- Integers are evaluated the same way for an operator and its negation. -/
theorem Decision.negates_ofIntegers (integer : Operand → StateM σ Int) (value : OperandKind → StateM σ Bool) :
    (ofIntegers integer value).Negates := by
  intro left operator right hComparison
  simp only [ofIntegers, notM, map_bind, map_pure, ConditionOperator.holds_negate hComparison]

section

variable (first second : StateM σ Bool)

/-- Negation goes into both sides of a connective, which keeps its short circuit. -/
theorem notM_andM : notM (first <&&> second) = (notM first <||> notM second) := by
  simp only [notM, andM, orM, map_bind, bind_map_left]
  congr
  funext holds
  cases holds <;> rfl

theorem notM_orM : notM (first <||> second) = (notM first <&&> notM second) := by
  simp only [notM, andM, orM, map_bind, bind_map_left]
  congr
  funext holds
  cases holds <;> rfl

/-- A choice on the negated test, with the ways exchanged. -/
theorem notM_bind_ite {α : Type} (onTrue onFalse : StateM σ α) :
    (do if ← notM first then onFalse else onTrue) = (do if ← first then onTrue else onFalse) := by
  simp only [notM, bind_map_left]
  congr
  funext holds
  cases holds <;> simp

/-- A choice on a disjunction is a choice on its sides in turn. -/
theorem orM_bind_ite {α : Type} (onTrue onFalse : StateM σ α) :
    (do if ← first <||> second then onTrue else onFalse) =
      (do if ← first then onTrue else if ← second then onTrue else onFalse) := by
  simp only [orM, bind_assoc]
  congr
  funext holds
  cases holds <;> rfl

/-- A choice on a conjunction is a choice on its sides in turn. -/
theorem andM_bind_ite {α : Type} (onTrue onFalse : StateM σ α) :
    (do if ← first <&&> second then onTrue else onFalse) =
      (do if ← first then if ← second then onTrue else onFalse else onFalse) := by
  simp only [andM, bind_assoc]
  congr
  funext holds
  cases holds <;> rfl

end

/-! ### Negation -/

namespace Condition

variable {decision : Decision σ} {test : Condition}

theorem truth_and (hOperator : test.operator = .and) :
    test.truth decision = (test.left.truth decision <&&> test.right.truth decision) := by
  cases test
  cases hOperator
  rfl

theorem truth_or (hOperator : test.operator = .or) :
    test.truth decision = (test.left.truth decision <||> test.right.truth decision) := by
  cases test
  cases hOperator
  rfl

/-- A comparison is decided in the state. -/
theorem truth_of_comparison (hComparison : test.operator.isLogical = false) :
    test.truth decision = decision.compare test.left test.operator test.right := by
  obtain ⟨left, operator, right, _, _, _⟩ := test
  cases operator <;> first | rfl | cases hComparison

/-- The sides of a connective are negated too. -/
theorem run_invert_of_isLogical (hLogical : test.operator.isLogical = true) (supply : Supply) :
    test.invert.run supply =
      ({ test with
          left := (test.left.invert.run supply).1
          operator := test.operator.negate
          right := (test.right.invert.run (test.left.invert.run supply).2).1
          onTrue := test.onFalse
          onFalse := test.onTrue },
        (test.right.invert.run (test.left.invert.run supply).2).2) := by
  cases test
  simp only [invert, hLogical, ↓reduceIte]
  rfl

/-- The sides of a comparison are left alone. -/
theorem run_invert_of_comparison (hComparison : test.operator.isLogical = false) (supply : Supply) :
    test.invert.run supply =
      ({ test with operator := test.operator.negate, onTrue := test.onFalse, onFalse := test.onTrue }, supply) := by
  cases test
  simp only [invert, hComparison, Bool.false_eq_true, ↓reduceIte]
  rfl

/-- If negation does to the sides what it should, it does so to the condition. -/
theorem truth_invert_of_sides (negates : decision.Negates) (supply : Supply)
    (hLeft : ∀ supply, (test.left.invert.run supply).1.truth decision = notM (test.left.truth decision))
    (hRight : ∀ supply, (test.right.invert.run supply).1.truth decision = notM (test.right.truth decision)) :
    (test.invert.run supply).1.truth decision = notM (test.truth decision) := by
  by_cases hLogical : test.operator.isLogical = true
  · rw [run_invert_of_isLogical hLogical]
    rcases ConditionOperator.eq_and_or_of_isLogical hLogical with hAnd | hOr
    · rw [truth_or (by simp only [hAnd, ConditionOperator.negate]), truth_and hAnd, notM_andM, hLeft, hRight]
    · rw [truth_and (by simp only [hOr, ConditionOperator.negate]), truth_or hOr, notM_orM, hLeft, hRight]
  · rw [Bool.not_eq_true] at hLogical
    rw [run_invert_of_comparison hLogical, truth_of_comparison hLogical, ← negates _ _ _ hLogical,
      truth_of_comparison (by rw [ConditionOperator.isLogical_negate, hLogical])]

end Condition

namespace Operand

variable {decision : Decision σ}

theorem truth_eq (decision : Decision σ) (operand : Operand) :
    operand.truth decision = operand.kind.truth decision := by
  cases operand
  rfl

/-- What negating an operand does to it. -/
theorem run_invert (operand : Operand) (supply : Supply) :
    (∃ test, operand.kind = .condition test ∧ operand.invert.run supply =
      ({ operand with kind := .condition (test.invert.run supply).1 }, (test.invert.run supply).2)) ∨
    (∃ test, operand.kind = .zeroOrOne test ∧ operand.invert.run supply =
      ({ operand with kind := .zeroOrOne (test.invert.run supply).1 }, (test.invert.run supply).2)) ∨
    (∃ value, operand.kind = .boolean value ∧ operand.invert.run supply =
      ({ operand with kind := .boolean !value }, supply)) ∨
    (((∀ test, operand.kind ≠ .condition test) ∧ (∀ test, operand.kind ≠ .zeroOrOne test) ∧
        ∀ value, operand.kind ≠ .boolean value) ∧
      operand.invert.run supply = (typed (.unary .not operand.enclose) .boolean).run supply) := by
  obtain ⟨id, type, duplicated, enclosed, statement, kind⟩ := operand
  cases kind
  case condition test => exact .inl ⟨test, rfl, rfl⟩
  case zeroOrOne test => exact .inr (.inl ⟨test, rfl, rfl⟩)
  case boolean value => exact .inr (.inr (.inl ⟨value, rfl, rfl⟩))
  all_goals exact .inr (.inr (.inr ⟨⟨nofun, nofun, nofun⟩, rfl⟩))

/-- Negating an operand negates its truth, with the same effect on the state. -/
theorem truth_invert (negates : decision.Negates) (operand : Operand) (supply : Supply) :
    (operand.invert.run supply).1.truth decision = notM (operand.truth decision) := by
  induction operand using induction_children generalizing supply with
  | step operand ih =>
      rw [truth_eq, truth_eq decision operand]
      rcases run_invert operand supply with ⟨test, hKind, hRun⟩ | ⟨test, hKind, hRun⟩ | ⟨value, hKind, hRun⟩ | ⟨-, hRun⟩
      · rw [hRun, hKind]
        exact Condition.truth_invert_of_sides negates supply (fun _ => ih _ (by simp [children, hKind]) _)
          fun _ => ih _ (by simp [children, hKind]) _
      · rw [hRun, hKind]
        exact ih test (by simp [children, hKind]) supply
      · rw [hRun, hKind]
        exact (map_pure not value).symm
      · rw [hRun, ← truth_eq decision operand]
        exact congrArg notM ((truth_eq decision operand.enclose).trans (truth_eq decision operand).symm)

end Operand

namespace Condition

variable {decision : Decision σ}

/-- Negating a condition negates its truth, as for the operand that holds it. -/
theorem truth_invert (negates : decision.Negates) (test : Condition) (supply : Supply) :
    (test.invert.run supply).1.truth decision = notM (test.truth decision) :=
  truth_invert_of_sides negates supply (Operand.truth_invert negates _) (Operand.truth_invert negates _)

/-- A condition and its negation with the targets exchanged send control to the same node. -/
theorem select_of_exchanged {before after : Condition} (hTruth : after.truth decision = notM (before.truth decision))
    (hTrue : after.onTrue = before.onFalse) (hFalse : after.onFalse = before.onTrue) :
    after.select decision = before.select decision := by
  rw [select, select, hTruth, hTrue, hFalse]
  exact notM_bind_ite _ _ _

end Condition

end Decompiler
