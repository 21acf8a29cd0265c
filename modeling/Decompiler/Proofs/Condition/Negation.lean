import Decompiler.Proofs.Condition.Truth
import Mathlib.Data.List.Forall2

/-!
Negation and short circuits keep branches. Negating an operand reaches every condition that connectives join in it, and
each of them still sends control where it did. Two conditions joined into one send control where the two in turn did.
-/

namespace Decompiler

variable {σ : Type}

mutual

/-- The conditions that negating an operand negates, each before those that it joins. -/
def Operand.joined : Operand → List Condition
  | ⟨_, _, _, _, _, kind⟩ => OperandKind.joined kind

/-- The conditions within the operand that this is the kind of. -/
def OperandKind.joined : OperandKind → List Condition
  | .condition test => Condition.joined test
  | .zeroOrOne test => Operand.joined test
  | _ => []

/-- A connective joins the conditions on both of its sides. -/
def Condition.joined : Condition → List Condition
  | ⟨left, operator, right, onTrue, onFalse, grouped⟩ =>
    ⟨left, operator, right, onTrue, onFalse, grouped⟩ ::
      if operator.isLogical then Operand.joined left ++ Operand.joined right else []

end

mutual

/-- The operand is made of comparisons and boolean constants by connectives and as values one or zero only. -/
def Operand.isTest : Operand → Bool
  | ⟨_, _, _, _, _, kind⟩ => OperandKind.isTest kind

/-- Conditions, the values of one or zero made of tests, and boolean constants are tests. -/
def OperandKind.isTest : OperandKind → Bool
  | .condition test => Condition.isTest test
  | .zeroOrOne test => Operand.isTest test
  | .boolean _ => true
  | _ => false

/-- A comparison is a test, a connective is one if both of its sides are. -/
def Condition.isTest : Condition → Bool
  | ⟨left, operator, right, _, _, _⟩ => !operator.isLogical || Operand.isTest left && Operand.isTest right

end

/-- The one condition is the other one negated. In every state it sends control to the same node. -/
structure Condition.Negated (decision : Decision σ) (before after : Condition) : Prop where
  operator : after.operator = before.operator.negate
  onTrue : after.onTrue = before.onFalse
  onFalse : after.onFalse = before.onTrue
  sides : before.operator.isLogical = false → after.left = before.left ∧ after.right = before.right
  truth : after.truth decision = notM (before.truth decision)
  select : after.select decision = before.select decision

namespace Condition

variable {decision : Decision σ} {test : Condition}

/-- A connective comes before what it joins. -/
theorem joined_of_isLogical (hLogical : test.operator.isLogical = true) :
    test.joined = test :: (test.left.joined ++ test.right.joined) := by
  cases test
  simp only [joined, hLogical, ↓reduceIte]

/-- A comparison joins nothing. -/
theorem joined_of_comparison (hComparison : test.operator.isLogical = false) : test.joined = [test] := by
  cases test
  simp only [joined, hComparison, Bool.false_eq_true, ↓reduceIte]

/-- Negating a condition negates its truth and exchanges its targets. -/
theorem negated_invert (negates : decision.Negates) (test : Condition) (supply : Supply) :
    Negated decision test (test.invert.run supply).1 := by
  have hTruth := truth_invert negates test supply
  by_cases hLogical : test.operator.isLogical = true
  · rw [run_invert_of_isLogical hLogical] at hTruth ⊢
    exact ⟨rfl, rfl, rfl, fun hComparison => by simp [hLogical] at hComparison, hTruth,
      select_of_exchanged hTruth rfl rfl⟩
  · rw [run_invert_of_comparison (by simpa using hLogical)] at hTruth ⊢
    exact ⟨rfl, rfl, rfl, fun _ => ⟨rfl, rfl⟩, hTruth, select_of_exchanged hTruth rfl rfl⟩

end Condition

namespace Operand

variable {decision : Decision σ} {operand : Operand}

theorem joined_eq (operand : Operand) : operand.joined = operand.kind.joined := by
  cases operand
  rfl

/-- Negation reaches the conditions that are joined, each in its place. -/
theorem negated_joined (negates : decision.Negates) (operand : Operand) (supply : Supply) :
    List.Forall₂ (Condition.Negated decision) operand.joined (operand.invert.run supply).1.joined := by
  induction operand using induction_children generalizing supply with
  | step operand ih =>
      rw [joined_eq, joined_eq (operand.invert.run supply).1]
      rcases run_invert operand supply with
        ⟨test, hKind, hRun⟩ | ⟨test, hKind, hRun⟩ | ⟨value, hKind, hRun⟩ | ⟨hOther, hRun⟩
      · rw [hRun, hKind]
        have hTest := Condition.negated_invert negates test supply
        change List.Forall₂ _ test.joined (test.invert.run supply).1.joined
        by_cases hLogical : test.operator.isLogical = true
        · have hLeft := ih test.left (by simp [children, hKind])
          have hRight := ih test.right (by simp [children, hKind])
          rw [Condition.joined_of_isLogical hLogical, Condition.joined_of_isLogical
            (by rw [hTest.operator, ConditionOperator.isLogical_negate, hLogical])]
          refine .cons hTest ?_
          rw [Condition.run_invert_of_isLogical hLogical]
          exact List.rel_append (hLeft _) (hRight _)
        · rw [Bool.not_eq_true] at hLogical
          rw [Condition.joined_of_comparison hLogical, Condition.joined_of_comparison
            (by rw [hTest.operator, ConditionOperator.isLogical_negate, hLogical])]
          exact .cons hTest .nil
      · rw [hRun, hKind]
        exact ih test (by simp [children, hKind]) supply
      · rw [hRun, hKind]
        exact .nil
      · have hNone : operand.kind.joined = [] := by
          obtain ⟨hCondition, hZeroOrOne, -⟩ := hOther
          cases hKind : operand.kind
          case condition test => exact absurd hKind (hCondition test)
          case zeroOrOne test => exact absurd hKind (hZeroOrOne test)
          all_goals rfl
        rw [hRun, hNone]
        exact .nil

/-! ### Negating twice -/

/-- Negation takes the one to the other and back, and it makes no operand of its own. -/
def Exchanged (before after : Operand) : Prop := before.invert = pure after ∧ after.invert = pure before

/-- By induction on the test. -/
theorem exists_exchanged (hTest : operand.isTest = true) : ∃ after, Exchanged operand after := by
  induction operand using induction_children with
  | step operand ih =>
      obtain ⟨id, type, duplicated, enclosed, statement, kind⟩ := operand
      cases kind
      case condition test =>
        obtain ⟨left, operator, right, onTrue, onFalse, grouped⟩ := test
        by_cases hLogical : operator.isLogical = true
        · have hSides : left.isTest = true ∧ right.isTest = true := by
            simpa [isTest, OperandKind.isTest, Condition.isTest, hLogical] using hTest
          obtain ⟨first, hFirst, hFirstBack⟩ := ih left (by simp [children]) hSides.1
          obtain ⟨second, hSecond, hSecondBack⟩ := ih right (by simp [children]) hSides.2
          refine ⟨⟨id, type, duplicated, enclosed, statement,
            .condition ⟨first, operator.negate, second, onFalse, onTrue, grouped⟩⟩, ?_, ?_⟩
          · simp [invert, Condition.invert, hLogical, hFirst, hSecond]
          · simp [invert, Condition.invert, hLogical, hFirstBack, hSecondBack, ConditionOperator.isLogical_negate,
              ConditionOperator.negate_negate]
        · refine ⟨⟨id, type, duplicated, enclosed, statement,
            .condition ⟨left, operator.negate, right, onFalse, onTrue, grouped⟩⟩, ?_, ?_⟩
          · simp [invert, Condition.invert, hLogical]
          · simp [invert, Condition.invert, hLogical, ConditionOperator.isLogical_negate,
              ConditionOperator.negate_negate]
      case zeroOrOne test =>
        obtain ⟨after, hAfter, hBack⟩ := ih test (by simp [children]) hTest
        refine ⟨⟨id, type, duplicated, enclosed, statement, .zeroOrOne after⟩, ?_, ?_⟩
        · simp [invert, hAfter]
        · simp [invert, hBack]
      case boolean value =>
        refine ⟨⟨id, type, duplicated, enclosed, statement, .boolean !value⟩, ?_, ?_⟩
        · simp [invert]
        · simp [invert]
      all_goals cases hTest

/-- Negating a test twice gives the test back. -/
theorem invert_invert (hTest : operand.isTest = true) : operand.invert >>= invert = pure operand := by
  obtain ⟨after, hAfter, hBack⟩ := exists_exchanged hTest
  rw [hAfter, pure_bind, hBack]

/-- Negating an operand over integer comparisons negates its truth in every state. Every condition that is reached has
its targets exchanged and goes to the same node as before, and a comparison keeps its sides. What is made of comparisons
and boolean constants only comes back when it is negated twice. -/
theorem invert_negates (integer : Operand → StateM σ Int) (value : OperandKind → StateM σ Bool) (operand : Operand)
    (supply : Supply) :
    let decision := Decision.ofIntegers integer value
    let after := (operand.invert.run supply).1
    after.truth decision = notM (operand.truth decision) ∧
      List.Forall₂ (Condition.Negated decision) operand.joined after.joined ∧
      (operand.isTest = true → (operand.invert >>= invert).run supply = (operand, supply)) := by
  have negates := Decision.negates_ofIntegers integer value
  refine ⟨truth_invert negates operand supply, negated_joined negates operand supply, fun hTest => ?_⟩
  rw [invert_invert hTest]
  rfl

end Operand

section Fixed

/-- A local variable holds its own number, and that it is read is recorded. Any other operand is zero. -/
def Operand.recorded (operand : Operand) : StateM (List VariableId) Int :=
  match operand.asLocal? with
  | some id => do
    modify (· ++ [id])
    return id
  | none => return 0

/-- A decision that shows which locals were read, and in which order. -/
def Decision.recording : Decision (List VariableId) := .ofIntegers Operand.recorded fun _ => return false

/-- A local variable is more than zero. -/
def Condition.exceeding (id : VariableId) (onTrue onFalse : Option NodeId) : Condition :=
  let operand : Operand := { id := 0, type := .known .int, kind := .localVariable id false }
  { left := operand, operator := .gt, right := { operand with kind := .null }, onTrue, onFalse, grouped := false }

/-- Two local variables are more than zero. -/
def Condition.bothExceeding : Condition :=
  let side (id : VariableId) : Operand :=
    { id, type := .known .boolean, kind := .condition (exceeding id (some 8) none) }
  { left := side 1, operator := .and, right := side 2, onTrue := some 8, onFalse := none, grouped := true }

theorem Operand.invert_negates_bothExceeding :
    let test : Operand := { id := 3, type := .known .boolean, kind := .condition Condition.bothExceeding }
    let operand : Operand := { id := 4, type := .known .int, kind := .zeroOrOne test }
    operand.isTest = true ∧ (operand.invert >>= invert).run {} = (operand, {}) ∧
      ((operand.invert.run {}).1.truth .recording).run [] = (false, [1, 2]) := by
  intro test operand
  have hTest : operand.isTest = true := by rfl
  obtain ⟨hTruth, -, hTwice⟩ := invert_negates recorded (fun _ => return false) operand {}
  rw [Decision.recording, hTruth]
  exact ⟨hTest, hTwice hTest, rfl⟩

end Fixed

/-! ### Short circuits -/

/-- A condition joins two others, and its targets are those of the second one. -/
structure Condition.Joins (first : Condition) (operator : ConditionOperator) (second after : Condition) : Prop where
  operator : after.operator = operator
  left : after.left.kind = .condition { first with grouped := first.isCompound }
  right : after.right.kind = .condition { second with grouped := second.isCompound }
  onTrue : after.onTrue = second.onTrue
  onFalse : after.onFalse = second.onFalse

namespace Condition

variable {decision : Decision σ} {left right first second after : Condition} {operator : ConditionOperator}

theorem joins_of_shared (hShared : left.onTrue = right.onTrue) (supply : Supply) :
    Joins left .or right ((merge left right).run supply).1 := by
  unfold merge
  rw [if_pos hShared]
  exact ⟨rfl, rfl, rfl, rfl, rfl⟩

theorem joins_of_exit (hExit : left.onTrue ≠ right.onTrue) (supply : Supply) :
    Joins (left.invert.run supply).1 .and right ((merge left right).run supply).1 := by
  unfold merge
  rw [if_neg hExit]
  exact ⟨rfl, rfl, rfl, rfl, rfl⟩

/-- Parentheses do not matter. -/
theorem truth_grouped (test : Condition) (grouped : Bool) :
    ({ test with grouped } : Condition).truth decision = test.truth decision := by
  obtain ⟨left, operator, right, _, _, _⟩ := test
  cases operator <;> rfl

theorem exists_joins (left right : Condition) (supply : Supply) :
    ∃ first operator, Joins first operator right ((merge left right).run supply).1 := by
  by_cases hShared : left.onTrue = right.onTrue
  · exact ⟨_, _, joins_of_shared hShared supply⟩
  · exact ⟨_, _, joins_of_exit hShared supply⟩

theorem Joins.truth (joins : Joins first operator second after) :
    after.left.truth decision = first.truth decision ∧ after.right.truth decision = second.truth decision := by
  rw [Operand.truth_eq, joins.left, Operand.truth_eq, joins.right]
  exact ⟨truth_grouped first _, truth_grouped second _⟩

/-- Two conditions that were joined send control where the left one sends it if it holds, and else where the right one
sends it, which is evaluated only then. -/
theorem select_merge (negates : decision.Negates) (hMerge : canMerge left right = true) (supply : Supply) :
    ((merge left right).run supply).1.select decision =
      (do if ← left.truth decision then return left.onTrue else right.select decision) := by
  by_cases hShared : left.onTrue = right.onTrue
  · have joins := joins_of_shared hShared supply
    obtain ⟨hLeft, hRight⟩ := joins.truth
    rw [select, truth_or joins.operator, hLeft, hRight, orM_bind_ite, joins.onTrue, joins.onFalse, hShared, select]
  · have joins := joins_of_exit hShared supply
    obtain ⟨hLeft, hRight⟩ := joins.truth
    have hExit : left.onTrue = right.onFalse := by
      simpa [canMerge, hShared] using (Bool.and_eq_true_iff.mp hMerge).2
    rw [select, truth_and joins.operator, hLeft, hRight, truth_invert negates, andM_bind_ite, notM_bind_ite,
      joins.onTrue, joins.onFalse, hExit, select]

/-- The left condition holds, so the right one is not evaluated. -/
theorem select_merge_bothExceeding : Decision.recording.Negates ∧
    canMerge bothExceeding (exceeding 3 (some 7) (some 8)) = true ∧
    (((merge bothExceeding (exceeding 3 (some 7) (some 8))).run {}).1.select .recording).run [] =
      (some 8, [1, 2]) := by
  have negates : Decision.recording.Negates := Decision.negates_ofIntegers _ _
  have hMerge : canMerge bothExceeding (exceeding 3 (some 7) (some 8)) = true := by decide
  refine ⟨negates, hMerge, ?_⟩
  rw [select_merge negates hMerge]
  rfl

end Condition

end Decompiler
