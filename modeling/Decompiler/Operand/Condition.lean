import Decompiler.Operand.Basic

/-!
Negating conditions and joining consecutive ones.
-/

namespace Decompiler

mutual

/-- The logical negation of an operand. A condition is negated inside, a boolean constant flips, and any
other operand gets a negation around it. -/
def Operand.invert : Operand → SupplyM Operand
  | ⟨id, type, duplicated, enclosed, statement, .condition test⟩ => do
    return ⟨id, type, duplicated, enclosed, statement, .condition (← Condition.invert test)⟩
  | ⟨id, type, duplicated, enclosed, statement, .zeroOrOne test⟩ => do
    return ⟨id, type, duplicated, enclosed, statement, .zeroOrOne (← Operand.invert test)⟩
  | ⟨id, type, duplicated, enclosed, statement, .boolean value⟩ =>
    return ⟨id, type, duplicated, enclosed, statement, .boolean (!value)⟩
  | operand => Operand.typed (.unary .not operand.enclose) .boolean

/-- The logical negation of a condition. The sides of a connective are negated too, and the two targets
change places, so that they still name where control goes. -/
def Condition.invert : Condition → SupplyM Condition
  | ⟨left, operator, right, onTrue, onFalse, grouped⟩ => do
    if operator.isLogical then
      let left ← Operand.invert left
      let right ← Operand.invert right
      return ⟨left, operator.negate, right, onFalse, onTrue, grouped⟩
    else
      return ⟨left, operator.negate, right, onFalse, onTrue, grouped⟩

end

namespace Condition

/-- A comparison that jumps to a node. The types of its sides are bound to each other. -/
def compare (left : Operand) (operator : ConditionOperator) (right : Operand) (target : NodeId) :
    SupplyM Condition := do
  modify fun supply => { supply with types := supply.types.bindMutually left.type right.type }
  return { left, operator, right, onTrue := some target, onFalse := none, grouped := false }

/-- The condition joins two conditions. -/
def isCompound (test : Condition) : Bool := test.operator.isLogical

/-- Two conditions, `left` evaluated first, can become one: `left` jumps where `right` goes. -/
def canMerge (left right : Condition) : Bool :=
  left.onTrue.isSome && (left.onTrue == right.onTrue || left.onTrue == right.onFalse)

/-- Joins two consecutive conditions. If both jump to one target the result is a disjunction; otherwise
`left` jumps where `right` fails, and the result is the conjunction with `left` negated. -/
def merge (left right : Condition) : SupplyM Condition := do
  let (left, operator) ←
    if left.onTrue = right.onTrue then pure (left, ConditionOperator.or)
    else pure (← left.invert, ConditionOperator.and)
  let leftOperand ← Operand.ofCondition { left with grouped := left.isCompound }
  let rightOperand ← Operand.ofCondition { right with grouped := right.isCompound }
  return { left := leftOperand, operator, right := rightOperand, onTrue := right.onTrue
           onFalse := right.onFalse, grouped := true }

/-- Drops the outer parentheses of a condition that becomes the condition of a statement. -/
def disclose (test : Condition) : Condition := { test with grouped := false }

/-- Replaces a target of this one condition. -/
def replaceTarget (old : NodeId) (new : Option NodeId) (test : Condition) : Condition :=
  { test with
    onTrue := if test.onTrue = some old then new else test.onTrue
    onFalse := if test.onFalse = some old then new else test.onFalse }

end Condition

mutual

/-- Replaces a target in a condition operand and in the conditions it joins. -/
def Operand.retarget (old : NodeId) (new : Option NodeId) : Operand → Operand
  | ⟨id, type, duplicated, enclosed, statement, .condition test⟩ =>
    ⟨id, type, duplicated, enclosed, statement, .condition (Condition.retarget old new test)⟩
  | operand => operand

/-- Replaces a target in a condition and in the conditions it joins. -/
def Condition.retarget (old : NodeId) (new : Option NodeId) : Condition → Condition
  | ⟨left, operator, right, onTrue, onFalse, grouped⟩ =>
    { left := Operand.retarget old new left
      operator
      right := Operand.retarget old new right
      onTrue := if onTrue = some old then new else onTrue
      onFalse := if onFalse = some old then new else onFalse
      grouped }

end

mutual

/-- A condition operand, or a condition it joins, names the node as a target. -/
def Operand.targets (node : NodeId) : Operand → Bool
  | ⟨_, _, _, _, _, .condition test⟩ => Condition.targets node test
  | _ => false

def Condition.targets (node : NodeId) : Condition → Bool
  | ⟨left, _, right, onTrue, onFalse, _⟩ =>
    onTrue == some node || onFalse == some node || Operand.targets node left ||
      Operand.targets node right

end

end Decompiler
