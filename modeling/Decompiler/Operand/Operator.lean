/-!
The operators of expressions and conditions.
-/

namespace Decompiler

/-- Binary operators, with the comparisons and connectives that conditions are written with. -/
inductive BinaryOperator where
  | add
  | subtract
  | multiply
  | divide
  | remainder
  | shiftLeft
  | shiftRight
  | unsignedShiftRight
  | bitAnd
  | bitOr
  | bitXor
  | equal
  | notEqual
  | less
  | lessEqual
  | greater
  | greaterEqual
  | conditionalAnd
  | conditionalOr
  deriving DecidableEq

namespace BinaryOperator

def symbol : BinaryOperator → String
  | .add => "+"
  | .subtract => "-"
  | .multiply => "*"
  | .divide => "/"
  | .remainder => "%"
  | .shiftLeft => "<<"
  | .shiftRight => ">>"
  | .unsignedShiftRight => ">>>"
  | .bitAnd => "&"
  | .bitOr => "|"
  | .bitXor => "^"
  | .equal => "=="
  | .notEqual => "!="
  | .less => "<"
  | .lessEqual => "<="
  | .greater => ">"
  | .greaterEqual => ">="
  | .conditionalAnd => "&&"
  | .conditionalOr => "||"

/-- How tightly an operator binds; a higher number binds tighter. -/
def precedence : BinaryOperator → Nat
  | .multiply | .divide | .remainder => 12
  | .add | .subtract => 11
  | .shiftLeft | .shiftRight | .unsignedShiftRight => 10
  | .less | .lessEqual | .greater | .greaterEqual => 9
  | .equal | .notEqual => 8
  | .bitAnd => 7
  | .bitXor => 6
  | .bitOr => 5
  | .conditionalAnd => 4
  | .conditionalOr => 3

def isComparison : BinaryOperator → Bool
  | .equal | .notEqual | .less | .lessEqual | .greater | .greaterEqual => true
  | _ => false

end BinaryOperator

inductive UnaryOperator where
  | negate
  | not
  | bitNot
  | preIncrement
  | preDecrement
  | postIncrement
  | postDecrement
  deriving DecidableEq

namespace UnaryOperator

def symbol : UnaryOperator → String
  | .negate => "-"
  | .not => "!"
  | .bitNot => "~"
  | .preIncrement | .postIncrement => "++"
  | .preDecrement | .postDecrement => "--"

/-- The operator is written after its operand. -/
def followsOperand : UnaryOperator → Bool
  | .postIncrement | .postDecrement => true
  | _ => false

/-- The operator changes its operand by one. -/
def isIncrement : UnaryOperator → Bool
  | .preIncrement | .preDecrement | .postIncrement | .postDecrement => true
  | _ => false

/-- The operator that changes its operand by one upwards or downwards. -/
def ofStep? (delta : Int) (after : Bool) : Option UnaryOperator :=
  match delta, after with
  | 1, true => some .postIncrement
  | 1, false => some .preIncrement
  | -1, true => some .postDecrement
  | -1, false => some .preDecrement
  | _, _ => none

end UnaryOperator

inductive AssignOperator where
  | assign
  | add
  | subtract
  | multiply
  | divide
  | remainder
  | shiftLeft
  | shiftRight
  | unsignedShiftRight
  | bitAnd
  | bitOr
  | bitXor
  deriving DecidableEq

namespace AssignOperator

def symbol : AssignOperator → String
  | .assign => "="
  | .add => "+="
  | .subtract => "-="
  | .multiply => "*="
  | .divide => "/="
  | .remainder => "%="
  | .shiftLeft => "<<="
  | .shiftRight => ">>="
  | .unsignedShiftRight => ">>>="
  | .bitAnd => "&="
  | .bitOr => "|="
  | .bitXor => "^="

/-- The compound assignment of an arithmetic or bitwise operator. -/
def ofBinary? : BinaryOperator → Option AssignOperator
  | .add => some .add
  | .subtract => some .subtract
  | .multiply => some .multiply
  | .divide => some .divide
  | .remainder => some .remainder
  | .shiftLeft => some .shiftLeft
  | .shiftRight => some .shiftRight
  | .unsignedShiftRight => some .unsignedShiftRight
  | .bitAnd => some .bitAnd
  | .bitOr => some .bitOr
  | .bitXor => some .bitXor
  | _ => none

end AssignOperator

/-- The operators of conditions: two connectives and six comparisons. -/
inductive ConditionOperator where
  | and
  | or
  | eq
  | ne
  | gt
  | le
  | lt
  | ge
  deriving DecidableEq

namespace ConditionOperator

/-- The operator of the negated condition. For a connective both sides are to be negated too. -/
def negate : ConditionOperator → ConditionOperator
  | .and => .or
  | .or => .and
  | .eq => .ne
  | .ne => .eq
  | .gt => .le
  | .le => .gt
  | .lt => .ge
  | .ge => .lt

/-- The operator joins two conditions. -/
def isLogical : ConditionOperator → Bool
  | .and | .or => true
  | _ => false

def toBinary : ConditionOperator → BinaryOperator
  | .and => .conditionalAnd
  | .or => .conditionalOr
  | .eq => .equal
  | .ne => .notEqual
  | .gt => .greater
  | .le => .lessEqual
  | .lt => .less
  | .ge => .greaterEqual

def symbol (operator : ConditionOperator) : String := operator.toBinary.symbol

end ConditionOperator

end Decompiler
