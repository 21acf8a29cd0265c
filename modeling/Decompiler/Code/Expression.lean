import Decompiler.Code.Basic
import Decompiler.Local.Table
import Decompiler.Operand.Coercion
import Decompiler.Operand.Condition

/-!
Operands as code. Parentheses are put where an operand binds looser than its place asks for, and
comparisons of booleans with constants are written as the boolean or its negation.
-/

namespace Decompiler.Code

/-- What operands are written with: the types and names known in the unit, and the code of the switch
expression at a head. -/
structure Scope where
  types : TypeCells
  locals : LocalVariables
  switchValue : NodeId → Code

namespace Scope

def isBoolean (scope : Scope) (type : TypeRef) : Bool := scope.types.typeOf type == .boolean

/-- The truth value of a constant that a boolean is compared with. -/
def truth? (operand : Operand) : Option Bool :=
  match operand.kind with
  | .boolean value => some value
  | .number _ =>
    if operand.isConstant 0 then some false else if operand.isConstant 1 then some true else none
  | _ => none

/-- A comparison of a boolean with a constant is the boolean itself, or its negation; no other condition is
either. -/
def booleanTest? (scope : Scope) (test : Condition) : Option Bool :=
  if test.isCompound || !scope.isBoolean test.left.type then none
  else match truth? test.right, test.operator with
    | some truth, .eq => some truth
    | some truth, .ne => some (!truth)
    | _, _ => none

end Scope

mutual

/-- How tightly an operand binds as it is written. -/
def strength (scope : Scope) : Operand → Nat
  | ⟨_, type, _, _, _, kind⟩ => strengthOfKind scope (scope.isBoolean type) kind

def strengthOfKind (scope : Scope) (boolean : Bool) : OperandKind → Nat
  | .assign .. | .lambda .. => 1
  | .ternary .. => 2
  | .zeroOrOne test => if boolean then strength scope test else 2
  | .condition test => strengthOfTest scope test
  | .binary _ operator _ => operator.precedence
  | .instanceOf .. => 9
  | .cast .. => 13
  | .unary operator _ => if operator.followsOperand then 15 else 14
  | .number (.int value) => if value < 0 then 14 else 16
  | .number (.long value) => if value < 0 then 14 else 16
  | _ => 16

def strengthOfTest (scope : Scope) : Condition → Nat
  | ⟨left, operator, right, onTrue, onFalse, grouped⟩ =>
    match scope.booleanTest? ⟨left, operator, right, onTrue, onFalse, grouped⟩ with
    | some true => strength scope left
    | some false => 14
    | none => operator.toBinary.precedence

end

/-- The code of an int constant. As a boolean or a character it is written as one, if it is the number of
one. -/
def intConstant (type : JvmType) (value : Int32) : Code :=
  match type with
  | .boolean => .boolean (value != 0)
  | .char =>
    match charOfCode? value with
    | some c => .character c
    | none => .number (.int value)
  | _ => .number (.int value)

mutual

/-- The code of an operand in a place that asks for a strength. -/
def ofOperand (scope : Scope) (minimum : Nat) : Operand → Code
  | ⟨id, type, duplicated, inParentheses, isStatement, kind⟩ =>
    let strength := strength scope ⟨id, type, duplicated, inParentheses, isStatement, kind⟩
    let code := ofKind scope (scope.types.typeOf type) kind
    if strength < minimum || (inParentheses && strength < 15) then .enclosed code else code

def ofKind (scope : Scope) (type : JvmType) : OperandKind → Code
  | .number (.int value) => intConstant type value
  | .number value => .number value
  | .character value => .character value
  | .string value => .string value
  | .boolean value => .boolean value
  | .null => .null
  | .this => .this
  | .classLiteral named => .classLiteral named
  | .binary left operator right =>
    .binary (ofOperand scope operator.precedence left) operator.symbol
      (ofOperand scope (operator.precedence + 1) right)
  | .unary operator value =>
    .unary operator.symbol operator.followsOperand
      (ofOperand scope (if operator.followsOperand then 15 else 14) value)
  | .assign target operator value =>
    .assign (ofOperand scope 16 target) operator.symbol (ofOperand scope 1 value)
  | .condition test => ofTest scope test
  | .call owner name _ receiver arguments special =>
    .call (ofOption scope 16 receiver) owner name special (ofList scope arguments)
  | .construct owner _ kind arguments => .construct kind owner (ofList scope arguments)
  | .uninitialized owner => .construct .new owner []
  | .field owner name receiver => .field (ofOption scope 16 receiver) owner name
  | .element array index => .element (ofOperand scope 16 array) (ofOperand scope 0 index)
  | .length array => .length (ofOperand scope 16 array)
  | .newArray named dimensions initializers =>
    .newArray named (ofList scope dimensions) (ofInitializers scope initializers)
  | .cast named value => .cast named (ofOperand scope 14 value)
  | .instanceOf value named => .instanceOf (ofOperand scope 10 value) named
  | .ternary test onTrue onFalse =>
    .ternary (ofOperand scope 3 test) (ofOperand scope 3 onTrue) (ofOperand scope 2 onFalse)
  | .zeroOrOne test =>
    if type = .boolean then ofOperand scope 0 test
    else .ternary (ofOperand scope 3 test) (.number (.int 1)) (.number (.int 0))
  | .switch head => scope.switchValue head
  | .lambda owner name _ interface captures => .lambda interface owner name (ofList scope captures)
  | .methodReference owner name receiver => .methodReference (ofOption scope 16 receiver) owner name
  | .localVariable id declares => localCode scope id declares
  | .declaration id => localCode scope id true
  | .returns value => .returns (ofOption scope 0 value)
  | .throws value => .throws (ofOperand scope 0 value)
  | .yields value => .yields (ofOperand scope 0 value)
  | .asserts test message => .asserts (ofOperand scope 0 test) (ofOption scope 0 message)

def ofTest (scope : Scope) : Condition → Code
  | ⟨left, operator, right, onTrue, onFalse, grouped⟩ =>
    match scope.booleanTest? ⟨left, operator, right, onTrue, onFalse, grouped⟩ with
    | some true => ofOperand scope 0 left
    | some false => .unary UnaryOperator.not.symbol false (ofOperand scope 14 left)
    | none =>
      let strength := operator.toBinary.precedence
      .binary (ofOperand scope strength left) operator.symbol (ofOperand scope (strength + 1) right)

def ofOption (scope : Scope) (minimum : Nat) : Option Operand → Option Code
  | some operand => some (ofOperand scope minimum operand)
  | none => none

def ofList (scope : Scope) : List Operand → List Code
  | operand :: rest => ofOperand scope 0 operand :: ofList scope rest
  | [] => []

def ofInitializers (scope : Scope) : Option (List Operand) → Option (List Code)
  | some values => some (ofList scope values)
  | none => none

/-- The code of a local, or of its declaration. -/
def localCode (scope : Scope) (id : VariableId) (declares : Bool) : Code :=
  let entry := scope.locals.get id
  .localVariable (scope.types.typeOf entry.type) entry.name declares

end

/-- The code of an operand as a statement. What transfers control is a statement already. -/
def ofStatement (scope : Scope) (operand : Operand) : Code :=
  match operand.kind with
  | .returns _ | .throws _ | .yields _ | .asserts .. =>
    ofKind scope (scope.types.typeOf operand.type) operand.kind
  | _ => .statement (ofOperand scope 0 operand)

end Decompiler.Code
