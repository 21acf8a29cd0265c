import Decompiler.Decimal.Notation
import Decompiler.Operand.Operator
import Decompiler.TypeCell

/-!
Operands: the expressions and statements that symbolic execution leaves on the stacks of the nodes. An
operand has an identity, which copies share, and a type that may still be learned.
-/

namespace Decompiler

/-- The identity of an operand. Copies of a duplicated stack entry share it. -/
abbrev OperandId := Nat

/-- The place of a node in its graph's arena. -/
abbrev NodeId := Nat

/-- The place of a variable in its unit's table. -/
abbrev VariableId := Nat

/-- A numeric constant. -/
inductive Number where
  | int (value : Int32)
  | long (value : Int64)
  | float (value : Float32)
  | double (value : Float)

namespace Number

def type : Number → JvmType
  | .int _ => .int
  | .long _ => .long
  | .float _ => .float
  | .double _ => .double

/-- The value of a constant without fraction; a magnitude beyond 64 bits counts as the nearest bound. -/
def integer? : Number → Option Int
  | .int value => some value.toInt
  | .long value => some value.toInt
  | .float value => if value.isFinite && value.floor == value then some value.toInt64.toInt else none
  | .double value => if value.isFinite && value.floor == value then some value.toInt64.toInt else none

/-- Equality of constants of one width; for floating-point constants the equality of the number format,
so that NaN differs from itself. -/
def same : Number → Number → Bool
  | .int a, .int b => a == b
  | .long a, .long b => a == b
  | .float a, .float b => a == b
  | .double a, .double b => a == b
  | _, _ => false

def text : Number → String
  | .int value => toString value.toInt
  | .long value => toString value.toInt ++ "L"
  | .float value => Decimal.textOfFloat32 value ++ "F"
  | .double value => Decimal.textOfFloat value ++ "D"

end Number

/-- The three ways to call a constructor. -/
inductive ConstructorKind where
  | new
  | super
  | this
  deriving DecidableEq

mutual

/-- An expression or statement. -/
structure Operand where
  id : OperandId
  type : TypeRef
  /-- A second copy of the value is still on the stack. -/
  duplicated : Bool := false
  /-- Written in parentheses. -/
  enclosed : Bool := false
  /-- Kept on the stack as a statement, no pending value. -/
  statement : Bool := false
  kind : OperandKind

inductive OperandKind where
  | number (value : Number)
  | character (value : Char)
  | string (value : String)
  | boolean (value : Bool)
  | null
  | this
  | classLiteral (type : JvmType)
  | binary (left : Operand) (operator : BinaryOperator) (right : Operand)
  | unary (operator : UnaryOperator) (value : Operand)
  | assign (target : Operand) (operator : AssignOperator) (value : Operand)
  | condition (test : Condition)
  /-- A call; a static one has no receiver, and `special` marks a call of the superclass method. -/
  | call (owner name descriptor : String) (receiver : Option Operand) (arguments : List Operand)
      (special : Bool)
  | construct (owner descriptor : String) (kind : ConstructorKind) (arguments : List Operand)
  /-- A new object before its constructor runs. -/
  | uninitialized (owner : String)
  /-- A field; a static one has no receiver. -/
  | field (owner name : String) (receiver : Option Operand)
  | element (array index : Operand)
  | length (array : Operand)
  | newArray (element : JvmType) (dimensions : List Operand) (initializers : Option (List Operand))
  | cast (type : JvmType) (value : Operand)
  | instanceOf (value : Operand) (type : JvmType)
  | ternary (test onTrue onFalse : Operand)
  /-- A condition as the value one or zero; a boolean where a boolean is wanted. -/
  | zeroOrOne (test : Operand)
  /-- The value of the switch whose head is the given node. -/
  | switch (head : NodeId)
  | lambda (owner name descriptor interface : String) (captures : List Operand)
  | methodReference (owner name : String) (receiver : Option Operand)
  /-- A local variable; `declares` marks the occurrence that declares it. -/
  | localVariable (id : VariableId) (declares : Bool)
  | declaration (id : VariableId)
  | returns (value : Option Operand)
  | throws (value : Operand)
  | yields (value : Operand)
  | asserts (test : Operand) (message : Option Operand)

/-- A branch condition with the nodes reached when it holds and when it fails. -/
structure Condition where
  left : Operand
  operator : ConditionOperator
  right : Operand
  onTrue : Option NodeId
  onFalse : Option NodeId
  /-- Written in parentheses inside another condition. -/
  grouped : Bool

end

instance : Inhabited Operand := ⟨{ id := 0, type := .known .unknown, kind := .null }⟩

/-- Where new operands get their identities and type cells. -/
structure Supply where
  nextId : OperandId := 1
  types : TypeCells := {}
  deriving Inhabited

abbrev SupplyM := StateM Supply

namespace Supply

def freshId : SupplyM OperandId := do
  let supply ← get
  set { supply with nextId := supply.nextId + 1 }
  return supply.nextId

/-- A new cell that holds a guess. -/
def guess (type : JvmType) : SupplyM TypeRef := do
  let supply ← get
  let (id, types) := supply.types.add type false
  set { supply with types }
  return .cell id

def unknown : SupplyM TypeRef := guess .unknown

end Supply

namespace Operand

def make (kind : OperandKind) (type : TypeRef) : SupplyM Operand := do
  return { id := ← Supply.freshId, type, kind }

/-- An operand whose type is certain. -/
def typed (kind : OperandKind) (type : JvmType) : SupplyM Operand := make kind (.known type)

/-- An operand whose type is a guess of its own. -/
def guessed (kind : OperandKind) (type : JvmType) : SupplyM Operand := do
  make kind (← Supply.guess type)

/-- An int constant may turn out to be a boolean or a char; other constants are what they are. -/
def number (value : Number) : SupplyM Operand :=
  match value with
  | .int _ => guessed (.number value) .int
  | _ => typed (.number value) value.type

def int (value : Int32) : SupplyM Operand := number (.int value)

def string (value : String) : SupplyM Operand := typed (.string value) .string

def boolean (value : Bool) : SupplyM Operand := typed (.boolean value) .boolean

def null : SupplyM Operand := guessed .null .null

def ofCondition (test : Condition) : SupplyM Operand := typed (.condition test) .boolean

def ofVariable (id : VariableId) (type : TypeRef) : SupplyM Operand := make (.localVariable id false) type

def asStatement (operand : Operand) : Operand := { operand with statement := true }

def asValue (operand : Operand) : Operand := { operand with statement := false }

def enclose (operand : Operand) : Operand := { operand with enclosed := true }

def condition? (operand : Operand) : Option Condition :=
  match operand.kind with
  | .condition test => some test
  | _ => none

def isCondition (operand : Operand) : Bool := operand.condition?.isSome

/-- Changes the condition of a condition operand and leaves other operands alone. -/
def mapCondition (change : Condition → Condition) (operand : Operand) : Operand :=
  match operand.kind with
  | .condition test => { operand with kind := .condition (change test) }
  | _ => operand

/-- A constant of the given integral value. -/
def isConstant (operand : Operand) (value : Int) : Bool :=
  match operand.kind with
  | .number number => number.integer? == some value
  | _ => false

/-- The local variable that an operand is. -/
def asLocal? (operand : Operand) : Option VariableId :=
  match operand.kind with
  | .localVariable id _ => some id
  | _ => none

/-- Evaluating the operand for itself has an effect. -/
def hasSideEffect (operand : Operand) : Bool :=
  match operand.kind with
  | .call .. | .construct .. | .assign .. | .returns _ | .throws _ | .yields _ | .asserts ..
  | .declaration _ | .switch _ => true
  | .unary operator _ => operator.isIncrement
  | _ => false

/-- Control does not pass beyond the operand inside its node. -/
def isTerminal (operand : Operand) : Bool :=
  match operand.kind with
  | .returns _ | .throws _ | .yields _ => true
  | _ => false

end Operand

end Decompiler
