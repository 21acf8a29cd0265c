import Decompiler.Operand.Traversal
import Decompiler.Proofs.Operand.Targets
import Mathlib.Logic.Function.Basic

/-!
What assignments do to a memory of locals, fields and array elements. A target is located first, and checked when it is
read or written; what is stored is converted to the type of what it replaces. Arithmetic on ints and longs wraps around.
-/

namespace Decompiler.Assignment

/-- Why an evaluation stops. -/
inductive Fault where
  | nullPointer
  | outOfBounds
  | divisionByZero
  /-- The operand has no meaning for these values. -/
  | illTyped
  deriving DecidableEq

/-- The address of an object or of an array. -/
abbrev Address := Nat

inductive Value where
  | int (value : Int32)
  | long (value : Int64)
  | string (value : String)
  /-- An object or an array; null has no address. -/
  | reference (address : Option Address)
  deriving DecidableEq

/-- A variable, or a part of an object or array that may not be there. -/
inductive Location where
  | localVariable (id : VariableId)
  | static (owner name : String)
  | field (object : Value) (owner name : String)
  | element (array index : Value)

structure Memory where
  this : Value
  locals : VariableId → Value
  statics : String × String → Value
  fields : Address × String × String → Value
  arrays : Address → List Value
  /-- The texts that objects are converted to. -/
  describe : Address → String

namespace Value

/-- The value is a number of the type. -/
def isNumberOf : Value → JvmType → Bool
  | int _, .int | long _, .long => true
  | _, _ => false

/-- The text that a value is converted to. -/
def text (memory : Memory) : Value → String
  | int value => toString value.toInt
  | long value => toString value.toInt
  | string value => value
  | reference (some address) => memory.describe address
  | reference none => "null"

/-- A value as it is stored in place of another one. -/
def storedOver : Value → Value → Except Fault Value
  | int value, int _ => return int value
  | int value, long _ => return long value.toInt64
  | long value, int _ => return int value.toInt32
  | long value, long _ => return long value
  | string value, string _ | string value, reference _ => return string value
  | reference address, string _ | reference address, reference _ => return reference address
  | _, _ => throw .illTyped

end Value

namespace Memory

variable (memory : Memory)

/-- The value at a location, if it is there. -/
def read : Location → Except Fault Value
  | .localVariable id => return memory.locals id
  | .static owner name => return memory.statics (owner, name)
  | .field (.reference (some address)) owner name => return memory.fields (address, owner, name)
  | .element (.reference (some address)) (.int index) =>
    match memory.arrays address, index.toInt with
    | elements, .ofNat place => elements[place]?.elim (throw .outOfBounds) pure
    | _, .negSucc _ => throw .outOfBounds
  | .field (.reference none) _ _ | .element (.reference none) (.int _) => throw .nullPointer
  | _ => throw .illTyped

/-- The memory with another value at a location that is there. -/
def put (value : Value) : Location → Memory
  | .localVariable id => { memory with locals := Function.update memory.locals id value }
  | .static owner name => { memory with statics := Function.update memory.statics (owner, name) value }
  | .field (.reference (some address)) owner name =>
    { memory with fields := Function.update memory.fields (address, owner, name) value }
  | .element (.reference (some address)) (.int index) =>
    { memory with
      arrays := Function.update memory.arrays address ((memory.arrays address).set index.toInt.toNat value) }
  | _ => memory

/-- Stores a value; yields it as it was stored, and the memory after it. -/
def write (location : Location) (value : Value) : Except Fault (Value × Memory) := do
  let stored ← value.storedOver (← memory.read location)
  return (stored, memory.put stored location)

end Memory

/-! ### Operators -/

section

variable {α : Type} [Add α] [Sub α] [Mul α] [Div α] [Mod α] [AndOp α] [OrOp α] [XorOp α] [OfNat α 0] [DecidableEq α]

/-- The result of an operator between numbers of one width. -/
def calculate (operator : BinaryOperator) (x y : α) : Except Fault α :=
  match operator with
  | .add => return x + y
  | .subtract => return x - y
  | .multiply => return x * y
  | .divide => if y = 0 then throw .divisionByZero else return x / y
  | .remainder => if y = 0 then throw .divisionByZero else return x % y
  | .bitAnd => return x &&& y
  | .bitOr => return x ||| y
  | .bitXor => return x ^^^ y
  | _ => throw .illTyped

end

/-- An int shifted. Only the last five bits of the distance count. -/
def shiftInt? (operator : BinaryOperator) (value : Int32) (distance : Int) : Option Int32 :=
  let distance := Int32.ofInt distance
  match operator with
  | .shiftLeft => some (value <<< distance)
  | .shiftRight => some (value >>> distance)
  | .unsignedShiftRight => some (value.toUInt32 >>> distance.toUInt32).toInt32
  | _ => none

/-- A long shifted. Only the last six bits of the distance count. -/
def shiftLong? (operator : BinaryOperator) (value : Int64) (distance : Int) : Option Int64 :=
  let distance := Int64.ofInt distance
  match operator with
  | .shiftLeft => some (value <<< distance)
  | .shiftRight => some (value >>> distance)
  | .unsignedShiftRight => some (value.toUInt64 >>> distance.toUInt64).toInt64
  | _ => none

/-- The result of a binary operator. A shift keeps the width of its left side; otherwise an int next to a long is
widened, and a sum with a string joins texts. -/
def combine (memory : Memory) (operator : BinaryOperator) : Value → Value → Except Fault Value
  | .int x, .int y => (shiftInt? operator x y.toInt).elim (.int <$> calculate operator x y) (return .int ·)
  | .int x, .long y =>
    (shiftInt? operator x y.toInt).elim (.long <$> calculate operator x.toInt64 y) (return .int ·)
  | .long x, .int y =>
    (shiftLong? operator x y.toInt).elim (.long <$> calculate operator x y.toInt64) (return .long ·)
  | .long x, .long y => (shiftLong? operator x y.toInt).elim (.long <$> calculate operator x y) (return .long ·)
  | x, y =>
    match operator, x, y with
    | .add, .string x, y => return .string (x ++ y.text memory)
    | .add, x, .string y => return .string (x.text memory ++ y)
    | _, _, _ => throw .illTyped

end Decompiler.Assignment

namespace Decompiler

/-- The operation of a compound assignment. -/
def AssignOperator.operation? : AssignOperator → Option BinaryOperator
  | .assign => none
  | .add => some .add
  | .subtract => some .subtract
  | .multiply => some .multiply
  | .divide => some .divide
  | .remainder => some .remainder
  | .shiftLeft => some .shiftLeft
  | .shiftRight => some .shiftRight
  | .unsignedShiftRight => some .unsignedShiftRight
  | .bitAnd => some .bitAnd
  | .bitOr => some .bitOr
  | .bitXor => some .bitXor

/-- The operation of an increment with the number one. -/
def UnaryOperator.operation? : UnaryOperator → Option BinaryOperator
  | .preIncrement | .postIncrement => some .add
  | .preDecrement | .postDecrement => some .subtract
  | _ => none

namespace Assignment

/-! ### Operands -/

mutual

/-- The value of an operand whose evaluation changes nothing. -/
def evaluate (memory : Memory) : Operand → Except Fault Value
  | ⟨_, _, _, _, _, kind⟩ => evaluateKind memory kind

def evaluateKind (memory : Memory) : OperandKind → Except Fault Value
  | .number (.int value) => return .int value
  | .number (.long value) => return .long value
  | .string value => return .string value
  | .this => return memory.this
  | .localVariable id _ => memory.read (.localVariable id)
  | .field owner name none => memory.read (.static owner name)
  | .field owner name (some receiver) => do memory.read (.field (← evaluate memory receiver) owner name)
  | .element array index => do memory.read (.element (← evaluate memory array) (← evaluate memory index))
  | .binary left operator right => do
    combine memory operator (← evaluate memory left) (← evaluate memory right)
  | _ => throw .illTyped

end

/-- The location that a target stands for. -/
def locate (memory : Memory) (operand : Operand) : Except Fault Location :=
  match operand.kind with
  | .localVariable id _ => return .localVariable id
  | .field owner name none => return .static owner name
  | .field owner name (some receiver) => return .field (← evaluate memory receiver) owner name
  | .element array index => return .element (← evaluate memory array) (← evaluate memory index)
  | _ => throw .illTyped

/-- The value of an assignment or increment, and the memory after it. The target is located before the right side is
evaluated; a compound assignment also reads it before. -/
def execute (memory : Memory) : OperandKind → Except Fault (Value × Memory)
  | .assign target operator value => do
    let location ← locate memory target
    match operator.operation? with
    | none => memory.write location (← evaluate memory value)
    | some operation =>
      let before ← memory.read location
      memory.write location (← combine memory operation before (← evaluate memory value))
  | .unary operator target => do
    let location ← locate memory target
    match operator.operation? with
    | none => throw .illTyped
    | some operation =>
      let before ← memory.read location
      let (stored, after) ← memory.write location (← combine memory operation before (.int 1))
      return (if operator.followsOperand then before else stored, after)
  | _ => throw .illTyped

end Assignment

end Decompiler
