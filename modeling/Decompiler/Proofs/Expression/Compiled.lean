import Decompiler.Event.Assembler
import Decompiler.Operand.Basic
import Decompiler.Symbols
import Mathlib.Tactic.Common

/-!
Source expressions over the parameters of a static method, the instructions that compute them, and the operands
that represent them. Operands are compared by kinds, operators, names and the order of arguments; identities and
types are left out.
-/

namespace Decompiler

/-- The operators between two ints that have an instruction. -/
inductive IntOperator where
  | add
  | subtract
  | multiply
  | divide
  | remainder
  | shiftLeft
  | shiftRight
  | unsignedShiftRight
  | bitAnd
  | bitOr
  | bitXor
  deriving DecidableEq

namespace IntOperator

def opcode : IntOperator → Opcode
  | add => .iadd
  | subtract => .isub
  | multiply => .imul
  | divide => .idiv
  | remainder => .irem
  | shiftLeft => .ishl
  | shiftRight => .ishr
  | unsignedShiftRight => .iushr
  | bitAnd => .iand
  | bitOr => .ior
  | bitXor => .ixor

def operator : IntOperator → BinaryOperator
  | add => .add
  | subtract => .subtract
  | multiply => .multiply
  | divide => .divide
  | remainder => .remainder
  | shiftLeft => .shiftLeft
  | shiftRight => .shiftRight
  | unsignedShiftRight => .unsignedShiftRight
  | bitAnd => .bitAnd
  | bitOr => .bitOr
  | bitXor => .bitXor

end IntOperator

namespace JvmType

/-- An int or a reference: the types of parameters that take one slot and are loaded as they are. -/
def isIntOrReference : JvmType → Bool
  | .int | .reference _ | .array _ => true
  | _ => false

/-- The load of a parameter. -/
def loadOpcode (type : JvmType) : Opcode := if type = .int then .iload else .aload

/-- The return of a value. -/
def returnOpcode : JvmType → Opcode
  | .int | .byte | .char | .short | .boolean => .ireturn
  | .long => .lreturn
  | .float => .freturn
  | .double => .dreturn
  | _ => .areturn

/-- A value of the type is returned as it is from a method with the result: the types agree, both are references,
or the value is an int on the operand stack and the result has no literals of its own. -/
def returnsAs (type result : JvmType) : Bool :=
  type == result || (!type.isPrimitive && !result.isPrimitive) ||
    (type.isIntLike && (result == .int || result == .byte || result == .short))

end JvmType

/-- An expression. Types of casts and tests are internal names or array descriptors. -/
inductive Expression where
  | parameter (slot : UInt16)
  | constant (value : Int32)
  | arithmetic (left : Expression) (operator : IntOperator) (right : Expression)
  | negate (value : Expression)
  | element (array index : Expression)
  | length (array : Expression)
  | field (receiver : Expression) (member : MemberName)
  | staticField (member : MemberName)
  | cast (value : Expression) (type : String)
  | instanceOf (value : Expression) (type : String)
  | callStatic (member : MemberName) (arguments : List Expression)
  | callVirtual (receiver : Expression) (member : MemberName) (arguments : List Expression)

namespace MemberName

/-- The member is a field. -/
def isField (member : MemberName) : Bool :=
  (JvmType.ofDescriptor? member.descriptor).any (· != .void)

/-- The member is a method with a result and so many parameters, which are ints or references. -/
def isFunction (member : MemberName) (count : Nat) : Bool :=
  (MethodDescriptor.ofText? member.descriptor).any fun descriptor =>
    descriptor.result != .void && descriptor.parameters.length == count &&
      descriptor.parameters.all JvmType.isIntOrReference

end MemberName

namespace Expression

mutual

/-- Parameters exist, and members are of their kind. The flag that disables assertions is no field to read. -/
def wellFormed (parameters : List JvmType) : Expression → Bool
  | .parameter slot => decide (slot.toNat < parameters.length)
  | .constant _ => true
  | .arithmetic left _ right => left.wellFormed parameters && right.wellFormed parameters
  | .negate value | .length value | .cast value _ | .instanceOf value _ => value.wellFormed parameters
  | .element array index => array.wellFormed parameters && index.wellFormed parameters
  | .field receiver member => receiver.wellFormed parameters && member.isField
  | .staticField member => member.isField && member.name != "$assertionsDisabled"
  | .callStatic member arguments => member.isFunction arguments.length && allWellFormed parameters arguments
  | .callVirtual receiver member arguments =>
    receiver.wellFormed parameters && member.isFunction arguments.length && allWellFormed parameters arguments

def allWellFormed (parameters : List JvmType) : List Expression → Bool
  | [] => true
  | expression :: rest => expression.wellFormed parameters && allWellFormed parameters rest

end

/-- The type of the value. -/
def type (parameters : List JvmType) : Expression → JvmType
  | .parameter slot => parameters.getD slot.toNat .unknown
  | .constant _ | .arithmetic .. | .negate _ | .element .. | .length _ => .int
  | .field _ member | .staticField member => (JvmType.ofDescriptor? member.descriptor).getD .unknown
  | .cast _ name => .ofInternalName name
  | .instanceOf .. => .boolean
  | .callStatic member _ | .callVirtual _ member _ =>
    (MethodDescriptor.ofText? member.descriptor).elim .unknown MethodDescriptor.result

mutual

/-- The instructions that leave the value on the operand stack, those of the operands first. -/
def compile (parameters : List JvmType) : Expression → List Event
  | .parameter slot => [.var (parameters.getD slot.toNat .unknown).loadOpcode slot]
  | .constant value => [.pushInt value]
  | .arithmetic left operator right =>
    left.compile parameters ++ right.compile parameters ++ [.insn operator.opcode]
  | .negate value => value.compile parameters ++ [.insn .ineg]
  | .element array index => array.compile parameters ++ index.compile parameters ++ [.insn .iaload]
  | .length array => array.compile parameters ++ [.insn .arraylength]
  | .field receiver member => receiver.compile parameters ++ [.field .getfield member]
  | .staticField member => [.field .getstatic member]
  | .cast value type => value.compile parameters ++ [.type .checkcast type]
  | .instanceOf value type => value.compile parameters ++ [.type .instanceof type]
  | .callStatic member arguments => compileAll parameters arguments ++ [.method .invokestatic member]
  | .callVirtual receiver member arguments =>
    receiver.compile parameters ++ compileAll parameters arguments ++ [.method .invokevirtual member]

def compileAll (parameters : List JvmType) : List Expression → List Event
  | [] => []
  | expression :: rest => expression.compile parameters ++ compileAll parameters rest

end

/-- The operand is the same tree as the expression. -/
inductive Represents : Expression → Operand → Prop
  | parameter {slot : UInt16} {operand : Operand} (hKind : operand.kind = .localVariable slot.toNat false) :
      Represents (.parameter slot) operand
  | constant {value : Int32} {operand : Operand} (hKind : operand.kind = .number (.int value)) :
      Represents (.constant value) operand
  | arithmetic {left right : Expression} {operator : IntOperator} {operand x y : Operand}
      (hKind : operand.kind = .binary x operator.operator y) (hLeft : Represents left x) (hRight : Represents right y) :
      Represents (.arithmetic left operator right) operand
  | negate {value : Expression} {operand x : Operand} (hKind : operand.kind = .unary .negate x)
      (hValue : Represents value x) : Represents (.negate value) operand
  | element {array index : Expression} {operand x y : Operand} (hKind : operand.kind = .element x y)
      (hArray : Represents array x) (hIndex : Represents index y) : Represents (.element array index) operand
  | length {array : Expression} {operand x : Operand} (hKind : operand.kind = .length x) (hArray : Represents array x) :
      Represents (.length array) operand
  | field {receiver : Expression} {member : MemberName} {operand x : Operand}
      (hKind : operand.kind = .field member.owner member.name (some x)) (hReceiver : Represents receiver x) :
      Represents (.field receiver member) operand
  | staticField {member : MemberName} {operand : Operand}
      (hKind : operand.kind = .field member.owner member.name none) : Represents (.staticField member) operand
  | cast {value : Expression} {type : String} {operand x : Operand}
      (hKind : operand.kind = .cast (.ofInternalName type) x) (hValue : Represents value x) :
      Represents (.cast value type) operand
  | instanceOf {value : Expression} {type : String} {operand x : Operand}
      (hKind : operand.kind = .instanceOf x (.ofInternalName type)) (hValue : Represents value x) :
      Represents (.instanceOf value type) operand
  | callStatic {member : MemberName} {arguments : List Expression} {operand : Operand} {operands : List Operand}
      (hKind : operand.kind = .call member.owner member.name member.descriptor none operands false)
      (hArguments : List.Forall₂ Represents arguments operands) : Represents (.callStatic member arguments) operand
  | callVirtual {receiver : Expression} {member : MemberName} {arguments : List Expression} {operand x : Operand}
      {operands : List Operand}
      (hKind : operand.kind = .call member.owner member.name member.descriptor (some x) operands false)
      (hReceiver : Represents receiver x) (hArguments : List.Forall₂ Represents arguments operands) :
      Represents (.callVirtual receiver member arguments) operand

end Expression

end Decompiler
