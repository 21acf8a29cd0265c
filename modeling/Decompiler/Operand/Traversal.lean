import Decompiler.Operand.Condition

/-!
Walks over an operand and everything inside it, and the comparison of operands by structure.
-/

namespace Decompiler

namespace Operand

/-- The direct parts of an operand in the order of evaluation. -/
def children (operand : Operand) : List Operand :=
  match operand.kind with
  | .binary left _ right => [left, right]
  | .unary _ value | .length value | .cast _ value | .instanceOf value _ | .zeroOrOne value
  | .throws value | .yields value => [value]
  | .assign target _ value => [target, value]
  | .condition test => [test.left, test.right]
  | .call _ _ _ receiver arguments _ => receiver.toList ++ arguments
  | .construct _ _ _ arguments => arguments
  | .field _ _ receiver | .methodReference _ _ receiver => receiver.toList
  | .element array index => [array, index]
  | .newArray _ dimensions initializers => dimensions ++ initializers.getD []
  | .ternary test onTrue onFalse => [test, onTrue, onFalse]
  | .lambda _ _ _ _ captures => captures
  | .returns value => value.toList
  | .asserts test message => test :: message.toList
  | .number _ | .character _ | .string _ | .boolean _ | .null | .this | .classLiteral _
  | .uninitialized _ | .switch _ | .localVariable .. | .declaration _ => []

end Operand

mutual

/-- The operand and everything inside it, each operand before its parts. -/
def Operand.walk : Operand → List Operand
  | ⟨id, type, duplicated, enclosed, statement, kind⟩ =>
    ⟨id, type, duplicated, enclosed, statement, kind⟩ :: OperandKind.walkParts kind

def OperandKind.walkParts : OperandKind → List Operand
  | .binary left _ right => Operand.walk left ++ Operand.walk right
  | .unary _ value | .length value | .cast _ value | .instanceOf value _ | .zeroOrOne value
  | .throws value | .yields value => Operand.walk value
  | .assign target _ value => Operand.walk target ++ Operand.walk value
  | .condition test => Condition.walkSides test
  | .call _ _ _ receiver arguments _ => Operand.walkOption receiver ++ Operand.walkAll arguments
  | .construct _ _ _ arguments => Operand.walkAll arguments
  | .field _ _ receiver | .methodReference _ _ receiver => Operand.walkOption receiver
  | .element array index => Operand.walk array ++ Operand.walk index
  | .newArray _ dimensions initializers => Operand.walkAll dimensions ++ Operand.walkInitializers initializers
  | .ternary test onTrue onFalse =>
    Operand.walk test ++ Operand.walk onTrue ++ Operand.walk onFalse
  | .lambda _ _ _ _ captures => Operand.walkAll captures
  | .returns value => Operand.walkOption value
  | .asserts test message => Operand.walk test ++ Operand.walkOption message
  | .number _ | .character _ | .string _ | .boolean _ | .null | .this | .classLiteral _
  | .uninitialized _ | .switch _ | .localVariable .. | .declaration _ => []

def Condition.walkSides : Condition → List Operand
  | ⟨left, _, right, _, _, _⟩ => Operand.walk left ++ Operand.walk right

def Operand.walkOption : Option Operand → List Operand
  | some operand => Operand.walk operand
  | none => []

def Operand.walkAll : List Operand → List Operand
  | operand :: rest => Operand.walk operand ++ Operand.walkAll rest
  | [] => []

def Operand.walkInitializers : Option (List Operand) → List Operand
  | some values => Operand.walkAll values
  | none => []

end

mutual

/-- Applies a change to the operand and everything inside it, to the parts of an operand first. -/
def Operand.rewrite (change : Operand → Operand) : Operand → Operand
  | ⟨id, type, duplicated, enclosed, statement, kind⟩ =>
    change ⟨id, type, duplicated, enclosed, statement, OperandKind.rewriteParts change kind⟩

def OperandKind.rewriteParts (change : Operand → Operand) : OperandKind → OperandKind
  | .binary left operator right =>
    .binary (Operand.rewrite change left) operator (Operand.rewrite change right)
  | .unary operator value => .unary operator (Operand.rewrite change value)
  | .length value => .length (Operand.rewrite change value)
  | .cast type value => .cast type (Operand.rewrite change value)
  | .instanceOf value type => .instanceOf (Operand.rewrite change value) type
  | .zeroOrOne value => .zeroOrOne (Operand.rewrite change value)
  | .throws value => .throws (Operand.rewrite change value)
  | .yields value => .yields (Operand.rewrite change value)
  | .assign target operator value =>
    .assign (Operand.rewrite change target) operator (Operand.rewrite change value)
  | .condition test => .condition (Condition.rewriteSides change test)
  | .call owner name descriptor receiver arguments special =>
    .call owner name descriptor (Operand.rewriteOption change receiver) (Operand.rewriteAll change arguments) special
  | .construct owner descriptor kind arguments =>
    .construct owner descriptor kind (Operand.rewriteAll change arguments)
  | .field owner name receiver => .field owner name (Operand.rewriteOption change receiver)
  | .methodReference owner name receiver =>
    .methodReference owner name (Operand.rewriteOption change receiver)
  | .element array index => .element (Operand.rewrite change array) (Operand.rewrite change index)
  | .newArray element dimensions initializers =>
    .newArray element (Operand.rewriteAll change dimensions) (Operand.rewriteInitializers change initializers)
  | .ternary test onTrue onFalse =>
    .ternary (Operand.rewrite change test) (Operand.rewrite change onTrue)
      (Operand.rewrite change onFalse)
  | .lambda owner name descriptor interface captures =>
    .lambda owner name descriptor interface (Operand.rewriteAll change captures)
  | .returns value => .returns (Operand.rewriteOption change value)
  | .asserts test message =>
    .asserts (Operand.rewrite change test) (Operand.rewriteOption change message)
  | .number value => .number value
  | .character value => .character value
  | .string value => .string value
  | .boolean value => .boolean value
  | .null => .null
  | .this => .this
  | .classLiteral type => .classLiteral type
  | .uninitialized owner => .uninitialized owner
  | .switch head => .switch head
  | .localVariable id declares => .localVariable id declares
  | .declaration id => .declaration id

def Condition.rewriteSides (change : Operand → Operand) : Condition → Condition
  | ⟨left, operator, right, onTrue, onFalse, grouped⟩ =>
    ⟨Operand.rewrite change left, operator, Operand.rewrite change right, onTrue, onFalse, grouped⟩

def Operand.rewriteOption (change : Operand → Operand) : Option Operand → Option Operand
  | some operand => some (Operand.rewrite change operand)
  | none => none

def Operand.rewriteAll (change : Operand → Operand) : List Operand → List Operand
  | operand :: rest => Operand.rewrite change operand :: Operand.rewriteAll change rest
  | [] => []

def Operand.rewriteInitializers (change : Operand → Operand) : Option (List Operand) → Option (List Operand)
  | some values => some (Operand.rewriteAll change values)
  | none => none

end

namespace Operand

/-- The operand reads, writes or declares the variable itself. -/
def mentions (operand : Operand) (sought : VariableId) : Bool :=
  match operand.kind with
  | .localVariable id _ | .declaration id => id == sought
  | _ => false

/-- The variable occurs anywhere in the operand. -/
def references (operand : Operand) (sought : VariableId) : Bool :=
  operand.walk.any (·.mentions sought)

/-- Replaces a target in every condition anywhere in the operand. -/
def redirect (old : NodeId) (new : Option NodeId) (operand : Operand) : Operand :=
  operand.rewrite (mapCondition (Condition.replaceTarget old new))

/-- Some condition anywhere in the operand names the node as a target. -/
def mentionsTarget (operand : Operand) (node : NodeId) : Bool :=
  operand.walk.any (targets node)

end Operand

/-- Two operands are copies of each other or read the same place or constant: equal locals, fields and
array elements of equivalent receivers, equal constants. No two other operands are equivalent. -/
def Operand.equivalent : Operand → Operand → Bool
  | ⟨id, _, _, _, _, kind⟩, other =>
    id == other.id ||
      match kind, other.kind with
      | .this, .this => true
      | .localVariable a _, .localVariable b _ => a == b
      | .field owner name none, .field otherOwner otherName none =>
        owner == otherOwner && name == otherName
      | .field owner name (some receiver), .field otherOwner otherName (some otherReceiver) =>
        owner == otherOwner && name == otherName && equivalent receiver otherReceiver
      | .element array index, .element otherArray otherIndex =>
        equivalent array otherArray && equivalent index otherIndex
      | .number a, .number b => a.same b
      | .string a, .string b => a == b
      | _, _ => false

end Decompiler
