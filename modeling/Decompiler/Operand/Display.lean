import Decompiler.Operand.Basic
import Decompiler.Text.Quoted

/-!
The one-line text of an operand in diagnostics and node dumps. Locals appear by number.
-/

namespace Decompiler

/-- The words that start the call of a constructor. -/
def ConstructorKind.opening (kind : ConstructorKind) (owner : String) : String :=
  match kind with
  | .new => "new " ++ classText owner ++ "("
  | .super => "super("
  | .this => "this("

mutual

def Operand.text : Operand → String
  | ⟨_, _, _, enclosed, _, kind⟩ =>
    if enclosed then "(" ++ OperandKind.text kind ++ ")" else OperandKind.text kind

def OperandKind.text : OperandKind → String
  | .number value => value.text
  | .character value => Text.quoteChar value
  | .string value => Text.quoteString value
  | .boolean value => if value then "true" else "false"
  | .null => "null"
  | .this => "this"
  | .classLiteral type => type.simpleName ++ ".class"
  | .binary left operator right =>
    Operand.text left ++ " " ++ operator.symbol ++ " " ++ Operand.text right
  | .unary operator value =>
    if operator.followsOperand then Operand.text value ++ operator.symbol
    else operator.symbol ++ Operand.text value
  | .assign target operator value =>
    Operand.text target ++ " " ++ operator.symbol ++ " " ++ Operand.text value
  | .condition test => Condition.text test
  | .call owner name _ receiver arguments _ =>
    Operand.textOfReceiver owner receiver ++ "." ++ name ++ "(" ++ Operand.textOfAll true arguments ++ ")"
  | .construct owner _ kind arguments => kind.opening owner ++ Operand.textOfAll true arguments ++ ")"
  | .uninitialized owner => "new " ++ classText owner
  | .field owner name receiver => Operand.textOfReceiver owner receiver ++ "." ++ name
  | .element array index => Operand.text array ++ "[" ++ Operand.text index ++ "]"
  | .length array => Operand.text array ++ ".length"
  | .newArray element dimensions initializers =>
    "new " ++ element.simpleName ++ Operand.textOfDimensions dimensions ++ Operand.textOfInitializers initializers
  | .cast type value => "(" ++ type.simpleName ++ ") " ++ Operand.text value
  | .instanceOf value type => Operand.text value ++ " instanceof " ++ type.simpleName
  | .ternary test onTrue onFalse =>
    Operand.text test ++ " ? " ++ Operand.text onTrue ++ " : " ++ Operand.text onFalse
  | .zeroOrOne test => Operand.text test ++ " ? 1 : 0"
  | .switch head => "switch@n" ++ toString head
  | .lambda _ name _ _ captures => "lambda " ++ name ++ "[" ++ Operand.textOfAll true captures ++ "]"
  | .methodReference owner name receiver => Operand.textOfReceiver owner receiver ++ "::" ++ name
  | .localVariable id declares => (if declares then "var v" else "v") ++ toString id
  | .declaration id => "var v" ++ toString id
  | .returns none => "return"
  | .returns (some value) => "return " ++ Operand.text value
  | .throws value => "throw " ++ Operand.text value
  | .yields value => "yield " ++ Operand.text value
  | .asserts test none => "assert " ++ Operand.text test
  | .asserts test (some message) => "assert " ++ Operand.text test ++ " : " ++ Operand.text message

def Condition.text : Condition → String
  | ⟨left, operator, right, _, _, grouped⟩ =>
    let body := Operand.text left ++ " " ++ operator.symbol ++ " " ++ Operand.text right
    if grouped then "(" ++ body ++ ")" else body

/-- The receiver, or the class of a static member. -/
def Operand.textOfReceiver (owner : String) : Option Operand → String
  | some receiver => Operand.text receiver
  | none => classText owner

def Operand.textOfAll (first : Bool) : List Operand → String
  | operand :: rest => (if first then "" else ", ") ++ Operand.text operand ++ Operand.textOfAll false rest
  | [] => ""

def Operand.textOfDimensions : List Operand → String
  | operand :: rest => "[" ++ Operand.text operand ++ "]" ++ Operand.textOfDimensions rest
  | [] => ""

def Operand.textOfInitializers : Option (List Operand) → String
  | some values => " \x7b" ++ Operand.textOfAll true values ++ "\x7d"
  | none => ""

end

end Decompiler
