import Decompiler.Code.Basic
import Decompiler.Text.Escaped

/-!
The text of code: a listing in the manner of source text, four columns a level.
-/

namespace Decompiler.Code

def indent (depth : Nat) : String := String.join (List.replicate depth "    ")

def labelText (label : Option String) : String := label.elim "" (· ++ ": ")

/-- A jump with the label it goes to. -/
def jumpLine (depth : Nat) (keyword : String) (label : Option String) : String :=
  indent depth ++ keyword ++ label.elim "" (" " ++ ·) ++ ";\n"

/-- The words that start the call of a constructor. -/
def constructorOpening (kind : ConstructorKind) (owner : String) : String :=
  match kind with
  | .new => "new " ++ classText owner ++ "("
  | .super => "super("
  | .this => "this("

def clauseHeader (exception caught : Option String) : String :=
  " catch (" ++ exception.elim "Throwable" classText ++ " " ++ caught.getD "e" ++ ")"

def keyLines (depth : Nat) (keys : List Int32) : String :=
  String.join (keys.map fun key => indent depth ++ "case " ++ toString key.toInt ++ ":\n")

/-- The lines of a block between braces; the closing one ends the text. -/
def braces (depth : Nat) (lines : String) : String := " \x7b\n" ++ lines ++ indent depth ++ "\x7d"

mutual

/-- The text of a piece at a depth of nesting. Statements are lines of their own. -/
def text (depth : Nat) : Code → String
  | .sequence parts => textOfParts depth parts
  | .statement value => indent depth ++ text depth value ++ ";\n"
  | .conditional test body otherwise =>
    indent depth ++ "if (" ++ text depth test ++ ")" ++ braces depth (text (depth + 1) body)
      ++ optional depth " else" otherwise ++ "\n"
  | .whileLoop label test body =>
    indent depth ++ labelText label ++ "while (" ++ text depth test ++ ")"
      ++ braces depth (text (depth + 1) body) ++ "\n"
  | .doWhile label body test =>
    indent depth ++ labelText label ++ "do" ++ braces depth (text (depth + 1) body)
      ++ " while (" ++ text depth test ++ ");\n"
  | .forLoop label initializer test updates body =>
    indent depth ++ labelText label ++ "for (" ++ after depth "" initializer ++ "; " ++ text depth test
      ++ "; " ++ list depth true updates ++ ")" ++ braces depth (text (depth + 1) body) ++ "\n"
  | .forEach label item iterable body =>
    indent depth ++ labelText label ++ "for (" ++ text depth item ++ " : " ++ text depth iterable ++ ")"
      ++ braces depth (text (depth + 1) body) ++ "\n"
  | .forever label body =>
    indent depth ++ labelText label ++ "while (true)" ++ braces depth (text (depth + 1) body) ++ "\n"
  | .switch label selector cases other =>
    indent depth ++ labelText label ++ "switch (" ++ text depth selector ++ ") \x7b\n"
      ++ caseLines depth cases ++ defaultLines depth other ++ indent depth ++ "\x7d\n"
  | .switchValue selector cases other =>
    "switch (" ++ text (depth + 1) selector ++ ") \x7b\n" ++ caseLines (depth + 1) cases
      ++ defaultLines (depth + 1) other ++ indent (depth + 1) ++ "\x7d"
  | .protect body clauses finally_ =>
    indent depth ++ "try" ++ braces depth (text (depth + 1) body) ++ textOfClauses depth clauses
      ++ optional depth " finally" finally_ ++ "\n"
  | .returns value => indent depth ++ "return" ++ after depth " " value ++ ";\n"
  | .throws value => indent depth ++ "throw " ++ text depth value ++ ";\n"
  | .yields value => indent depth ++ "yield " ++ text depth value ++ ";\n"
  | .breaks label => jumpLine depth "break" label
  | .continues label => jumpLine depth "continue" label
  | .asserts test message =>
    indent depth ++ "assert " ++ text depth test ++ after depth " : " message ++ ";\n"
  | .binary left symbol right => text depth left ++ " " ++ symbol ++ " " ++ text depth right
  | .unary symbol follows value =>
    if follows then text depth value ++ symbol else symbol ++ text depth value
  | .assign target symbol value => text depth target ++ " " ++ symbol ++ " " ++ text depth value
  | .call receiver owner name special arguments =>
    (if special && receiver.isSome then "super" else receiverText depth owner receiver)
      ++ "." ++ name ++ "(" ++ list depth true arguments ++ ")"
  | .construct kind owner arguments =>
    constructorOpening kind owner ++ list depth true arguments ++ ")"
  | .field receiver owner name => receiverText depth owner receiver ++ "." ++ name
  | .element array index => text depth array ++ "[" ++ text depth index ++ "]"
  | .length array => text depth array ++ ".length"
  | .newArray type _ (some initializers) =>
    "new " ++ type.simpleName ++ "[] \x7b" ++ list depth true initializers ++ "\x7d"
  | .newArray type dimensions none => "new " ++ type.simpleName ++ sizes depth dimensions
  | .cast type value => "(" ++ type.simpleName ++ ") " ++ text depth value
  | .instanceOf value type => text depth value ++ " instanceof " ++ type.simpleName
  | .localVariable type name declares => (if declares then type.simpleName ++ " " else "") ++ name
  | .this => "this"
  | .classLiteral type => type.simpleName ++ ".class"
  | .ternary test onTrue onFalse =>
    text depth test ++ " ? " ++ text depth onTrue ++ " : " ++ text depth onFalse
  | .lambda interface owner name captures =>
    "/* " ++ classText interface ++ " */ " ++
      if captures.isEmpty then classText owner ++ "::" ++ name
      else "(...) -> " ++ classText owner ++ "." ++ name ++ "(" ++ list depth true captures ++ ", ...)"
  | .methodReference receiver owner name => receiverText depth owner receiver ++ "::" ++ name
  | .number value => value.text
  | .character value => Text.literal '\'' [value]
  | .string value => Text.literal '"' value.toList
  | .boolean value => if value then "true" else "false"
  | .null => "null"
  | .enclosed inner => "(" ++ text depth inner ++ ")"

def textOfParts (depth : Nat) : List Code → String
  | [] => ""
  | part :: rest => text depth part ++ textOfParts depth rest

/-- A block behind a keyword, if there is one. -/
def optional (depth : Nat) (keyword : String) : Option Code → String
  | some body => keyword ++ braces depth (text (depth + 1) body)
  | none => ""

/-- An expression behind a separator, if there is one. -/
def after (depth : Nat) (separator : String) : Option Code → String
  | some value => separator ++ text depth value
  | none => ""

/-- The receiver, or the class of a static member. -/
def receiverText (depth : Nat) (owner : String) : Option Code → String
  | some receiver => text depth receiver
  | none => classText owner

/-- Expressions between commas. -/
def list (depth : Nat) (first : Bool) : List Code → String
  | [] => ""
  | item :: rest => (if first then "" else ", ") ++ text depth item ++ list depth false rest

def sizes (depth : Nat) : List Code → String
  | [] => ""
  | size :: rest => "[" ++ text depth size ++ "]" ++ sizes depth rest

def caseLines (depth : Nat) : List (List Int32 × Code) → String
  | [] => ""
  | (keys, body) :: rest => keyLines depth keys ++ text (depth + 1) body ++ caseLines depth rest

def defaultLines (depth : Nat) : Option Code → String
  | some body => indent depth ++ "default:\n" ++ text (depth + 1) body
  | none => ""

def textOfClauses (depth : Nat) : List (Option String × Option String × Code) → String
  | [] => ""
  | (exception, caught, body) :: rest =>
    clauseHeader exception caught ++ braces depth (text (depth + 1) body) ++ textOfClauses depth rest

end

end Decompiler.Code
