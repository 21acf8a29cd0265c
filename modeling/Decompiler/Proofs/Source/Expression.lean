import Decompiler.Proofs.Source.Token

/-!
Expressions of source text: their syntax trees, how they are written with as few parentheses as the strengths of
operators allow, and how they are read. The reader climbs precedences, on the tokens of a text.
-/

namespace Decompiler.Source

/-- Words that are no names. -/
def keywords : List String := [
  "abstract", "assert", "boolean", "break", "byte", "case", "catch", "char", "class", "const", "continue", "default",
  "do", "double", "else", "enum", "extends", "false", "final", "finally", "float", "for", "goto", "if", "implements",
  "import", "instanceof", "int", "interface", "long", "native", "new", "null", "package", "private", "protected",
  "public", "return", "short", "static", "strictfp", "super", "switch", "synchronized", "this", "throw", "throws",
  "transient", "true", "try", "void", "volatile", "while", "_"]

def primitives : List String := ["boolean", "byte", "char", "double", "float", "int", "long", "short"]

def isName (text : String) : Bool := isWord text && !keywords.contains text

/-- The name of a type: names between points, or a primitive type, and pairs of brackets behind it. -/
structure TypeName where
  first : String
  members : List String := []
  dimensions : Nat := 0
  deriving DecidableEq

inductive Expression where
  | name (text : String)
  | number (value : Int)
  | binary (left : Expression) (operator : BinaryOperator) (right : Expression)
  | unary (operator : UnaryOperator) (value : Expression)
  | assign (target : Expression) (operator : AssignOperator) (value : Expression)
  | ternary (test onTrue onFalse : Expression)
  | cast (type : String) (value : Expression)
  | instanceOf (value : Expression) (type : TypeName)
  | element (array index : Expression)
  | length (array : Expression)
  | newArray (element : TypeName) (size : Expression)
  deriving DecidableEq

namespace TypeName

/-- Names behind points. -/
def selections : List String → List Piece
  | [] => []
  | name :: names => some (.symbol .point) :: some (.word name) :: selections names

def path (type : TypeName) : List Piece := some (.word type.first) :: selections type.members

def brackets : Nat → List Piece
  | 0 => []
  | dimensions + 1 => some (.symbol .openBracket) :: some (.symbol .closeBracket) :: brackets dimensions

def pieces (type : TypeName) : List Piece := type.path ++ brackets type.dimensions

def WellFormed (type : TypeName) : Prop :=
  (isName type.first ∨ type.first ∈ primitives) ∧ ∀ name ∈ type.members, isName name

instance (type : TypeName) : Decidable type.WellFormed := inferInstanceAs (Decidable (_ ∧ _))

end TypeName

/-- The symbol of an operator. -/
def sign : UnaryOperator → Symbol
  | .negate => .binary .subtract
  | .not => .not
  | .bitNot => .bitNot
  | .preIncrement | .postIncrement => .increment
  | .preDecrement | .postDecrement => .decrement

namespace Expression

/-! ### Writing -/

/-- How tightly an expression binds. A negative number is written with the operator of negation. -/
def strength : Expression → Nat
  | assign .. => 1
  | ternary .. => 2
  | binary _ operator _ => operator.precedence
  | instanceOf .. => 9
  | cast .. => 13
  | unary operator _ => if operator.followsOperand then 15 else 14
  | number value => if value < 0 then 14 else 16
  | _ => 16

/-- Puts parentheses around what binds looser than its place asks for. -/
def enclose (strength minimum : Nat) (pieces : List Piece) : List Piece :=
  if strength < minimum then some (.symbol .openParen) :: (pieces ++ [some (.symbol .closeParen)]) else pieces

/-- A symbol between blanks. -/
def between (symbol : Symbol) : List Piece := [none, some (.symbol symbol), none]

def pieces : Expression → List Piece
  | name text => [some (.word text)]
  | number value =>
    if value < 0 then [some (.symbol (.binary .subtract)), some (.literal value.natAbs)]
    else [some (.literal value.natAbs)]
  | binary left operator right =>
    enclose left.strength operator.precedence left.pieces ++ between (.binary operator)
      ++ enclose right.strength (operator.precedence + 1) right.pieces
  | unary operator value =>
    if operator.followsOperand then enclose value.strength 15 value.pieces ++ [some (.symbol (sign operator))]
    else some (.symbol (sign operator)) :: enclose value.strength 14 value.pieces
  | assign target operator value =>
    enclose target.strength 16 target.pieces ++ between (.assign operator) ++ enclose value.strength 1 value.pieces
  | ternary test onTrue onFalse =>
    enclose test.strength 3 test.pieces ++ between .question ++ enclose onTrue.strength 3 onTrue.pieces
      ++ between .colon ++ enclose onFalse.strength 2 onFalse.pieces
  | cast type value =>
    [some (.symbol .openParen), some (.word type), some (.symbol .closeParen), none]
      ++ enclose value.strength 14 value.pieces
  | instanceOf value type =>
    enclose value.strength 10 value.pieces ++ [none, some (.word "instanceof"), none] ++ type.pieces
  | element array index =>
    enclose array.strength 16 array.pieces ++ [some (.symbol .openBracket)] ++ enclose index.strength 0 index.pieces
      ++ [some (.symbol .closeBracket)]
  | length array => enclose array.strength 16 array.pieces ++ [some (.symbol .point), some (.word "length")]
  | newArray type size =>
    [some (.word "new"), none] ++ type.path ++ [some (.symbol .openBracket)]
      ++ enclose size.strength 0 size.pieces ++ [some (.symbol .closeBracket)]

/-- The expression in a place that asks for a strength. -/
def placed (minimum : Nat) (expression : Expression) : List Piece :=
  enclose expression.strength minimum expression.pieces

/-! ### Reading -/

/-- What follows an operand. -/
inductive Suffix where
  | index
  | member
  | step (operator : UnaryOperator)
  | binary (operator : BinaryOperator)
  | instanceOf
  | conditional
  | assign (operator : AssignOperator)

/-- How tightly what follows binds to the operand before it. -/
def Suffix.level : Suffix → Nat
  | index => 17
  | member => 16
  | step _ => 15
  | binary operator => operator.precedence
  | instanceOf => 9
  | conditional => 2
  | assign _ => 1

/-- What the tokens go on with behind an operand. -/
def suffix? : List Token → Option (Suffix × List Token)
  | .symbol .openBracket :: rest => some (.index, rest)
  | .symbol .point :: rest => some (.member, rest)
  | .symbol .increment :: rest => some (.step .postIncrement, rest)
  | .symbol .decrement :: rest => some (.step .postDecrement, rest)
  | .symbol (.binary operator) :: rest => some (.binary operator, rest)
  | .symbol .question :: rest => some (.conditional, rest)
  | .symbol (.assign operator) :: rest => some (.assign operator, rest)
  | .word text :: rest => if text = "instanceof" then some (.instanceOf, rest) else none
  | _ => none

/-- The operator in front of an operand. -/
def operator? : Symbol → Option UnaryOperator
  | .binary .subtract => some .negate
  | .not => some .not
  | .bitNot => some .bitNot
  | .increment => some .preIncrement
  | .decrement => some .preDecrement
  | _ => none

/-- The operator applied. A minus in front of a number belongs to the number. -/
def apply : UnaryOperator → Expression → Expression
  | .negate, number value => number (-value)
  | operator, value => unary operator value

/-- A place can be assigned to. -/
def isPlace : Expression → Bool
  | name _ | element .. => true
  | _ => false

def expect (symbol : Symbol) : List Token → Option (List Token)
  | .symbol next :: rest => if next = symbol then some rest else none
  | _ => none

/-- The type of a cast to a primitive type, behind the parenthesis that opens it. -/
def castType? : List Token → Option (String × List Token)
  | .word type :: .symbol .closeParen :: rest => if type ∈ primitives then some (type, rest) else none
  | _ => none

def readMembers : List Token → List String × List Token
  | .symbol .point :: .word member :: rest => (member :: (readMembers rest).1, (readMembers rest).2)
  | rest => ([], rest)

def readDimensions : List Token → Nat × List Token
  | .symbol .openBracket :: .symbol .closeBracket :: rest => ((readDimensions rest).1 + 1, (readDimensions rest).2)
  | rest => (0, rest)

/-- The name of a type without brackets. -/
def readPath : List Token → Option (TypeName × List Token)
  | .word first :: rest =>
    if isName first ∨ first ∈ primitives then
      some ({ first, members := (readMembers rest).1 }, (readMembers rest).2)
    else none
  | _ => none

/-- What an operand and what follows it make together. -/
def readSuffix (readOperand : Nat → List Token → Option (Expression × List Token)) (left : Expression) :
    Suffix → List Token → Option (Expression × List Token)
  | .index, rest => do
    let (index, rest) ← readOperand 0 rest
    let rest ← expect .closeBracket rest
    return (element left index, rest)
  | .member, .word member :: rest => if member = "length" then some (length left, rest) else none
  | .member, _ => none
  | .step operator, rest => some (unary operator left, rest)
  | .binary operator, rest => do
    let (right, rest) ← readOperand (operator.precedence + 1) rest
    return (binary left operator right, rest)
  | .instanceOf, rest => do
    let (path, rest) ← readPath rest
    -- What is a less than sign here would open the arguments of the type.
    if (readDimensions rest).2.head? = some (.symbol (.binary .less)) then none
    else some (instanceOf left { path with dimensions := (readDimensions rest).1 }, (readDimensions rest).2)
  | .conditional, rest => do
    let (onTrue, rest) ← readOperand 0 rest
    let rest ← expect .colon rest
    let (onFalse, rest) ← readOperand 2 rest
    return (ternary left onTrue onFalse, rest)
  | .assign operator, rest =>
    if left.isPlace then do
      let (value, rest) ← readOperand 1 rest
      return (assign left operator value, rest)
    else none

mutual

/-- The expression at the start of the tokens, as far as what follows binds tightly enough. -/
def readOperand : Nat → Nat → List Token → Option (Expression × List Token)
  | fuel + 1, minimum, .literal value :: rest => readSuffixes fuel minimum (number value) rest
  | fuel + 1, minimum, .symbol .openParen :: rest =>
    match castType? rest with
    | some (type, rest) => do
      let (value, rest) ← readOperand fuel 14 rest
      readSuffixes fuel minimum (cast type value) rest
    | none => do
      let (inner, rest) ← readOperand fuel 0 rest
      let rest ← expect .closeParen rest
      readSuffixes fuel minimum inner rest
  | fuel + 1, minimum, .symbol symbol :: rest => do
    let operator ← operator? symbol
    let (value, rest) ← readOperand fuel 14 rest
    readSuffixes fuel minimum (apply operator value) rest
  | fuel + 1, minimum, .word text :: rest =>
    if text = "new" then do
      let (type, rest) ← readPath rest
      let rest ← expect .openBracket rest
      let (size, rest) ← readOperand fuel 0 rest
      let rest ← expect .closeBracket rest
      -- A second pair of brackets would make it an array of arrays.
      if rest.head? = some (.symbol .openBracket) then none
      else readSuffixes fuel minimum (newArray type size) rest
    else if isName text then readSuffixes fuel minimum (name text) rest
    else none
  | _, _, _ => none

/-- Goes on behind an operand while what follows binds tightly enough. -/
def readSuffixes : Nat → Nat → Expression → List Token → Option (Expression × List Token)
  | 0, _, _, _ => none
  | fuel + 1, minimum, left, tokens =>
    match suffix? tokens with
    | none => some (left, tokens)
    | some (suffix, rest) =>
      if suffix.level < minimum then some (left, tokens)
      else do
        let (expression, rest) ← readSuffix (readOperand fuel) left suffix rest
        readSuffixes fuel minimum expression rest

end

/-- The expression that a text is. -/
def read (text : String) : Option Expression := do
  let tokens ← tokens text.toList
  match readOperand (tokens.length + 1) 0 tokens with
  | some (expression, []) => some expression
  | _ => none

end Expression

end Decompiler.Source
