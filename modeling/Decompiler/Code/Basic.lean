import Decompiler.Operand.Basic

/-!
Source code as nested pieces. Statements and expressions are pieces of one kind, since a switch may stand
for a value.
-/

namespace Decompiler

inductive Code where
  /-- Pieces one after another. -/
  | sequence (parts : List Code)
  /-- An expression evaluated for its effect. -/
  | statement (value : Code)
  | conditional (test body : Code) (otherwise : Option Code)
  | whileLoop (label : Option String) (test body : Code)
  | doWhile (label : Option String) (body test : Code)
  | forLoop (label : Option String) (initializer : Option Code) (test : Code) (updates : List Code)
      (body : Code)
  | forEach (label : Option String) (element iterable body : Code)
  | forever (label : Option String) (body : Code)
  | switch (label : Option String) (selector : Code) (cases : List (List Int32 × Code))
      (default : Option Code)
  /-- A switch as an expression. -/
  | switchValue (selector : Code) (cases : List (List Int32 × Code)) (default : Option Code)
  /-- A try statement. Each clause has the caught type by internal name and the name of its local; one
  without a type catches everything. -/
  | protect (body : Code) (clauses : List (Option String × Option String × Code))
      (finally_ : Option Code)
  | returns (value : Option Code)
  | throws (value : Code)
  | yields (value : Code)
  | breaks (label : Option String)
  | continues (label : Option String)
  | asserts (test : Code) (message : Option Code)
  | binary (left : Code) (symbol : String) (right : Code)
  | unary (symbol : String) (after : Bool) (value : Code)
  | assign (target : Code) (symbol : String) (value : Code)
  | call (receiver : Option Code) (owner name : String) (special : Bool) (arguments : List Code)
  | construct (kind : ConstructorKind) (owner : String) (arguments : List Code)
  | field (receiver : Option Code) (owner name : String)
  | element (array index : Code)
  | length (array : Code)
  | newArray (element : JvmType) (dimensions : List Code) (initializers : Option (List Code))
  | cast (type : JvmType) (value : Code)
  | instanceOf (value : Code) (type : JvmType)
  | localVariable (type : JvmType) (name : String) (declares : Bool)
  | this
  | classLiteral (type : JvmType)
  | ternary (test onTrue onFalse : Code)
  | lambda (interface owner name : String) (captures : List Code)
  | methodReference (receiver : Option Code) (owner name : String)
  | number (value : Number)
  | character (value : Char)
  | string (value : String)
  | boolean (value : Bool)
  | null
  /-- An expression in parentheses. -/
  | enclosed (inner : Code)

instance : Inhabited Code := ⟨.sequence []⟩

end Decompiler
