import Decompiler.Code.Expression
import Decompiler.Code.Printer
import Decompiler.Execution.Body
import Decompiler.Structure.Nesting

/-!
Folded units as code, and the listing of a unit with its declaration.
-/

namespace Decompiler

/-- A unit after folding. -/
structure DecompiledMethod where
  body : MethodBody
  tree : StructureTree
  deriving Inhabited

namespace DecompiledMethod

/-- The code of one statement. `inner` gives the code of a statement with what follows it. -/
def codeOf (method : DecompiledMethod) (scope : Code.Scope) (inner : StructureId → Code)
    (statement : Structure) : Code :=
  let tree := method.tree
  let operand := Code.ofOperand scope 0
  let jumpLabel (id : BreakableId) (labeled : Bool) :=
    if labeled then some (tree.breakable id).label else none
  let arms (cases : List SwitchArm) := cases.map fun arm => (arm.keys, inner arm.body)
  match statement with
  | .empty => .sequence []
  | .fragment node _ =>
    let statements := (method.body.graph.node node).stack.filter (·.statement)
    .sequence (statements.map (Code.ofStatement scope))
  | .conditional _ test body otherwise _ =>
    let otherwise := otherwise.filter fun id => !(tree.get id).isEmpty
    .conditional (operand test) (inner body) (otherwise.map inner)
  | .whileLoop _ id test body _ => .whileLoop (tree.label? id) (operand test) (inner body)
  | .doWhile _ id body test _ => .doWhile (tree.label? id) (inner body) (operand test)
  | .forLoop _ id initializer test updates body _ =>
    .forLoop (tree.label? id) (initializer.map operand) (operand test) (updates.map operand) (inner body)
  | .forEach _ id element iterable body _ =>
    .forEach (tree.label? id) (operand element) (operand iterable) (inner body)
  | .forever _ id body _ => .forever (tree.label? id) (inner body)
  | .switch _ _ _ _ _ true _ => .sequence []
  | .switch _ id selector cases default false _ =>
    .switch (tree.label? id) (operand selector) (arms cases) (default.map inner)
  | .protect _ body catches _ =>
    .protect (inner body)
      ((CatchArm.clauses catches).map fun arm =>
        (arm.exception, arm.caught?.map method.body.locals.name, inner arm.body))
      ((CatchArm.finally? catches).map fun arm => inner arm.body)
  | .breaks id labeled => .breaks (jumpLabel id labeled)
  | .continues id labeled => .continues (jumpLabel id labeled)

mutual

/-- What the operands of a unit are written with. A switch expression is written with the arms of the
statement that its head became. -/
def scopeWithin (method : DecompiledMethod) : Nat → Code.Scope
  | 0 =>
    { types := method.body.graph.supply.types, locals := method.body.locals
      switchValue := fun _ => .null }
  | depth + 1 =>
    { types := method.body.graph.supply.types, locals := method.body.locals
      switchValue := fun head =>
        match method.tree.switchAt? head with
        | some (.switch _ _ selector cases default _ _) =>
          let inner := method.codeWithin depth
          .switchValue (Code.ofOperand (method.scopeWithin depth) 0 selector)
            (cases.map fun arm => (arm.keys, inner arm.body)) (default.map inner)
        | _ => .null }

/-- The code of a statement with what follows it, cut off at a depth of nesting. -/
def codeWithin (method : DecompiledMethod) : Nat → StructureId → Code
  | 0, _ => .sequence []
  | depth + 1, start =>
    let scope := method.scopeWithin depth
    let inner := method.codeWithin depth
    .sequence ((method.tree.chain start).map fun id => method.codeOf scope inner (method.tree.get id))

end

/-- The pieces written inside and after a piece. -/
def holds (method : DecompiledMethod) : Piece → List Piece := method.tree.holds method.body.graph

/-- A depth that no nesting of code exceeds if it ends at all: each statement may hold others, as such and as a
value. -/
def nestingBound (method : DecompiledMethod) : Nat := 2 * method.tree.structures.size + 2

/-- The unit can be written out. It can not if the value of a switch is used inside its own arms. -/
def isFinite (method : DecompiledMethod) : Bool :=
  endsWithin method.holds method.nestingBound (.statement method.tree.root)

/-- The code of the body of a unit, all of it or none. -/
def code? (method : DecompiledMethod) : Option Code :=
  if method.isFinite then some (method.codeWithin method.nestingBound method.tree.root) else none

/-- The text of the body of a unit. -/
def bodyText? (method : DecompiledMethod) : Option String := method.code?.map (·.text 0)

/-- The declaration of a unit up to its opening brace. -/
def header (method : DecompiledMethod) : String :=
  let body := method.body
  if body.name = "<clinit>" then "static \x7b\n"
  else
    let name :=
      if body.isConstructor then classText body.owner
      else body.descriptor.result.simpleName ++ " " ++ body.name
    let parameter (entry : LocalVariable) :=
      (body.graph.supply.types.typeOf entry.type).simpleName ++ " " ++ entry.name
    (if body.isStatic then "static " else "") ++ name ++ "("
      ++ ", ".intercalate (body.locals.parameters.map parameter) ++ ") \x7b\n"

/-- The listing of a unit. -/
def listing? (method : DecompiledMethod) : Option String :=
  method.code?.map fun code => method.header ++ code.text 1 ++ "\x7d\n"

end DecompiledMethod

end Decompiler
