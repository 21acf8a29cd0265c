import Decompiler.Graph.Basic
import Decompiler.Operand.Traversal
import Decompiler.Structure.Tree

/-!
What is written inside what. A statement is written where the one that names it is, and the arms of a switch expression
where the operand that stands for its value is. So a switch whose own arms use its value could never be written out.
-/

namespace Decompiler

/-- The head of the switch whose value the operand is. -/
def Operand.switchHead? (operand : Operand) : Option NodeId :=
  match operand.kind with
  | .switch head => some head
  | _ => none

/-- The heads of the switches whose values an operand is written with. -/
def Operand.switchHeads (operand : Operand) : List NodeId := operand.walk.filterMap Operand.switchHead?

/-- What is written at one place of the code. -/
inductive Piece where
  | statement (id : StructureId)
  /-- The switch at a head as a value. -/
  | value (head : NodeId)
  deriving DecidableEq

namespace Structure

/-- Places other than that of the empty statement. -/
def proper (ids : List StructureId) : List StructureId := ids.filter (· ≠ emptyId)

/-- The operands that are written with a statement. -/
def operands (graph : Graph) : Structure → List Operand
  | .fragment node _ => (graph.node node).stack.filter (·.statement)
  | .conditional _ test _ _ _ | .whileLoop _ _ test _ _ | .doWhile _ _ _ test _ => [test]
  | .forLoop _ _ initializer test updates _ _ => initializer.toList ++ test :: updates
  | .forEach _ _ element iterable _ _ => [element, iterable]
  | .switch _ _ selector _ _ _ _ => [selector]
  | .empty | .forever .. | .protect .. | .breaks .. | .continues .. => []

/-- The heads of the switches whose values are written with a statement. -/
def heads (graph : Graph) (statement : Structure) : List NodeId :=
  (statement.operands graph).flatMap Operand.switchHeads

/-- A switch that is written where its value is used. -/
def isExpression : Structure → Bool
  | .switch _ _ _ _ _ expression _ => expression
  | _ => false

/-- The statements that are written inside a statement. -/
def bodies : Structure → List StructureId
  | .empty | .fragment .. | .breaks .. | .continues .. => []
  | .conditional _ _ body otherwise _ => body :: otherwise.toList
  | .whileLoop _ _ _ body _ | .doWhile _ _ body _ _ | .forLoop _ _ _ _ _ body _ | .forEach _ _ _ _ body _
  | .forever _ _ body _ => [body]
  | .switch _ _ _ cases default _ _ => cases.map SwitchArm.body ++ default.toList
  | .protect _ body catches _ =>
    body :: (CatchArm.clauses catches ++ (CatchArm.finally? catches).toList).map CatchArm.body

/-- What is written inside a statement. -/
def contents (graph : Graph) (statement : Structure) : List Piece :=
  (statement.heads graph).map .value ++ (proper statement.bodies).map .statement

/-- What is written after a statement. -/
def rest (statement : Structure) : List Piece := (proper statement.follow?.toList).map .statement

end Structure

/-- The pieces written inside and after a piece. A switch expression is not written as a statement. -/
def StructureTree.holds (tree : StructureTree) (graph : Graph) : Piece → List Piece
  | .statement id =>
    let statement := tree.get id
    if statement.isExpression then statement.rest else statement.contents graph ++ statement.rest
  | .value head => (tree.switchAt? head).elim [] (Structure.contents graph)

/-- Every way into a piece ends in fewer steps. -/
def endsWithin {α : Type} (holds : α → List α) : Nat → α → Bool
  | 0, _ => false
  | bound + 1, piece => (holds piece).all (endsWithin holds bound)

end Decompiler
