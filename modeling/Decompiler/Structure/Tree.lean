import Decompiler.Operand.Basic
import Decompiler.Graph.Node

/-!
The tree of nested statements that a node graph is folded into. Statements stand in an arena and name
each other by their places; place zero is always the empty statement.
-/

namespace Decompiler

inductive BreakableKind where
  | loop
  | switch
  deriving DecidableEq, Inhabited

/-- A loop or switch that a jump can leave or repeat. -/
structure Breakable where
  kind : BreakableKind
  /-- The node that dominates every node of the construct. -/
  entrance : NodeId
  /-- The first node inside the construct. -/
  first : NodeId
  exit : Option NodeId
  /-- The node of the condition or the updates of a loop. -/
  checkpoint : Option NodeId
  /-- Some jump leaves or repeats this construct from inside a nested one. -/
  labeled : Bool := false
  deriving Inhabited

namespace Breakable

/-- A jump to the node begins the construct anew. -/
def hasHeader (breakable : Breakable) (id : NodeId) : Bool :=
  id == breakable.entrance || id == breakable.first || some id == breakable.checkpoint

def label (breakable : Breakable) : String := "l" ++ toString breakable.entrance

end Breakable

structure SwitchArm where
  keys : List Int32
  body : StructureId

structure CatchArm where
  /-- The caught type by internal name; none for a finally block. -/
  exception : Option String
  caught? : Option VariableId
  body : StructureId

namespace CatchArm

/-- The arms that catch a type. -/
def clauses (catches : List CatchArm) : List CatchArm := catches.filter fun arm => arm.exception.isSome

/-- The finally block. Of several ones the last is it. -/
def finally? (catches : List CatchArm) : Option CatchArm :=
  (catches.filter fun arm => arm.exception.isNone).getLast?

end CatchArm

/-- One statement. Those with a `follow` go on with it. -/
inductive Structure where
  | empty
  /-- The statements of one node. -/
  | fragment (node : NodeId) (follow : StructureId)
  | conditional (node : NodeId) (test : Operand) (body : StructureId)
      (otherwise : Option StructureId) (follow : StructureId)
  | whileLoop (node : NodeId) (breakable : BreakableId) (test : Operand) (body follow : StructureId)
  | doWhile (node : NodeId) (breakable : BreakableId) (body : StructureId) (test : Operand)
      (follow : StructureId)
  | forLoop (node : NodeId) (breakable : BreakableId) (initializer : Option Operand) (test : Operand)
      (updates : List Operand) (body follow : StructureId)
  | forEach (node : NodeId) (breakable : BreakableId) (element iterable : Operand)
      (body follow : StructureId)
  | forever (node : NodeId) (breakable : BreakableId) (body follow : StructureId)
  /-- A switch; one that is an expression is written where its value is used. -/
  | switch (node : NodeId) (breakable : BreakableId) (selector : Operand) (cases : List SwitchArm)
      (default : Option StructureId) (expression : Bool) (follow : StructureId)
  | protect (node : NodeId) (body : StructureId) (catches : List CatchArm) (follow : StructureId)
  | breaks (breakable : BreakableId) (labeled : Bool)
  | continues (breakable : BreakableId) (labeled : Bool)

instance : Inhabited Structure := ⟨.empty⟩

namespace Structure

/-- The place of the empty statement. -/
def emptyId : StructureId := 0

def isEmpty : Structure → Bool
  | .empty => true
  | _ => false

/-- The statement that control reaches after this one. -/
def follow? : Structure → Option StructureId
  | .empty | .breaks .. | .continues .. => none
  | .fragment _ follow | .conditional _ _ _ _ follow | .whileLoop _ _ _ _ follow
  | .doWhile _ _ _ _ follow | .forLoop _ _ _ _ _ _ follow | .forEach _ _ _ _ _ follow
  | .forever _ _ _ follow | .switch _ _ _ _ _ _ follow | .protect _ _ _ follow => some follow

/-- The body of a loop, with the loop as a breakable. -/
def loopBody? : Structure → Option (BreakableId × StructureId)
  | .whileLoop _ breakable _ body _ | .doWhile _ breakable body _ _
  | .forLoop _ breakable _ _ _ body _ | .forEach _ breakable _ _ body _
  | .forever _ breakable body _ => some (breakable, body)
  | _ => none

/-- The short name of the kind of a statement. -/
def kindName : Structure → String
  | .empty => "Empty"
  | .fragment .. => "Fragment"
  | .conditional .. => "If"
  | .whileLoop .. => "While"
  | .doWhile .. => "DoWhile"
  | .forLoop .. => "For"
  | .forEach .. => "EnhancedFor"
  | .forever .. => "InfiniteLoop"
  | .switch .. => "Switch"
  | .protect .. => "Try"
  | .breaks .. => "Break"
  | .continues .. => "Continue"

end Structure

/-- A folded unit: the arena of its statements, its breakables and the first statement. -/
structure StructureTree where
  structures : Array Structure := #[.empty]
  breakables : Array Breakable := #[]
  root : StructureId := Structure.emptyId
  deriving Inhabited

namespace StructureTree

def get (tree : StructureTree) (id : StructureId) : Structure := tree.structures.getD id .empty

def breakable (tree : StructureTree) (id : BreakableId) : Breakable := tree.breakables.getD id default

/-- The label of a breakable, if some jump needs it. -/
def label? (tree : StructureTree) (id : BreakableId) : Option String :=
  let breakable := tree.breakable id
  if breakable.labeled then some breakable.label else none

/-- Nothing but the empty statement was made. -/
def isEmpty (tree : StructureTree) : Bool := tree.structures.size ≤ 1

def chainFrom (tree : StructureTree) : Nat → StructureId → List StructureId
  | 0, _ => []
  | fuel + 1, id =>
    if id = Structure.emptyId then []
    else id :: ((tree.get id).follow?.elim [] (tree.chainFrom fuel))

/-- A statement and those that follow it. Every statement stands before the one that it follows in the
arena, which bounds the chain. -/
def chain (tree : StructureTree) (id : StructureId) : List StructureId :=
  tree.chainFrom (tree.structures.size + 1) id

/-- The switch on a node. -/
def switchAt? (tree : StructureTree) (head : NodeId) : Option Structure :=
  tree.structures.find? fun
    | .switch node .. => node == head
    | _ => false

/-- The first statement of a kind. -/
def findKind? (tree : StructureTree) (kind : String) : Option StructureId :=
  tree.structures.findIdx? (·.kindName == kind)

end StructureTree

end Decompiler
