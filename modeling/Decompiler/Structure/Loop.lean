import Decompiler.Operand.Traversal
import Decompiler.Structure.Folding

/-!
What is known about a loop from its header: the back-edges that close it, the node where control leaves
it, and the statements that update its variables.
-/

namespace Decompiler

/-- Back-edges of one header that close the same endless loop. -/
structure BackedgeGroup where
  members : List NodeId := []
  /-- The branch that the first back-edge was followed back to. -/
  base : Option NodeId := none
  /-- Where control leaves the loop. -/
  exit : Option NodeId := none

namespace BackedgeGroup

def branchFrom (graph : Graph) : Nat → List NodeId → NodeId → NodeId
  | 0, _, id => id
  | fuel + 1, seen, id =>
    let node := graph.node id
    match node.incoming, node.outgoing with
    | [previous], [_] =>
      if seen.contains previous then id else branchFrom graph fuel (previous :: seen) previous
    | _, _ => id

/-- Follows nodes with one entry and one exit backwards from the source of a back-edge. -/
def branchOf (graph : Graph) (source : NodeId) : NodeId :=
  branchFrom graph (graph.capacity + 1) [source] source

/-- Takes in back-edges until one belongs to another loop: its branch is neither a predecessor of the base
nor a dominator of it. -/
def gather (group : BackedgeGroup) : List NodeId → GraphM BackedgeGroup
  | [] => return group
  | source :: rest => do
    let graph ← get
    let branch := branchOf graph source
    match group.base with
    | none => gather { group with members := [source], base := some branch } rest
    | some base =>
      let joins ←
        if (graph.node base).incoming.contains branch then pure true else Graph.hasDominator base branch
      if joins then gather { group with members := group.members ++ [source] } rest
      else return group

/-- The first node, breadth-first, that the base does not dominate. -/
def exitFrom (base : NodeId) : Nat → List NodeId → List NodeId → GraphM (Option NodeId)
  | 0, _, _ => return none
  | _ + 1, [], _ => return none
  | fuel + 1, id :: waiting, seen => do
    if seen.contains id then exitFrom base fuel waiting seen
    else if !(← Graph.hasDominator id base) then return some id
    else
      let targets := ((← get).node id).outgoing
      exitFrom base fuel (waiting ++ targets) (id :: seen)

/-- Groups back-edges of a header, the latest incoming edge first. -/
def collect (entrance : NodeId) (backedges : List NodeId) : GraphM BackedgeGroup := do
  let incoming := ((← get).node entrance).incoming
  let group ← gather {} (incoming.reverse.filter backedges.contains)
  match group.base with
  | none => return group
  | some base =>
    let graph ← get
    let exit ← exitFrom base (2 * graph.searchBound) (graph.node base).outgoing (entrance :: incoming)
    return { group with exit }

end BackedgeGroup

namespace Loop

/-- The local that a statement assigns or steps. -/
def updated? (operand : Operand) : Option VariableId :=
  match operand.kind with
  | .unary _ value => value.asLocal?
  | .assign target _ _ => target.asLocal?
  | _ => none

/-- A statement that assigns or steps one of the locals. -/
def isUpdate (locals : List VariableId) (operand : Operand) : Bool :=
  let changes := match operand.kind with
    | .unary operator _ => operator.isIncrement
    | .assign .. => true
    | _ => false
  operand.statement && changes && (updated? operand).any locals.contains

/-- How many statements at the end of a stack update one of the locals that a condition reads. -/
def trailingUpdates (test : Operand) (stack : List Operand) : Nat :=
  let locals := test.walk.filterMap Operand.asLocal?
  (stack.reverse.takeWhile (isUpdate locals)).length

/-- The assignment at the end of a stack, if it initializes a local that the updates change. -/
def initializer? (updates stack : List Operand) : Option Operand := do
  let last ← stack.getLast?
  match last.kind with
  | .assign target .assign _ =>
    guard last.statement
    guard ((updates.filterMap updated?).contains (← target.asLocal?))
    return last
  | _ => none

end Loop

namespace Folding

/-- The node whose operands are exactly the last ones of a node before a back-edge. If there are more, they
move to a new node on the back-edge. -/
def isolateUpdates (source header : NodeId) (count : Nat) : FoldingM NodeId := do
  let stack := (← node source).stack
  if stack.length ≤ count then return source
  let kept := stack.length - count
  let created ← GraphM.create (·.createConnector source header)
  let moved := (← node source).stack.drop kept
  changeGraph fun graph =>
    (graph.mapStack source (·.take kept)).update created fun node => { node with stack := moved }
  return created

/-- Takes the initializer of a loop from the one node before its header. -/
def takeInitializer (header : NodeId) (updates : List Operand) : FoldingM (Option Operand) := do
  match (← currentGraph).forwardIncoming header with
  | [previous] =>
    match Loop.initializer? updates (← node previous).stack with
    | some initializer =>
      changeGraph (·.mapStack previous List.dropLast)
      return some initializer.asValue
    | none => return none
  | _ => return none

/-- The successor of a header that leads into the loop, and the one that leaves it; nothing if both lead to
the back-edge. -/
def bodyAndExit? (id : NodeId) (backedges : List NodeId) : FoldingM (Option (NodeId × NodeId)) := do
  let dominator ← Graph.dominator id
  let graph ← currentGraph
  match (graph.node id).outgoing, backedges.head?, backedges.getLast? with
  | [first, last], some source, some back =>
    let reaches (start : NodeId) := graph.canReach start back dominator.toList
    if reaches first && reaches last then return none
    if ← Graph.hasDominator source first then return some (first, last) else return some (last, first)
  | _, _, _ => return none

end Folding

end Decompiler
