import Decompiler.Event.Basic
import Decompiler.Operand.Basic

/-!
Nodes: the basic blocks of a unit with the operands left on their stacks, their edges, and what the
later passes note on them.
-/

namespace Decompiler

/-- The place of a protected region in its unit's list. -/
abbrev RegionId := Nat

/-- The place of a switch table in its unit's list. -/
abbrev SwitchId := Nat

/-- The number of a loop or switch that a jump can leave. -/
abbrev BreakableId := Nat

/-- The place of a statement in the arena of structured statements. -/
abbrev StructureId := Nat

/-- Where control goes after the last operand of a node. -/
inductive Destination where
  | node (id : NodeId)
  /-- The node ends by returning or throwing. -/
  | termination
  deriving DecidableEq

def Destination.node? : Destination → Option NodeId
  | .node id => some id
  | .termination => none

/-- What is remembered of the immediate dominator of a node. -/
inductive DominatorState where
  | unknown
  /-- Being computed; a query in between is answered by "none yet". -/
  | computing
  /-- Known; no dominator for the entry and for nodes that nothing leads to. -/
  | known (dominator : Option NodeId)
  deriving DecidableEq

/-- The visits that a node received while statements are folded. -/
structure Arrivals where
  /-- Predecessors whose edge was followed, each once. -/
  sources : List NodeId := []
  /-- Visits granted by an enclosing statement, such as a try for its handlers. -/
  additional : Nat := 0
  deriving DecidableEq

def Arrivals.count (arrivals : Arrivals) : Nat := arrivals.sources.length + arrivals.additional

/-- How far the folding of a node has come. -/
inductive VisitState where
  | unvisited
  /-- Visited, but not yet turned into a statement. -/
  | waiting (arrivals : Arrivals)
  | done (arrivals : Arrivals)
  deriving DecidableEq

namespace VisitState

def arrivals? : VisitState → Option Arrivals
  | .unvisited => none
  | .waiting arrivals | .done arrivals => some arrivals

/-- The visits so far; none before the first. -/
def arrivals (visit : VisitState) : Arrivals := visit.arrivals?.getD {}

def calls (visit : VisitState) : Nat := visit.arrivals.count

def isDone : VisitState → Bool
  | .done _ => true
  | _ => false

/-- Notes a visit along the edge from `source`, or an additional visit. An edge counts once. -/
def arrive (visit : VisitState) (source : Option NodeId) : VisitState :=
  let before := visit.arrivals
  let after : Arrivals := match source with
    | some source =>
      if before.sources.contains source then before
      else { before with sources := before.sources ++ [source] }
    | none => { before with additional := before.additional + 1 }
  if visit.isDone then .done after else .waiting after

/-- The node has become a statement; its visits are kept. -/
def finish (visit : VisitState) : VisitState := .done visit.arrivals

end VisitState

structure Node where
  /-- The label that the node was made for; none for a synthetic node. -/
  label : Option Label := none
  /-- The name in dumps. -/
  name : String := ""
  /-- The operands, bottom first. -/
  stack : List Operand := []
  incoming : List NodeId := []
  outgoing : List NodeId := []
  /-- Those incoming edges that close a cycle. -/
  backedges : List NodeId := []
  /-- The starts of the protected regions whose exceptions the node handles. They count for dominance but
  not for the folding of statements. -/
  handlerSources : List NodeId := []
  dominator : DominatorState := .unknown
  /-- The protected regions that start here. -/
  regions : List RegionId := []
  destination : Option Destination := none
  /-- The neighbours in the order of appearance. -/
  previous : Option NodeId := none
  next : Option NodeId := none
  /-- The loops and switches whose header, checkpoint or exit the node is. -/
  breakables : List BreakableId := []
  /-- The statement that the node became. -/
  statement : Option StructureId := none
  visit : VisitState := .unvisited
  /-- Visits to expect from enclosing statements, beside those along edges. -/
  additionalCalls : Nat := 0
  disposable : Bool := true
  disposed : Bool := false
  /-- The values of a switch expression come together here. -/
  yieldConvergence : Bool := false
  switch : Option SwitchId := none
  line : Option UInt32 := none
  deriving Inhabited

namespace Node

def isEmpty (node : Node) : Bool := node.stack.isEmpty

/-- The incoming edges that close no cycle. -/
def forwardIncoming (node : Node) : List NodeId :=
  node.incoming.filter fun source => !node.backedges.contains source

/-- The visits after which the node may become a statement. -/
def requiredCalls (node : Node) : Nat := node.forwardIncoming.length + node.additionalCalls

def top? (node : Node) : Option Operand := node.stack.getLast?

/-- The node holds conditions, and nothing else. -/
def isConditional (node : Node) : Bool := !node.stack.isEmpty && node.stack.all Operand.isCondition

end Node

end Decompiler
