import Decompiler.Graph.Basic

/-!
Splitting nodes that mix conditions and other operands, so that in the end a node holds conditions only or
none.
-/

namespace Decompiler.Graph

/-- Where the conditions among the operands jump to when they hold. -/
def jumpTargets (operands : List Operand) : List NodeId :=
  operands.filterMap fun operand => operand.condition?.bind Condition.onTrue

/-- Moves an edge to the upper node, unless the lower part jumps along it; then the upper node shares it
if it jumps along it too. -/
def moveEdge (lower upper : NodeId) (kept moved : List NodeId) (graph : Graph) (sink : NodeId) : Graph :=
  if !kept.contains sink then (graph.disconnect lower sink).connect upper sink
  else if moved.contains sink then graph.connect upper sink
  else graph

/-- Separates a node at the lowest boundary between conditions and other operands. The part above the
boundary moves to a new node after it, which takes the destination and the edges that the lower part does
not jump along. Yields the new node; nothing if the node is not mixed. -/
def split? (graph : Graph) (id : NodeId) : Option (NodeId × Graph) :=
  let node := graph.node id
  match node.stack with
  | [] => none
  | bottom :: _ =>
    let lower := node.stack.takeWhile (·.isCondition == bottom.isCondition)
    let upper := node.stack.dropWhile (·.isCondition == bottom.isCondition)
    if upper.isEmpty then none
    else
      let kept := if bottom.isCondition then jumpTargets lower else []
      let (created, graph) := graph.insertAfter id
      let graph := graph.update created fun node => { node with stack := upper }
      let graph := graph.update id fun node => { node with stack := lower }
      let graph := node.outgoing.foldl (moveEdge id created kept (jumpTargets upper)) graph
      let fail (test : Condition) : Condition := { test with onFalse := some created }
      let graph := graph.update id fun node =>
        { node with stack := node.stack.modify (node.stack.length - 1) (Operand.mapCondition fail) }
      let graph := (graph.connect id created).setDestination id (.node created)
      let graph := match node.destination with
        | some (.node target) => graph.connect created target
        | _ => graph
      let graph := graph.update created fun upper =>
        { upper with
          destination := node.destination, disposable := node.disposable, line := node.line }
      some (created, graph)

/-- Splits a node and what it is split into. Every split leaves fewer operands to the new node, which bounds
the number of splits. -/
def splitFrom : Nat → Graph → NodeId → List NodeId × Graph
  | 0, graph, _ => ([], graph)
  | fuel + 1, graph, id =>
    match graph.split? id with
    | some (created, graph) =>
      let (others, graph) := splitFrom fuel graph created
      (created :: others, graph)
    | none => ([], graph)

/-- The nodes made by splitting a node as often as it is mixed, and the graph with them. -/
def splitMixed (graph : Graph) (id : NodeId) : List NodeId × Graph :=
  splitFrom (graph.node id).stack.length graph id

end Decompiler.Graph
