import Decompiler.Graph.Basic
import Decompiler.Operand.Traversal

/-!
Removing a node from the graph. Its predecessors are connected to its successors, and every reference to
it leads to its destination instead.
-/

namespace Decompiler.Graph

/-- Lets every edge, mark, destination and condition that names a node name its destination instead, or
nothing if there is none. -/
def redirectReferences (graph : Graph) (target : NodeId) (destination : Option NodeId) : Graph :=
  graph.order.foldl (fun graph id =>
    graph.update id fun node =>
      { node with
        destination := if node.destination = some (.node target) then destination.map .node
          else node.destination
        backedges := node.backedges.filter (· != target)
        handlerSources := node.handlerSources.filter (· != target)
        stack := node.stack.map (Operand.redirect target destination) }) graph

/-- Connects a predecessor of a node to a successor of it. The new edge closes a cycle if one of the two
edges did. -/
def bypass (graph : Graph) (target source sink : NodeId) (closing : Bool) : Graph :=
  let graph := graph.connect source sink
  let closes := closing || (graph.node sink).backedges.contains target
  if closes && !(graph.node sink).backedges.contains source then
    graph.update sink fun node => { node with backedges := node.backedges ++ [source] }
  else graph

/-- Removes one node. Its operands go to the node before it unless they are to be cleared. -/
def disposeOne (graph : Graph) (target : NodeId) (clearStack : Bool) : Graph :=
  let node := graph.node target
  let destination := (graph.resolvedDestination? target).filter (· != target)
  let graph := (graph.removeFromOrder target).link node.previous node.next
  let sources := node.incoming.filter (· != target)
  let sinks := node.outgoing.filter (· != target)
  let graph := sources.foldl (fun graph source =>
    sinks.foldl (fun graph sink =>
      graph.bypass target source sink (node.backedges.contains source)) graph) graph
  let graph := node.incoming.foldl (fun graph source => graph.disconnect source target) graph
  let graph := node.outgoing.foldl (fun graph sink => graph.disconnect target sink) graph
  let graph := graph.redirectReferences target destination
  let graph := match node.previous with
    | some previous =>
      if clearStack then graph
      else graph.update previous fun before =>
        { before with stack := before.stack ++ (graph.node target).stack }
    | none => graph
  let graph := graph.update target fun node =>
    { node with stack := [], disposed := true, handlerSources := [] }
  { graph with stale := true }

/-- Removes a node and then, if that is asked for, the nodes before it as long as they are left empty.
Every removal disposes of a node, which bounds their number. -/
def disposeFrom : Nat → Graph → NodeId → (clearStack recursive : Bool) → List NodeId × Graph
  | 0, graph, _, _, _ => ([], graph)
  | fuel + 1, graph, target, clearStack, recursive =>
    if (graph.node target).disposed then ([], graph)
    else
      let previous := (graph.node target).previous
      let graph := graph.disposeOne target clearStack
      match previous with
      | some before =>
        if recursive && (graph.node before).stack.isEmpty && (graph.node before).disposable then
          let (disposed, graph) := disposeFrom fuel graph before clearStack recursive
          (target :: disposed, graph)
        else ([target], graph)
      | none => ([target], graph)

/-- The nodes disposed of, in order, and the graph without them. -/
def dispose (graph : Graph) (target : NodeId) (clearStack recursive : Bool) : List NodeId × Graph :=
  disposeFrom (graph.nodes.size + 1) graph target clearStack recursive

/-- Some edge, destination or condition of a live node names the node. -/
def isReferenced (graph : Graph) (target : NodeId) : Bool :=
  graph.order.any fun id =>
    let node := graph.node id
    node.incoming.contains target || node.outgoing.contains target
      || node.destination == some (.node target)
      || node.stack.any (·.mentionsTarget target)

end Decompiler.Graph
