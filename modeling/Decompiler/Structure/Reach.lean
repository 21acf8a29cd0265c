import Decompiler.Graph.Basic

/-!
Which nodes control can reach, and whether the folding visited them as often as it had to.
-/

namespace Decompiler.Graph

/-- The nodes that control can pass to from a node, along an edge or to a handler. -/
def successors (graph : Graph) (id : NodeId) : List NodeId :=
  (graph.node id).outgoing ++
    graph.order.filter fun handler => (graph.node handler).handlerSources.contains id

def reachFrom (graph : Graph) : Nat → List NodeId → List NodeId → List NodeId
  | 0, _, seen => seen
  | _ + 1, [], seen => seen
  | fuel + 1, id :: waiting, seen =>
    let fresh := (graph.successors id).foldl (fun fresh next =>
      if (graph.node next).disposed || (seen ++ fresh).contains next then fresh else fresh ++ [next]) []
    graph.reachFrom fuel (waiting ++ fresh) (seen ++ fresh)

/-- The live nodes that control can reach from the entry, in order of appearance. Every node waits once,
which bounds the search. -/
def reachable (graph : Graph) : List NodeId :=
  match graph.entry? with
  | none => []
  | some entry =>
    let seen := graph.reachFrom (graph.capacity + 1) [entry] [entry]
    graph.order.filter seen.contains

/-- Every reachable node received the visits that it required, and no more. -/
def visitsConserved (graph : Graph) : Bool :=
  graph.reachable.all fun id =>
    let node := graph.node id
    node.visit.calls == node.requiredCalls

/-- The reachable nodes whose operands became no statement. -/
def unstructured (graph : Graph) : List NodeId :=
  graph.reachable.filter fun id =>
    let node := graph.node id
    !node.visit.isDone && !node.stack.isEmpty

end Decompiler.Graph
