import Decompiler.Graph.Node
import Decompiler.Operand.Condition

/-!
The node graph of a unit: an arena of nodes, the live ones in order of appearance, and the edges between
them, which both of their ends record.
-/

namespace Decompiler

structure Graph where
  nodes : Array Node := #[]
  /-- The live nodes in order of appearance. -/
  order : List NodeId := []
  labels : List (Label × NodeId) := []
  /-- Some edge changed since dominators were last remembered. -/
  stale : Bool := false
  /-- The dominator queries in progress, innermost first. A mark says that the result rests on a query
  further out that is not finished, so it must not be remembered. -/
  computing : List (NodeId × Bool) := []
  /-- Some walk along dominators was given up, since it would have gone on for ever. What was answered since is no
  answer. -/
  endless : Bool := false
  supply : Supply := {}
  deriving Inhabited

abbrev GraphM := StateM Graph

/-- New operands get their identities and type cells from the graph. -/
instance : MonadLift SupplyM GraphM where
  monadLift action := do
    let graph ← get
    let (result, supply) := action.run graph.supply
    set { graph with supply }
    return result

namespace Graph

/-- The node with a number; an empty node outside the arena. -/
def node (graph : Graph) (id : NodeId) : Node := graph.nodes.getD id {}

def update (graph : Graph) (id : NodeId) (change : Node → Node) : Graph :=
  { graph with nodes := graph.nodes.modify id change }

/-- The number of nodes ever made, disposed ones included. -/
def capacity (graph : Graph) : Nat := graph.nodes.size

/-- A bound on the steps of a search that takes every node and every edge once. -/
def searchBound (graph : Graph) : Nat :=
  graph.nodes.foldl (fun bound node => bound + node.outgoing.length + 1) 2

def entry? (graph : Graph) : Option NodeId := graph.order.head?

def typeOf (graph : Graph) (operand : Operand) : JvmType := graph.supply.types.typeOf operand.type

def labelNode? (graph : Graph) (label : Label) : Option NodeId := graph.labels.lookup label

/-- A new node outside the order of appearance. -/
def allocate (graph : Graph) (label : Option Label) (name : String) : NodeId × Graph :=
  (graph.nodes.size, { graph with nodes := graph.nodes.push { label, name } })

/-- The node of a label, made on first use. -/
def nodeOfLabel (graph : Graph) (label : Label) : NodeId × Graph :=
  match graph.labelNode? label with
  | some id => (id, graph)
  | none =>
    let (id, graph) := graph.allocate (some label) ("L" ++ toString label.toNat)
    (id, { graph with labels := (label, id) :: graph.labels })

/-- A new node without a label. -/
def createAnonymous (graph : Graph) : NodeId × Graph :=
  graph.allocate none ("N" ++ toString graph.nodes.size)

def position? (graph : Graph) (id : NodeId) : Option Nat := graph.order.idxOf? id

/-- The node has a place in the order of appearance. -/
def isPlaced (graph : Graph) (id : NodeId) : Bool := graph.order.contains id

/-- Makes two nodes neighbours in the order of appearance; one side may be missing. -/
def link (graph : Graph) (previous next : Option NodeId) : Graph :=
  let graph := match previous with
    | some id => graph.update id fun node => { node with next }
    | none => graph
  match next with
  | some id => graph.update id fun node => { node with previous }
  | none => graph

/-- Places a node at the end. -/
def append (graph : Graph) (id : NodeId) : Graph :=
  let linked := match graph.order.getLast? with
    | some last => graph.link (some last) (some id)
    | none => graph
  { linked with order := linked.order ++ [id] }

/-- Makes a node and places it right after another one. -/
def insertAfter (graph : Graph) (after : NodeId) : NodeId × Graph :=
  let (id, graph) := graph.createAnonymous
  let next := (graph.node after).next
  let place := (graph.position? after).elim graph.order.length (· + 1)
  let placed := { graph with order := graph.order.insertIdx place id }
  (id, (placed.link (some after) (some id)).link (some id) next)

/-- Makes a node and places it right before another one. -/
def insertBefore (graph : Graph) (before : NodeId) : NodeId × Graph :=
  let (id, graph) := graph.createAnonymous
  let previous := (graph.node before).previous
  let place := (graph.position? before).getD 0
  let placed := { graph with order := graph.order.insertIdx place id }
  (id, (placed.link previous (some id)).link (some id) (some before))

def removeFromOrder (graph : Graph) (id : NodeId) : Graph :=
  { graph with order := graph.order.erase id }

/-- Adds an edge, once. -/
def connect (graph : Graph) (source target : NodeId) : Graph :=
  if (graph.node source).outgoing.contains target then graph
  else
    let graph := graph.update source fun node => { node with outgoing := node.outgoing ++ [target] }
    let graph := graph.update target fun node => { node with incoming := node.incoming ++ [source] }
    { graph with stale := true }

/-- Adds the edge to a destination; the end of control has none. -/
def connectTo (graph : Graph) (source : NodeId) : Destination → Graph
  | .node target => graph.connect source target
  | .termination => graph

/-- Removes an edge with its mark as a back-edge. -/
def disconnect (graph : Graph) (source target : NodeId) : Graph :=
  let had := (graph.node source).outgoing.contains target
  let graph := graph.update source fun node =>
    { node with outgoing := node.outgoing.filter (· != target) }
  let graph := graph.update target fun node =>
    { node with incoming := node.incoming.filter (· != source)
                backedges := node.backedges.filter (· != source) }
  { graph with stale := graph.stale || had }

/-- Lets the start of a protected region count as a predecessor of its handler for dominance. -/
def addHandlerEdge (graph : Graph) (start handler : NodeId) : Graph :=
  if start = handler ∨ (graph.node handler).handlerSources.contains start then graph
  else
    let graph := graph.update handler fun node =>
      { node with handlerSources := node.handlerSources ++ [start] }
    { graph with stale := true }

def setDestination (graph : Graph) (id : NodeId) (destination : Destination) : Graph :=
  graph.update id fun node => { node with destination := some destination }

/-- Where a reference to a node leads once the node is gone: to its destination, or to its neighbour if it
ends control. -/
def resolvedDestination? (graph : Graph) (id : NodeId) : Option NodeId :=
  let node := graph.node id
  match node.destination with
  | some (.node target) => some target
  | some .termination => node.next
  | none => node.outgoing.head? <|> node.next

/-- Puts a new node on the edge from one node to another. The conditions that jumped along the edge now
jump to the new node. -/
def createConnector (graph : Graph) (source target : NodeId) : NodeId × Graph :=
  let (id, graph) := graph.insertAfter source
  let name := (graph.node source).name ++ "*" ++ (graph.node target).name
  let wasBack := (graph.node target).backedges.contains source
  let graph := graph.update id fun node => { node with name, disposable := false }
  let graph := ((graph.disconnect source target).connect source id).connect id target
  let graph := if wasBack then
      graph.update target fun node => { node with backedges := node.backedges ++ [id] }
    else graph
  let graph := graph.setDestination id (.node target)
  let graph := graph.update source fun node =>
    { node with
      destination := if node.destination = some (.node target) then some (.node id)
        else node.destination
      stack := node.stack.map (Operand.retarget target (some id)) }
  (id, graph)

/-- Some way along edges leads from the waiting nodes to the goal without entering a closed node. -/
def search (graph : Graph) (goal : NodeId) : Nat → List NodeId → List NodeId → Bool
  | 0, _, _ => false
  | _ + 1, [], _ => false
  | fuel + 1, current :: waiting, closed =>
    if current = goal then true
    else if closed.contains current then graph.search goal fuel waiting closed
    else
      graph.search goal fuel (waiting ++ (graph.node current).outgoing) (current :: closed)

/-- The goal can be reached, and every node before it lies outside the exclusions. -/
def canReach (graph : Graph) (source goal : NodeId) (exclusions : List NodeId) : Bool :=
  graph.search goal graph.searchBound [source] exclusions

def forwardIncoming (graph : Graph) (id : NodeId) : List NodeId := (graph.node id).forwardIncoming

/-- The number of edges that leave live nodes. -/
def edgeCount (graph : Graph) : Nat :=
  (graph.order.flatMap fun id => (graph.node id).outgoing).length

/-- The first edge of a live node that its other end does not record, or back-edge that is no edge. -/
def asymmetry? (graph : Graph) : Option String :=
  graph.order.findSome? fun id =>
    let node := graph.node id
    let outward := node.outgoing.find? fun target => !(graph.node target).incoming.contains id
    let inward := node.incoming.find? fun source => !(graph.node source).outgoing.contains id
    let back := node.backedges.find? fun source => !node.incoming.contains source
    match outward, inward, back with
    | some target, _, _ =>
      some (node.name ++ " -> " ++ (graph.node target).name ++ " has no incoming mirror")
    | none, some source, _ =>
      some (node.name ++ " <- " ++ (graph.node source).name ++ " has no outgoing mirror")
    | none, none, some source =>
      some ("back-edge " ++ (graph.node source).name ++ " -> " ++ node.name ++ " is not incoming")
    | none, none, none => none

end Graph

/-- Runs a change of the graph that makes a node. -/
def GraphM.create (action : Graph → NodeId × Graph) : GraphM NodeId := modifyGet action

end Decompiler
