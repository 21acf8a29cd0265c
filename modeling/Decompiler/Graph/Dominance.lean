import Decompiler.Graph.Basic

/-!
Immediate dominators, computed on demand and remembered until an edge changes, and the back-edges found
by a depth-first search.
-/

namespace Decompiler.Graph

/-- Forgets outdated dominators, unless a query is in progress. -/
def refreshDominance (graph : Graph) : Graph :=
  if graph.stale && graph.computing.isEmpty then
    { graph with nodes := graph.nodes.map fun node => { node with dominator := .unknown }, stale := false }
  else graph

/-- The predecessors that count for dominance: forward edges and the starts of handled regions. -/
def dominanceSources (graph : Graph) (id : NodeId) : List NodeId :=
  let node := graph.node id
  node.handlerSources.foldl (fun sources source =>
    if sources.contains source then sources else sources ++ [source]) node.forwardIncoming

/-- A query begins. -/
def enterQuery (graph : Graph) (id : NodeId) : Graph :=
  { graph.update id (fun node => { node with dominator := .computing }) with
    computing := (id, false) :: graph.computing }

/-- Marks the queries further in than the one for `id`, whose answers now rest on an unfinished one. -/
def taintWithin (graph : Graph) (id : NodeId) : Graph :=
  if graph.computing.any (·.1 == id) then
    let inner := graph.computing.takeWhile (·.1 != id)
    { graph with
      computing := inner.map (fun (node, _) => (node, true)) ++ graph.computing.drop inner.length }
  else graph

/-- A query ends. Its answer is remembered unless it is marked. -/
def leaveQuery (graph : Graph) (id : NodeId) (result : Option NodeId) : Graph :=
  let tainted := graph.computing.head?.any (·.2)
  let state : DominatorState := if tainted then .unknown else .known result
  { graph.update id (fun node => { node with dominator := state }) with
    computing := graph.computing.drop 1 }

/-- A walk is given up. -/
def giveUp (graph : Graph) : Graph := { graph with endless := true }

/-- Follows the steps from a node until the sought one; a step that comes back to a node ends the search
without success. -/
def onChain (step : NodeId → GraphM (Option NodeId)) (sought : NodeId) :
    Nat → List NodeId → NodeId → GraphM Bool
  | 0, _, _ => return false
  | fuel + 1, seen, id =>
    if seen.contains id then return false
    else if id = sought then return true
    else do
      match ← step id with
      | some next => onChain step sought fuel (id :: seen) next
      | none => return false

/-- The first node on the chain of a candidate that is on the chains of all others. A chain that comes back to one of
its nodes has no end, and the walk along it is given up: then there is no answer, which the graph tells from the answer
that there is no such node. -/
def firstCommon (step : NodeId → GraphM (Option NodeId)) (others : List NodeId) (bound : Nat) :
    Nat → NodeId → GraphM (Option NodeId)
  | 0, _ => do
    modify giveUp
    return none
  | fuel + 1, candidate => do
    if ← others.allM fun other => onChain step candidate bound [] other then
      return some candidate
    else
      match ← step candidate with
      | some next => firstCommon step others bound fuel next
      | none => return none

/-- The immediate dominator, by at most the given number of nested queries. A single source is the
dominator; of several sources it is the first node on the chain of the first one that is on the chains of
the others. -/
def dominatorWithin : Nat → NodeId → GraphM (Option NodeId)
  | 0, _ => return none
  | depth + 1, id => do
    modify refreshDominance
    let graph ← get
    match (graph.node id).dominator with
    | .known result => return result
    | .computing =>
      modify (·.taintWithin id)
      return none
    | .unknown =>
      modify (·.enterQuery id)
      let bound := graph.nodes.size + 2
      let result ← match graph.dominanceSources id with
        | [] => pure none
        | [source] => pure (some source)
        | source :: others => firstCommon (dominatorWithin depth) others bound (2 * bound) source
      modify (·.leaveQuery id result)
      return result

/-- The immediate dominator. Every nested query is for another node, which bounds the nesting. -/
def dominator (id : NodeId) : GraphM (Option NodeId) := do
  dominatorWithin ((← get).nodes.size + 2) id

/-- The candidate is on the dominator chain of the node, which begins with the node itself. -/
def hasDominator (id candidate : NodeId) : GraphM Bool := do
  onChain dominator candidate ((← get).nodes.size + 2) [] id

/-- The live nodes whose immediate dominator is the given one, in order of appearance. -/
def dominatorChildren (id : NodeId) : GraphM (List NodeId) := do
  (← get).order.filterM fun other => do
    if other = id then return false else return (← dominator other) == some id

/-- Follows the chain of a candidate until a node that dominates all others. -/
def commonDominatorFrom (others : List NodeId) : Nat → List NodeId → NodeId → GraphM (Option NodeId)
  | 0, _, _ => return none
  | fuel + 1, seen, candidate => do
    if seen.contains candidate then return none
    else if ← others.allM (hasDominator · candidate) then return some candidate
    else
      match ← dominator candidate with
      | some next => commonDominatorFrom others fuel (candidate :: seen) next
      | none => return none

/-- The deepest node that dominates all the given ones. -/
def lowestCommonDominator : List NodeId → GraphM (Option NodeId)
  | [] => return none
  | first :: others => do commonDominatorFrom others ((← get).nodes.size + 2) [] first

/-- The progress of a depth-first search: the nodes entered so far, and the current path, innermost first,
each node with its edges still to follow. -/
structure DepthFirst where
  graph : Graph
  entered : List NodeId := []
  path : List (NodeId × List NodeId) := []

namespace DepthFirst

def enter (search : DepthFirst) (id : NodeId) : DepthFirst :=
  { search with
    entered := id :: search.entered
    path := (id, (search.graph.node id).outgoing) :: search.path }

/-- Follows the next edge. An edge to a node on the path is marked as a back-edge. -/
def step (search : DepthFirst) : DepthFirst :=
  match search.path with
  | [] => search
  | (_, []) :: path => { search with path }
  | (id, target :: rest) :: outer =>
    let search := { search with path := (id, rest) :: outer }
    if search.path.any (·.1 == target) then
      { search with
        graph := search.graph.update target fun node =>
          if node.backedges.contains id then node
          else { node with backedges := node.backedges ++ [id] } }
    else if search.entered.contains target then search
    else search.enter target

def run : Nat → DepthFirst → DepthFirst
  | 0, search => search
  | fuel + 1, search => if search.path.isEmpty then search else run fuel search.step

end DepthFirst

/-- Marks the back-edges: edges to a node on the path of a depth-first search from the entry. Nodes that it
does not reach start searches of their own in order of appearance. -/
def computeBackedges (graph : Graph) : Graph :=
  let cleared := graph.order.foldl (fun graph id =>
    graph.update id fun node => { node with backedges := [] }) graph
  let searched := cleared.order.foldl (fun (search : DepthFirst) root =>
    if search.entered.contains root then search
    else (search.enter root).run (2 * cleared.searchBound)) { graph := cleared }
  { searched.graph with stale := true }

end Decompiler.Graph
