import Decompiler.Graph.Disposal

/-!
Folding consecutive conditional jumps into conditions joined by connectives.
-/

namespace Decompiler.Graph

/-- A stack around its uppermost run of conditions: what lies above the run, the run, and what lies below,
all top first. -/
structure ConditionRun where
  above : List Operand
  run : List Operand
  below : List Operand

def ConditionRun.ofStack (stack : List Operand) : ConditionRun :=
  let downward := stack.reverse
  let above := downward.takeWhile (!·.isCondition)
  let rest := downward.dropWhile (!·.isCondition)
  { above, run := rest.takeWhile (·.isCondition), below := rest.dropWhile (·.isCondition) }

/-- Joins the conditions of a run from its top downwards. `latest` stands above the remaining ones; the
result is bottom first. -/
def joinRun (latest : Operand) : List Operand → SupplyM (List Operand)
  | [] => return [latest]
  | lower :: rest => do
    match lower.condition?, latest.condition? with
    | some left, some right =>
      if Condition.canMerge left right then
        joinRun (← Operand.ofCondition (← Condition.merge left right)) rest
      else return (← joinRun lower rest) ++ [latest]
    | _, _ => return (← joinRun lower rest) ++ [latest]

/-- The topmost condition of a node fails towards the destination of the node, unless it already jumps
there. -/
def completeTop (destination : Option NodeId) (test : Condition) : Condition :=
  if test.onFalse.isNone && test.onTrue != destination then { test with onFalse := destination }
  else test

/-- Joins the uppermost run of conditions of a node. If the joined run fills the node, and the node before it
ends in a condition that fails into this node and fits, then this node may be disposed of into the node
before it, which is yielded. -/
def joinTop (graph : Graph) (id : NodeId) : Option NodeId × Graph :=
  let node := graph.node id
  let parts := ConditionRun.ofStack node.stack
  match node.disposed, parts.run with
  | true, _ | _, [] => (none, graph)
  | false, top :: rest =>
    let destination := node.destination.bind Destination.node?
    let (joined, supply) := (joinRun (top.mapCondition (completeTop destination)) rest).run graph.supply
    let graph := { graph with supply }.update id fun node =>
      { node with stack := parts.below.reverse ++ joined ++ parts.above.reverse }
    let continues (previous : NodeId) :=
      match (graph.node previous).top?.bind Operand.condition?, joined.head?.bind Operand.condition? with
      | some tail, some head => tail.onFalse == some id && Condition.canMerge tail head
      | _, _ => false
    if parts.below.isEmpty && parts.above.isEmpty && node.disposable then
      (node.previous.filter continues, graph)
    else (none, graph)

/-- Folds conditions from a node on: joins its run, disposes of it into the node before it if it may be, and
goes on there. Yields the nodes disposed of, with the graph without them. -/
def mergeFrom : Nat → Graph → NodeId → List NodeId × Graph
  | 0, graph, _ => ([], graph)
  | fuel + 1, graph, id =>
    match graph.joinTop id with
    | (none, graph) => ([], graph)
    | (some previous, graph) =>
      let (disposed, graph) := graph.dispose id false true
      let (others, graph) := mergeFrom fuel graph previous
      (disposed ++ others, graph)

/-- Folds conditions from a node on. Every continuation disposes of a node, which bounds their number. -/
def merge (id : NodeId) : GraphM (List NodeId) :=
  modifyGet fun graph => mergeFrom (graph.nodes.size + 1) graph id

end Decompiler.Graph
