import Decompiler.Graph.Dominance
import Decompiler.Operand.Display

/-!
Textual dumps of nodes. A dump shows the immediate dominators, so it may compute and remember some.
-/

namespace Decompiler.Graph

/-- The one-line description of a node. -/
def describe (id : NodeId) : GraphM String := do
  let dominator ← dominator id
  let graph ← get
  let node := graph.node id
  let names (ids : List NodeId) := ",".intercalate (ids.map fun id => (graph.node id).name)
  return node.name ++ " in[" ++ names node.incoming ++ "] out[" ++ names node.outgoing ++ "] back["
    ++ names node.backedges ++ "] dom[" ++ dominator.elim "" (fun id => (graph.node id).name)
    ++ "] \x7b" ++ "; ".intercalate (node.stack.map Operand.text) ++ "\x7d"

/-- The descriptions of all live nodes, one a line. -/
def dump : GraphM String := do
  let lines ← (← get).order.mapM describe
  return String.join (lines.map fun line => "  " ++ line ++ "\n")

end Decompiler.Graph
