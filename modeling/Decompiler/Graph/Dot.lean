import Decompiler.Graph.Basic
import Decompiler.Operand.Display

/-!
The graph in the DOT language.
-/

namespace Decompiler.Dot

inductive EdgeKind where
  /-- Taken when the condition of the node holds. -/
  | whenTrue
  | whenFalse
  /-- Closes a loop. -/
  | back
  /-- From the start of a protected region to a handler; for dominance only. -/
  | exception
  | unconditional
  deriving DecidableEq

structure Options where
  labels : Bool := true
  colors : Bool := true
  /-- Show the operands of each node. -/
  details : Bool := false

/-- The live nodes by label, numbered by their places, and the edges between them. -/
structure Drawing where
  labels : List String
  edges : List (Nat × Nat × EdgeKind)

def nodeLabel (node : Node) (details : Bool) : String :=
  if details then node.name ++ String.join (node.stack.map fun operand => "\\n" ++ operand.text)
  else node.name

/-- The kind of an edge that leaves a node. -/
def edgeKind (graph : Graph) (source target : NodeId) : EdgeKind :=
  if (graph.node target).backedges.contains source then .back
  else match (graph.node source).top?.bind Operand.condition? with
    | some test =>
      if test.onTrue = some target then .whenTrue
      else if test.onFalse = some target then .whenFalse
      else .unconditional
    | none => .unconditional

/-- The drawing of a graph. Edges to nodes that are not live are left out. -/
def drawing (graph : Graph) (options : Options) : Drawing :=
  let place (id : NodeId) := graph.position? id
  let edge (source target : NodeId) (kind : EdgeKind) : Option (Nat × Nat × EdgeKind) := do
    return (← place source, ← place target, kind)
  { labels := graph.order.map fun id => nodeLabel (graph.node id) options.details
    edges := graph.order.flatMap fun id =>
      ((graph.node id).outgoing.filterMap fun target => edge id target (edgeKind graph id target))
        ++ (graph.node id).handlerSources.filterMap fun source => edge source id .exception }

def escape (label : String) : String :=
  String.join (label.toList.map fun c => if c = '"' then "\\\"" else c.toString)

def edgeLabel? : EdgeKind → Option String
  | .whenTrue => some "T"
  | .whenFalse => some "F"
  | .back => some "Back"
  | .exception => some "Exc"
  | .unconditional => none

def edgeColor : EdgeKind → String
  | .whenTrue => "green"
  | .whenFalse => "red"
  | .back => "blue"
  | .exception => "purple"
  | .unconditional => "black"

def nodeLine (label : String) (index : Nat) : String :=
  "  " ++ toString index ++ " [label=\"" ++ escape label ++ "\"];\n"

def edgeLine (options : Options) (edge : Nat × Nat × EdgeKind) : String :=
  let (tail, head, kind) := edge
  let label := if options.labels then (edgeLabel? kind).toList.map ("label=\"" ++ · ++ "\"") else []
  let color := if options.colors then ["color=\"" ++ edgeColor kind ++ "\""] else []
  let style := if kind = .exception then ["style=dashed"] else []
  let attributes := label ++ color ++ style
  "  " ++ toString tail ++ " -> " ++ toString head
    ++ (if attributes.isEmpty then "" else " [" ++ ", ".intercalate attributes ++ "]") ++ ";\n"

def Drawing.text (drawing : Drawing) (options : Options) : String :=
  "digraph CFG \x7b\n  rankdir=TB;\n  node [shape=box];\n\n"
    ++ String.join (drawing.labels.zipIdx.map fun (label, index) => nodeLine label index)
    ++ "\n" ++ String.join (drawing.edges.map (edgeLine options)) ++ "\x7d\n"

/-- The DOT text of a graph. -/
def render (graph : Graph) (options : Options) : String := (drawing graph options).text options

end Decompiler.Dot
