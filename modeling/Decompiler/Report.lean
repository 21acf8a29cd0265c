import Decompiler.Decompile
import Decompiler.Event.Feed
import Decompiler.Filter
import Decompiler.Graph.Dot
import Decompiler.Graph.Dump

/-!
Reports about the units of a feed: their listings, or their node graphs with a drawing of each.
-/

namespace Decompiler

/-- The units of a feed whose signature the pattern selects. -/
def selectUnits (feed : String) (pattern : Option String) : Except ParseFault (List CompiledUnit) := do
  let units ← Feed.parseUnits feed
  match pattern with
  | none => return units
  | some pattern =>
    match Filter.ofPattern? pattern with
    | some filter => return units.filter fun unit => filter.selects unit.signature
    | none => throw (.filter pattern)

namespace UnitOutcome

def failed (outcome : UnitOutcome) : Bool := outcome.result matches .error _

/-- The listing of a unit, or a comment that says why there is none, below its signature. -/
def text (outcome : UnitOutcome) : String :=
  let body := match outcome.result with
    | .ok listing => listing
    | .error error => "// decompilation failed: " ++ error.message ++ "\n"
  "// " ++ outcome.signature ++ "\n" ++ body

end UnitOutcome

/-- The listings of a batch with empty lines between them. -/
def listingReport (outcomes : List UnitOutcome) : String :=
  "\n".intercalate (outcomes.map UnitOutcome.text)

/-- A file to be written. -/
structure TextFile where
  path : String
  content : String
  deriving DecidableEq

/-- How drawings of node graphs are written. -/
structure DrawingOptions where
  directory : String
  /-- Show the operands of each node. -/
  details : Bool

namespace GraphReport

/-- The name of the drawing of a unit at its place in a batch. -/
def fileName (index : Nat) (unit : CompiledUnit) : String :=
  let name := unit.name.map fun c => if c.isAlphanum then c else '_'
  "unit_" ++ toString index ++ "_" ++ name ++ ".dot"

def pathIn (directory name : String) : String :=
  if directory.isEmpty || directory.endsWith "/" then directory ++ name else directory ++ "/" ++ name

/-- The sizes of a graph and its nodes, one a line. -/
def summary (body : MethodBody) : GraphM String := do
  let graph ← get
  let lines ← graph.order.mapM Graph.describe
  return "  Nodes: " ++ toString graph.order.length ++ "\n"
    ++ "  Edges: " ++ toString graph.edgeCount ++ "\n"
    ++ "  Protected regions: " ++ toString body.regions.list.length ++ "\n"
    ++ "  Switches: " ++ toString body.switches.length ++ "\n"
    ++ String.join (lines.map fun line => "    " ++ line ++ "\n")

/-- The report on one unit, and its drawing if drawings are wanted. -/
def ofUnit (drawings : Option DrawingOptions) (index : Nat) (unit : CompiledUnit) :
    String × Option TextFile :=
  let title := unit.signature ++ ":\n"
  match (MethodBody.ofUnit unit { options := {}, symbols := .descriptors }).1 with
  | .error error => (title ++ "  failed: " ++ error.message ++ "\n", none)
  | .ok body =>
    let (lines, graph) := (summary body).run body.graph
    if graph.endless then (title ++ "  failed: " ++ (Error.endless body.signature).message ++ "\n", none)
    else match drawings with
    | none => (title ++ lines, none)
    | some { directory, details } =>
      let path := pathIn directory (fileName index unit)
      (title ++ lines ++ "  DOT written to " ++ path ++ "\n",
        some { path, content := Dot.render graph { details } })

end GraphReport

/-- The report on the graphs of a batch, and their drawings. -/
def graphReport (drawings : Option DrawingOptions) (units : List CompiledUnit) :
    String × List TextFile :=
  let parts := units.zipIdx.map fun (unit, index) => GraphReport.ofUnit drawings index unit
  (String.join (parts.map (·.1)), parts.filterMap (·.2))

end Decompiler
