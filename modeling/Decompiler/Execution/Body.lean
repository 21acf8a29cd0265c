import Decompiler.Graph.Region
import Decompiler.Graph.Switch
import Decompiler.Local.Table

/-!
What is learned about one unit, and the record of how its nodes progressed.
-/

namespace Decompiler

/-- A unit after symbolic execution: its nodes with the operands left on them, its protected regions, its
switches and its locals. -/
structure MethodBody where
  signature : String
  /-- The declaring class, by internal name. -/
  owner : String
  name : String
  descriptor : MethodDescriptor
  isStatic : Bool
  graph : Graph := {}
  regions : Regions := {}
  switches : List SwitchTable := []
  locals : LocalVariables
  deriving Inhabited

namespace MethodBody

def isConstructor (body : MethodBody) : Bool := body.name == "<init>"

def switch? (body : MethodBody) (id : SwitchId) : Option SwitchTable := body.switches[id]?

end MethodBody

/-- When a node is recorded. -/
inductive Phase where
  /-- Its label was reached. -/
  | label
  /-- It became a statement. -/
  | folded

def Phase.name : Phase → String
  | .label => "label"
  | .folded => "structure"

/-- One record of progress. -/
inductive TraceEntry where
  /-- A node, with the graph as it was. -/
  | node (phase : Phase) (graph : Graph) (id : NodeId)
  /-- A pass is finished. -/
  | pass (message : String)

end Decompiler
