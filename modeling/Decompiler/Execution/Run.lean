import Decompiler.Execution.Instruction
import Decompiler.Graph.Split
import Decompiler.Local.Placement

/-!
The execution of a whole unit, and what is done to its graph at the end: empty nodes are dropped, mixed
ones are split, back-edges are found, protected regions are resolved and locals are declared.
-/

namespace Decompiler.Execution

/-- Drops a node that came out empty, or splits it. -/
def settleNode (id : NodeId) (graph : Graph) : Graph :=
  let node := graph.node id
  if node.disposed then graph
  else if node.disposable && node.isEmpty then (graph.dispose id false false).2
  else (graph.splitMixed id).2

/-- Every node that is there at the end has its turn. -/
def settle (graph : Graph) : Graph := graph.order.foldl (fun graph id => settleNode id graph) graph

/-- Finishes the graph after the last event. -/
def finish : ExecutionM Unit := do
  changeGraph settle
  if (← get).graph.order.isEmpty then refuse .noInstructions
  changeGraph Graph.computeBackedges
  let options := (← read).options
  let regions ← (← get).regions.resolve options.removeFinallyDuplicates
  modify fun state => { state with regions }
  if options.placeDeclarations then
    let state ← get
    Placement.place state.locals state.regions state.switches
  if options.trace then
    modify fun state =>
      let message := toString state.graph.order.length ++ " nodes, " ++ toString state.graph.edgeCount
        ++ " edges, " ++ toString state.regions.list.length ++ " protected regions"
      { state with trace := .pass message :: state.trace }

/-- The state before the first event of a unit. -/
def initial (unit : CompiledUnit) (descriptor : MethodDescriptor) : Execution :=
  { signature := unit.signature, owner := unit.owner, name := unit.name, descriptor
    isStatic := unit.isStatic
    locals := LocalVariables.ofDescriptor unit.owner unit.isStatic descriptor }

/-- Executes the events of a unit and finishes its graph. -/
def runEvents (events : List Event) : ExecutionM Unit := do
  events.forM accept
  finish

end Decompiler.Execution

namespace Decompiler

/-- The outcome of executing a unit, and the records of its progress in order. -/
def MethodBody.ofUnit (unit : CompiledUnit) (setting : Setting) :
    Except Error MethodBody × List TraceEntry :=
  match MethodDescriptor.ofText? unit.descriptor with
  | none => (.error (.parse (.methodDescriptor unit.descriptor)), [])
  | some descriptor =>
    let (outcome, state) :=
      (Execution.runEvents unit.events setting).run.run (Execution.initial unit descriptor)
    (outcome.map fun _ => state.toMethodBody, state.trace.reverse)

end Decompiler
