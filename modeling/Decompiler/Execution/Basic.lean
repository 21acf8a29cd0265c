import Decompiler.Execution.Body
import Decompiler.Graph.Dump
import Decompiler.Graph.Merge
import Decompiler.Graph.Stack
import Decompiler.History
import Decompiler.Operand.Coercion
import Decompiler.Options
import Decompiler.Symbols

/-!
The state of symbolic execution and its operand stack. A unit is executed in one pass over its events;
operands are left on the node that is current.
-/

namespace Decompiler

structure Execution extends MethodBody where
  /-- The node that instructions are appended to. -/
  current : Option NodeId := none
  history : InstructionHistory := .empty
  slots : SlotHistory := .empty
  /-- The next jump skips a disabled assertion. -/
  assertJump : Bool := false
  /-- The next object created is the error of an assertion. -/
  assertNew : Bool := false
  /-- The node made for the failing branch of an assertion. -/
  assertNode : Option NodeId := none
  /-- The records of progress, latest first. -/
  trace : List TraceEntry := []

/-- What an execution is given beside the unit. -/
structure Setting where
  options : Options := {}
  symbols : Symbols := .descriptors

/-- Steps of an execution. The state reached is kept when a step fails. -/
abbrev ExecutionM := ReaderT Setting (ExceptT Error (StateM Execution))

instance : MonadLift GraphM ExecutionM where
  monadLift action := modifyGetThe Execution fun state =>
    let (result, graph) := action.run state.graph
    (result, { state with graph })

/-- The state of the steps is the execution, not the graph inside it. -/
instance : MonadState Execution ExecutionM where
  get := getThe Execution
  set state := set state
  modifyGet change := modifyGetThe Execution change

namespace Execution

/-- Gives up on the unit, with a dump of its nodes. -/
def refuse {α : Type} (fault : IdiomFault) : ExecutionM α := do
  let nodes ← Graph.dump
  throw (.unsupportedIdiom (← get).signature fault nodes)

def changeGraph (change : Graph → Graph) : ExecutionM Unit :=
  modify fun state => { state with graph := change state.graph }

/-- The node with a number. -/
def node (id : NodeId) : ExecutionM Node := return (← get).graph.node id

/-- The current node. A unit that does not begin with a label gets a head node of its own. -/
def here : ExecutionM NodeId := do
  match (← get).current with
  | some id => return id
  | none =>
    let id ← GraphM.create Graph.createAnonymous
    modify fun state =>
      { state with
        graph := state.graph.append id, history := state.history.record .label, current := some id }
    return id

/-- Enters an instruction into the history. -/
def record (op : Opcode) : ExecutionM Unit := do
  discard here
  modify fun state => { state with history := state.history.record op }

/-- The latest instructions satisfy a template. -/
def endsIn (template : List Pattern) : ExecutionM Bool :=
  return (← get).history.endsInTemplate template

def push (operand : Operand) : ExecutionM Unit := do
  let here ← here
  changeGraph (·.push here operand)

def pushStatement (operand : Operand) : ExecutionM Unit := push operand.asStatement

/-- Takes the value at a depth; of a duplicated value one copy stays. -/
def pop (depth : Nat) : ExecutionM Operand := do
  let here ← here
  match (← get).graph.pop? here depth with
  | some (operand, graph) =>
    modify fun state => { state with graph }
    return operand
  | none => refuse (.underflow depth)

/-- Takes the entry at a depth, duplicated or not. -/
def take (depth : Nat) : ExecutionM Operand := do
  let here ← here
  match (← get).graph.take? here depth with
  | some (operand, graph) =>
    modify fun state => { state with graph }
    return operand
  | none => refuse (.underflow depth)

def peek? (depth : Nat) : ExecutionM (Option Operand) := do
  let state ← get
  return state.current.bind fun here => state.graph.peek? here depth

/-- Replaces the entry at a depth, if there is one. -/
def changeEntry (depth : Nat) (change : Operand → Operand) : ExecutionM Unit := do
  let here ← here
  changeGraph (·.changeEntry here depth change)

def typeOf (operand : Operand) : ExecutionM JvmType := return (← get).graph.typeOf operand

/-- The nearest node before the given one that is not disposed of. -/
def liveBefore (graph : Graph) : Nat → Option NodeId → Option NodeId
  | fuel + 1, some id =>
    if (graph.node id).disposed then liveBefore graph fuel (graph.node id).previous else some id
  | _, _ => none

/-- Moves the current node back if it was disposed of. -/
def followDisposal (disposed : List NodeId) (fallback : Option NodeId) : ExecutionM Unit :=
  modify fun state =>
    if state.current.any disposed.contains then
      { state with current := liveBefore state.graph (state.graph.capacity + 1) fallback }
    else state

def dispose (id : NodeId) (clearStack : Bool) : ExecutionM Unit := do
  let state ← get
  let fallback := (state.graph.node id).previous
  let (disposed, graph) := state.graph.dispose id clearStack false
  set { state with graph }
  followDisposal disposed fallback

/-- Folds the conditions of a node. -/
def merge (id : NodeId) : ExecutionM Unit := do
  let fallback := (← node id).previous
  let disposed ← Graph.merge id
  followDisposal disposed fallback

/-- Folds the conditions of the node before a node. -/
def mergeBefore (id : NodeId) : ExecutionM Unit := do
  if let some previous := (← node id).previous then merge previous

def recordNode (phase : Phase) (id : NodeId) : ExecutionM Unit := do
  if (← read).options.trace then
    modify fun state => { state with trace := .node phase state.graph id :: state.trace }

/-- Takes the arguments of a call, the last one first. -/
def popArguments (parameters : List JvmType) : ExecutionM (List Operand) := do
  let arguments ← parameters.reverse.mapM fun type => do Operand.coerce (← pop 0) type
  return arguments.reverse

end Execution

end Decompiler
