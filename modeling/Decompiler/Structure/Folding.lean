import Decompiler.Execution.Basic
import Decompiler.Structure.Tree

/-!
The state of folding, and the steps that every construct is folded with. A node becomes a statement once
all its predecessors, those along back-edges apart, have visited it and the visitor is its dominator, so
that it lies inside the construct that owns it.
-/

namespace Decompiler

structure Folding extends MethodBody where
  structures : Array Structure := #[.empty]
  breakables : Array Breakable := #[]
  /-- The breakables under construction, innermost first. -/
  active : List BreakableId := []
  /-- Where control goes on after the protected regions under construction, latest last. Only the
  statement of the region itself goes on there. -/
  regionExits : List NodeId := []
  /-- The records of progress, latest first. -/
  trace : List TraceEntry := []

/-- Steps of folding. -/
abbrev FoldingM := ReaderT Setting (ExceptT Error (StateM Folding))

instance : MonadLift GraphM FoldingM where
  monadLift action := modifyGetThe Folding fun state =>
    let (result, graph) := action.run state.graph
    (result, { state with graph })

/-- The state of the steps is the folding, not the graph inside it. -/
instance : MonadState Folding FoldingM where
  get := getThe Folding
  set state := set state
  modifyGet change := modifyGetThe Folding change

/-- How a visit of a node counts. -/
inductive Arrival where
  /-- Along an edge, which counts unless it is a back-edge. -/
  | edge
  /-- Granted by an enclosing statement. -/
  | additional
  /-- Counted elsewhere. -/
  | detached
  deriving DecidableEq

namespace Folding

def fail {α : Type} (fault : StructuralFault) : FoldingM α := do
  throw (.structural (← get).signature fault)

def changeGraph (change : Graph → Graph) : FoldingM Unit :=
  modify fun state => { state with graph := change state.graph }

def currentGraph : FoldingM Graph := return (← get).graph

def node (id : NodeId) : FoldingM Node := return (← get).graph.node id

/-- Enters a statement into the arena. -/
def push (statement : Structure) : FoldingM StructureId :=
  modifyGet fun state =>
    (state.structures.size, { state with structures := state.structures.push statement })

def fragment (id : NodeId) (follow : StructureId) : FoldingM StructureId := push (.fragment id follow)

def breakable (id : BreakableId) : FoldingM Breakable := return (← get).breakables.getD id default

/-- Notes a visit of a node. -/
def recordArrival (source next : NodeId) (arrival : Arrival) : FoldingM Unit :=
  changeGraph (·.update next fun node =>
    match arrival with
    | .edge =>
      if node.forwardIncoming.contains source then { node with visit := node.visit.arrive (some source) }
      else node
    | .additional =>
      if node.visit.arrivals.additional < node.additionalCalls then
        { node with visit := node.visit.arrive none }
      else node
    | .detached => node)

/-- Leaves a breakable, or repeats it. The jump needs a label if the innermost construct that it could
mean without one does not know the target. -/
def jump (id : BreakableId) (target : NodeId) (isContinue : Bool) : FoldingM StructureId := do
  let state ← get
  let innermost :=
    if isContinue then
      state.active.find? fun active => (state.breakables.getD active default).kind == .loop
    else state.active.head?
  let labeled := innermost.any fun active => !(state.graph.node target).breakables.contains active
  if labeled then
    set { state with
      breakables := state.breakables.modify id fun breakable => { breakable with labeled := true } }
  push (if isContinue then .continues id labeled else .breaks id labeled)

/-- Opens a loop or switch; its entrance, exit and checkpoint learn of it. -/
def openBreakable (kind : BreakableKind) (entrance first : NodeId) (exit checkpoint : Option NodeId) :
    FoldingM BreakableId := do
  let state ← get
  let id := state.breakables.size
  let first := if some first = checkpoint then entrance else first
  let graph := (entrance :: exit.toList ++ checkpoint.toList).foldl (fun graph place =>
    graph.update place fun node =>
      if node.breakables.contains id then node else { node with breakables := node.breakables ++ [id] })
    state.graph
  set { state with
    graph, breakables := state.breakables.push { kind, entrance, first, exit, checkpoint } }
  return id

/-- Folds the inside of a breakable. -/
def inside {α : Type} (id : BreakableId) (body : FoldingM α) : FoldingM α := do
  modify fun state => { state with active := id :: state.active }
  let result ← body
  modify fun state => { state with active := state.active.drop 1 }
  return result

/-- Takes the condition that a node ends with. -/
def takeCondition (id : NodeId) : FoldingM Condition := do
  let node ← node id
  match node.top?.bind Operand.condition? with
  | some test =>
    changeGraph (·.mapStack id List.dropLast)
    return test.disclose
  | none => fail (.noCondition node.name)

/-- The condition as an operand, negated if it does not hold on the way to the node. -/
def conditionTowards (target : NodeId) (test : Condition) : FoldingM Operand := do
  let test ← if test.onTrue = some target then pure test else test.invert
  Operand.ofCondition test

/-- The jump that a visit stands for, if the node begins or ends a breakable around the visitor. A node that
is no successor of the visitor is left alone. -/
def jumpTowards? (source next : NodeId) (id : BreakableId) : FoldingM (Option StructureId) := do
  let breakable ← breakable id
  let within ← Graph.hasDominator source breakable.entrance
  if breakable.kind == .loop && breakable.hasHeader next && within then
    return some (← jump id next true)
  else if !breakable.hasHeader source && breakable.exit == some next && within then
    if (← node next).incoming.contains source then return some (← jump id next false)
    else return some Structure.emptyId
  else return none

/-- All visits that the node requires have come. -/
def isReady (node : Node) : Bool := !node.visit.isDone && node.requiredCalls ≤ node.visit.calls

/-- Visits a node from another one. The result is its statement if the visitor is the one to fold it, a
jump, or the empty statement. `fold` folds a node. -/
def visit (fold : NodeId → FoldingM StructureId) (source : NodeId) (next : Option NodeId)
    (arrival : Arrival) : FoldingM StructureId := do
  match next with
  | none => return Structure.emptyId
  | some next =>
    recordArrival source next arrival
    let latest := (← node next).breakables.getLast?
    let jumped ← match latest with
      | some id => jumpTowards? source next id
      | none => pure none
    match jumped with
    | some statement => return statement
    | none =>
      if arrival != .detached && (← get).regionExits.contains next then return Structure.emptyId
      if !isReady (← node next) then return Structure.emptyId
      let dominator ← Graph.dominator next
      let exits ← match latest with
        | some id => do pure ((← breakable id).exit == some next)
        | none => pure false
      if dominator.isNone || dominator == some source || exits then fold next
      else return Structure.emptyId

end Folding

end Decompiler
