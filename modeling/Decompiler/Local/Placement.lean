import Decompiler.Graph.Region
import Decompiler.Graph.Switch
import Decompiler.Local.Table

/-!
Placing the declarations of locals where all their uses are in scope.
-/

namespace Decompiler.Placement

/-- The live nodes whose stacks refer to a variable, in order of appearance. -/
def users (graph : Graph) (id : VariableId) : List NodeId :=
  graph.order.filter fun node => (graph.node node).stack.any (·.references id)

/-- The assignment that an operand is, as a declaration of the variable, if it assigns the variable a value
that does not refer to it. -/
def declaring? (id : VariableId) (operand : Operand) : Option Operand :=
  match operand.kind with
  | .assign target .assign value =>
    match target.kind with
    | .localVariable assigned _ =>
      if assigned = id && !value.references id then
        some { operand with
          kind := .assign { target with kind := .localVariable assigned true } .assign value }
      else none
    | _ => none
  | _ => none

/-- Turns the first operand that refers to the variable into its declaration. Fails if there is none or it
cannot declare the variable. -/
def declareFirst? (id : VariableId) : List Operand → Option (List Operand)
  | [] => none
  | operand :: rest =>
    match declaring? id operand with
    | some declaration => some (declaration :: rest)
    | none => if operand.references id then none else (declareFirst? id rest).map (operand :: ·)

/-- Declares a variable by its first assignment in a node, if the node does not read it before. -/
def declareIn? (graph : Graph) (node : NodeId) (id : VariableId) : Option Graph :=
  (declareFirst? id (graph.node node).stack).map fun stack =>
    graph.update node fun entry => { entry with stack }

/-- Lets a forward predecessor of `before` lead to the declaration instead. -/
def redirectTo (before declaration : NodeId) (graph : Graph) (source : NodeId) : Graph :=
  ((graph.disconnect source before).connect source declaration).update source fun node =>
    { node with
      destination := if node.destination = some (.node before) then some (.node declaration)
        else node.destination
      stack := node.stack.map (Operand.retarget before (some declaration)) }

/-- Puts a node that declares the variable in front of a node. Its forward predecessors lead to the new
node; back-edges still lead to the node itself. -/
def insertDeclaration (before : NodeId) (id : VariableId) (type : TypeRef) : GraphM Unit := do
  let created ← GraphM.create (·.insertBefore before)
  let declaration ← Operand.make (.declaration id) type
  modify fun graph =>
    let graph := (graph.forwardIncoming before).foldl (redirectTo before created) graph
    (graph.connect created before).update created fun node =>
      { node with
        destination := some (.node before), disposable := false
        stack := node.stack ++ [declaration.asStatement] }

/-- What has been decided so far: the node where each variable is declared, and the variables left over. -/
structure Progress where
  anchors : List (VariableId × NodeId) := []
  pending : List VariableId := []

/-- A variable of the same slot is declared above or below the node in dominance. -/
def clashes (table : LocalVariables) (progress : Progress) (id : VariableId) (node : NodeId) :
    GraphM Bool :=
  (table.slotSiblings id).anyM fun sibling => do
    match progress.anchors.lookup sibling with
    | some anchor =>
      if ← Graph.hasDominator anchor node then return true
      else Graph.hasDominator node anchor
    | none => return false

/-- Declares a variable at its first assignment in the lowest common dominator of its uses, or else in a
new node in front of it. The variable is left over if the dominator is where a switch expression yields,
an arm of a switch or a handler, or clashes with a variable of the same slot. -/
def placeOne (table : LocalVariables) (pinned : List NodeId) (progress : Progress) (id : VariableId) :
    GraphM Progress := do
  let leftOver := { progress with pending := progress.pending ++ [id] }
  let users := users (← get) id
  match ← Graph.lowestCommonDominator users with
  | none => return if users.isEmpty then progress else leftOver
  | some node =>
    let placed := { progress with anchors := (id, node) :: progress.anchors }
    let graph ← get
    match (if users.contains node then declareIn? graph node id else none) with
    | some graph =>
      set graph
      return placed
    | none =>
      let clash ← clashes table progress id node
      let entry := graph.node node
      if entry.disposed || entry.yieldConvergence || pinned.contains node || clash then
        return leftOver
      insertDeclaration node id (table.get id).type
      return placed

/-- Declares a variable that was left over: at its first assignment in order of appearance, or else at the
bottom of the first node that refers to it. -/
def placePending (table : LocalVariables) (id : VariableId) : GraphM Unit := do
  let graph ← get
  match graph.order.findSome? fun node => declareIn? graph node id with
  | some graph => set graph
  | none =>
    if let some first := (users graph id).head? then
      let declaration ← Operand.make (.declaration id) (table.get id).type
      modify (·.update first fun node => { node with stack := declaration.asStatement :: node.stack })

/-- Declares every local that is neither a parameter nor declared by a catch clause. -/
def place (table : LocalVariables) (regions : Regions) (switches : List SwitchTable) : GraphM Unit := do
  let caught := regions.catchVariables
  let pinned := switches.flatMap SwitchTable.arms ++ regions.handlers.map Handler.node
  let locals := (List.range table.list.length).filter fun id =>
    !(table.get id).parameter && !caught.contains id
  let progress ← locals.foldlM (placeOne table pinned) {}
  progress.pending.forM (placePending table)

end Decompiler.Placement
