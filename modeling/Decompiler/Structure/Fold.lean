import Decompiler.Graph.Switch
import Decompiler.Structure.Iteration
import Decompiler.Structure.Reach

/-!
Folding a finished node graph into a tree of statements. A node is classified by its switch table, its
successors and its back-edges; a jump to the header or exit of an enclosing loop or switch becomes a
`continue` or `break`.

- No successor, or one without back-edges: the statements of the node.
- One successor and back-edges: an endless loop, or a loop tested at its end if the one back-edge comes
  from a condition and nothing leaves the loop early.
- Two successors: a branch, or with back-edges a loop tested at its start, which steps if the one
  back-edge comes from a node that ends with updates of what the condition reads.
-/

namespace Decompiler.Folding

/-! ### Branches -/

/-- The ways of a branch: the node where the condition holds, the other one if it is a branch of its own,
and the node after both. -/
structure Ways where
  body : NodeId
  otherwise : Option NodeId
  follow : Option (NodeId × Arrival)

/-- The ways of a branch one of whose successors is entered from elsewhere too. That successor comes after
the branch; if another node dominates it, the jump to it is the other way. -/
def waysAround (id inner outer : NodeId) : FoldingM Ways := do
  if (← Graph.dominator outer) != some id then
    let connector ← GraphM.create (·.createConnector id outer)
    return { body := inner, otherwise := some connector, follow := some (outer, .detached) }
  else return { body := inner, otherwise := none, follow := some (outer, .edge) }

def waysOf (id one other : NodeId) : FoldingM Ways := do
  let graph ← currentGraph
  if (graph.forwardIncoming one).length != 1 then waysAround id other one
  else if (graph.forwardIncoming other).length != 1 then waysAround id one other
  else
    let outgoing := (graph.node id).outgoing
    let follow := (← Graph.dominatorChildren id).find? fun child => !outgoing.contains child
    return { body := one, otherwise := some other, follow := follow.map (·, .detached) }

def foldBranch (fold : NodeId → FoldingM StructureId) (id one other : NodeId) :
    FoldingM StructureId := do
  let test ← takeCondition id
  let ways ← waysOf id one other
  let test ← conditionTowards ways.body test
  let body ← visit fold id (some ways.body) .edge
  let otherwise ← match ways.otherwise with
    | some node => some <$> visit fold id (some node) .edge
    | none => pure none
  let follow ← match ways.follow with
    | some (node, arrival) => visit fold id (some node) arrival
    | none => pure Structure.emptyId
  push (.conditional id test body otherwise follow)

/-! ### Switches -/

/-- Folds the arms of a switch in order of appearance, then the default arm. An arm that begins where
control goes on after the switch just leaves it. -/
def foldArms (fold : NodeId → FoldingM StructureId) (head : NodeId) (id : BreakableId)
    (table : SwitchTable) (follow : Option NodeId) (hasDefault : Bool) :
    FoldingM (List SwitchArm × Option StructureId) := do
  let cases := table.cases (← currentGraph)
  let arms ← cases.mapM fun (node, keys) => do
    if some node = follow then
      recordArrival head node .edge
      return { keys, body := ← push (.breaks id false) : SwitchArm }
    else return { keys, body := ← visit fold head (some node) .edge : SwitchArm }
  let default ← if hasDefault then some <$> visit fold head (some table.default) .edge else pure none
  return (arms, default)

def foldSwitch (fold : NodeId → FoldingM StructureId) (head : NodeId) (table : SwitchTable) :
    FoldingM StructureId := do
  match (← node head).top? with
  | none => fail (.noSelector head)
  | some selector =>
    changeGraph (·.mapStack head List.dropLast)
    let follow ← table.follow?
    let hasDefault ← table.isDefaultArm
    let breakable ← openBreakable .switch head head (if table.expression then none else follow) none
    let (cases, default) ← inside breakable (foldArms fold head breakable table follow hasDefault)
    let followed ← visit fold head follow .edge
    let statement ← push (.switch head breakable selector cases default table.expression followed)
    if (← node head).isEmpty then return statement else fragment head statement

/-! ### Loops -/

/-- A loop tested at the node that its back-edge comes from. -/
def foldDoWhile (fold : NodeId → FoldingM StructureId) (id first source : NodeId) :
    FoldingM StructureId := do
  let exit := (← node source).outgoing.find? (· != id)
  let breakable ← openBreakable .loop id first exit (some source)
  let body ← inside breakable (visit fold id (some first) .edge)
  let inner ← fragment id body
  let test ← conditionTowards id (← takeCondition source)
  changeGraph (·.update source fun node => { node with visit := node.visit.finish })
  let follow ← visit fold source exit .edge
  push (.doWhile id breakable inner test follow)

/-- A loop without a test around a header, which is folded anew inside it. -/
def foldForever (fold : NodeId → FoldingM StructureId) (inner : FoldingM StructureId) (id : NodeId)
    (exit : Option NodeId) : FoldingM StructureId := do
  let breakable ← openBreakable .loop id id exit none
  let body ← inside breakable inner
  let follow ← visit fold id exit .detached
  push (.forever id breakable body follow)

/-- A loop tested at its header. `inner` folds the header inside a loop without a test. -/
def foldWhile (fold : NodeId → FoldingM StructureId) (inner : FoldingM StructureId) (id : NodeId)
    (backedges : List NodeId) : FoldingM StructureId := do
  match ← bodyAndExit? id backedges with
  | none => foldForever fold inner id none
  | some (body, exit) =>
    match ← forEach? fold id body exit (backedges.headD id) with
    | some statement => return statement
    | none =>
      let test ← conditionTowards body (← takeCondition id)
      let breakable ← openBreakable .loop id body (some exit) (some id)
      let inner ← inside breakable (visit fold id (some body) .edge)
      let follow ← visit fold id (some exit) .edge
      push (.whileLoop id breakable test inner follow)

/-- A loop tested at its header whose back-edge node ends with updates, if it has any. -/
def foldFor (fold : NodeId → FoldingM StructureId) (inner : FoldingM StructureId) (id source : NodeId) :
    FoldingM StructureId := do
  match ← bodyAndExit? id [source] with
  | none => foldForever fold inner id none
  | some (body, exit) =>
    match ← forEach? fold id body exit source with
    | some statement => return statement
    | none =>
      let graph ← currentGraph
      let count := (graph.node id).top?.elim 0 fun test =>
        Loop.trailingUpdates test (graph.node source).stack
      if count = 0 then foldWhile fold inner id [source]
      else
        let checkpoint ← isolateUpdates source id count
        let updates := (← node checkpoint).stack
        changeGraph (·.mapStack checkpoint fun _ => [])
        let initializer ← takeInitializer id updates
        let test ← conditionTowards body (← takeCondition id)
        let breakable ← openBreakable .loop id body (some exit) (some checkpoint)
        let inner ← inside breakable (visit fold id (some body) .edge)
        let follow ← visit fold id (some exit) .edge
        push (.forLoop id breakable initializer test (updates.map Operand.asValue) inner follow)

/-- Folds a node by its successors and those back-edges that no loop around it consumed yet. Every loop
consumes a back-edge, which bounds the nesting. -/
def classifyWithin (fold : NodeId → FoldingM StructureId) (id : NodeId) :
    Nat → List NodeId → FoldingM StructureId
  | 0, _ => fragment id Structure.emptyId
  | fuel + 1, backedges => do
    let endless (group : BackedgeGroup) : FoldingM StructureId :=
      let remaining := backedges.filter (!group.members.contains ·)
      foldForever fold (classifyWithin fold id fuel remaining) id group.exit
    let plain : FoldingM StructureId := classifyWithin fold id fuel []
    let node ← node id
    match node.outgoing, backedges with
    | [], _ => fragment id Structure.emptyId
    | [next], [] => do fragment id (← visit fold id (some next) .edge)
    | [next], [source] =>
      let group ← BackedgeGroup.collect id [source]
      let tested := ((← currentGraph).node source).outgoing.length == 2 && group.exit.isNone
      if tested then foldDoWhile fold id next source else endless group
    | [_], _ => do endless (← BackedgeGroup.collect id backedges)
    | [one, other], [] => foldBranch fold id one other
    | [_, _], [source] =>
      if ((← currentGraph).node source).outgoing.length == 1 then foldFor fold plain id source
      else foldWhile fold plain id [source]
    | [_, _], _ => foldWhile fold plain id backedges
    | outgoing, _ => fail (.manySuccessors node.name outgoing.length)

def classify (fold : NodeId → FoldingM StructureId) (id : NodeId) : FoldingM StructureId := do
  let backedges := (← node id).backedges
  classifyWithin fold id (backedges.length + 2) backedges

/-! ### Protected regions -/

def foldBody (fold : NodeId → FoldingM StructureId) (id : NodeId) : FoldingM StructureId := do
  match ((← node id).switch).bind (← get).switch? with
  | some table => foldSwitch fold id table
  | none => classify fold id

/-- Removes the last occurrence of a node. -/
def eraseLast (id : NodeId) (nodes : List NodeId) : List NodeId := (nodes.reverse.erase id).reverse

/-- Folds the handlers of a region around its body, and the node after it unless an enclosing region goes
on there too. -/
def foldRegion (fold : NodeId → FoldingM StructureId) (id : NodeId) (body : StructureId)
    (region : Region) : FoldingM StructureId := do
  let catches ← region.handlers.mapM fun handler => do
    let arm ← visit fold id (some handler.node) .additional
    return { exception := handler.exception, caught? := handler.caught?, body := arm : CatchArm }
  let follow ← match region.exit with
    | none => pure Structure.emptyId
    | some exit =>
      modify fun state => { state with regionExits := eraseLast exit state.regionExits }
      if (← get).regionExits.contains exit || !isReady (← node exit) then pure Structure.emptyId
      else fold exit
  push (.protect id body catches follow)

/-- Folds a node together with the protected regions that start at it, innermost first. -/
def foldRegions (fold : NodeId → FoldingM StructureId) (id : NodeId) (regions : List RegionId) :
    FoldingM StructureId := do
  let state ← get
  let blocks := regions.filterMap state.regions.get?
  set { state with
    graph := state.graph.update id fun node => { node with regions := [] }
    regionExits := state.regionExits ++ blocks.filterMap Region.exit }
  let body ← foldBody fold id
  blocks.foldlM (foldRegion fold id) body

/-! ### Nodes -/

/-- Folds a node, which is visited from now on, and notes its statement. -/
def foldNode (fold : NodeId → FoldingM StructureId) (id : NodeId) : FoldingM StructureId := do
  match (← node id).statement with
  | some statement => return statement
  | none =>
    changeGraph (·.update id fun node => { node with visit := node.visit.finish })
    if (← read).options.trace then
      modify fun state => { state with trace := .node .folded state.graph id :: state.trace }
    let statement ← match (← node id).regions with
      | [] => foldBody fold id
      | regions => foldRegions fold id regions
    changeGraph (·.update id fun node => { node with statement := some statement })
    return statement

/-- Folds nodes inside each other to a bounded depth. -/
def foldWithin : Nat → NodeId → FoldingM StructureId
  | 0, _ => return Structure.emptyId
  | depth + 1, id => foldNode (foldWithin depth) id

/-- Drops a `continue` that ends the body of its own loop, which begins at the given statement. -/
def omitContinue (id : BreakableId) : Nat → StructureId → Array Structure → Array Structure
  | 0, _, structures => structures
  | fuel + 1, start, structures =>
    let isEmpty (follow : StructureId) := (structures.getD follow .empty).isEmpty
    match structures.getD start .empty with
    | .continues target false => if target = id then structures.setIfInBounds start .empty else structures
    | .conditional _ _ body otherwise follow =>
      if isEmpty follow then
        (body :: otherwise.toList).foldl (fun structures arm => omitContinue id fuel arm structures)
          structures
      else omitContinue id fuel follow structures
    | .protect _ body catches follow =>
      if isEmpty follow then
        (body :: catches.map CatchArm.body).foldl
          (fun structures arm => omitContinue id fuel arm structures) structures
      else omitContinue id fuel follow structures
    | statement =>
      match statement.follow? with
      | some follow => omitContinue id fuel follow structures
      | none => structures

/-- Drops the `continue` statements at the ends of all loops. -/
def omitContinues (structures : Array Structure) : Array Structure :=
  (List.range structures.size).foldl (fun structures loop =>
    match (structures.getD loop .empty).loopBody? with
    | some (id, body) => omitContinue id structures.size body structures
    | none => structures) structures

/-- Folds the whole graph. Fails if statements of a reachable node are left over. Every nested fold is of
another node, and each node adds at most one node on an edge of it, which bounds the depth. -/
def foldGraph : FoldingM StructureTree := do
  let graph ← currentGraph
  match graph.entry? with
  | none => fail .noNodes
  | some entry =>
    let root ← foldWithin (4 * graph.searchBound) entry
    modify fun state => { state with structures := omitContinues state.structures }
    let state ← get
    match state.graph.unstructured with
    | [] => return { structures := state.structures, breakables := state.breakables, root }
    | lost => fail (.lost (lost.map fun id => (state.graph.node id).name))

end Decompiler.Folding

namespace Decompiler

/-- The tree of a unit, the unit as folding leaves it, and the records of progress in order. -/
def MethodBody.fold (body : MethodBody) (setting : Setting) :
    Except Error StructureTree × MethodBody × List TraceEntry :=
  let (outcome, state) := (Folding.foldGraph setting).run.run { toMethodBody := body }
  (outcome, state.toMethodBody, state.trace.reverse)

end Decompiler
