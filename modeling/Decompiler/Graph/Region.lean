import Decompiler.Graph.Disposal
import Decompiler.Graph.Dominance

/-!
Protected regions: the exception table as try statements with their handlers, the node where control goes
on after each of them, and the removal of the copies of finally blocks.
-/

namespace Decompiler

/-- One handler of a protected region. -/
structure Handler where
  /-- The caught type by internal name; none for a finally block. -/
  exception : Option String
  node : NodeId
  /-- The local that the handler stores the exception in. -/
  caught? : Option VariableId := none
  deriving DecidableEq

def Handler.isFinally (handler : Handler) : Bool := handler.exception.isNone

structure Region where
  id : RegionId
  start : NodeId
  stop : NodeId
  /-- The handler of the first entry. -/
  catcher : NodeId
  handlers : List Handler
  /-- The nodes that begin a copy of the finally block. -/
  duplicateStarts : List NodeId
  /-- Where control goes on after the whole statement. -/
  exit : Option NodeId := none
  deriving Inhabited

namespace Region

/-- A region with its first handler. -/
def ofEntry (id : RegionId) (start stop handler : NodeId) (exception : Option String) : Region :=
  { id, start, stop, catcher := handler, handlers := [{ exception, node := handler }]
    duplicateStarts := if exception.isNone then [stop] else [] }

/-- The handlers with a caught type. -/
def catches (region : Region) : List Handler := region.handlers.filter (!·.isFinally)

def finally? (region : Region) : Option Handler := region.handlers.find? Handler.isFinally

def handles (region : Region) (id : NodeId) : Bool := region.handlers.any (·.node == id)

def addHandler (region : Region) (exception : Option String) (node : NodeId) : Region :=
  { region with handlers := region.handlers ++ [{ exception, node }] }

def addDuplicate (region : Region) (start : NodeId) : Region :=
  if region.duplicateStarts.contains start then region
  else { region with duplicateStarts := region.duplicateStarts ++ [start] }

/-- What an entry of the exception table means for a region known before: nothing, or the region with the
entry taken in and whether the handler is new in it. -/
def absorb? (region : Region) (start stop handler : NodeId) (exception : Option String) :
    Option (Region × Bool) :=
  if region.handles handler then
    some (if stop = handler then region else region.addDuplicate stop, false)
  else if exception.isNone ∧ region.start = start then
    let known := region.finally?.isSome
    let region := if known then region else region.addHandler none handler
    some (region.addDuplicate stop, !known)
  else if region.start = start ∧ region.stop = stop then
    if region.handlers.any (·.exception == exception) then some (region, false)
    else some (region.addHandler exception handler, true)
  else none

end Region

/-- The protected regions of a unit, in the order of the exception table. -/
structure Regions where
  list : List Region := []
  deriving Inhabited

namespace Regions

def get? (regions : Regions) (id : RegionId) : Option Region := regions.list[id]?

/-- Takes an entry into the first region that it belongs to; says whether its handler is new there. -/
def absorbInto (start stop handler : NodeId) (exception : Option String) :
    List Region → Option (List Region × Bool)
  | [] => none
  | region :: rest =>
    match region.absorb? start stop handler exception with
    | some (region, isNew) => some (region :: rest, isNew)
    | none => do
      let (rest, isNew) ← absorbInto start stop handler exception rest
      return (region :: rest, isNew)

/-- Registers an entry of the exception table. An entry for a known handler covers a copy of its finally
block; a catch-all entry at the start of a known region is its finally block; an entry with the range of a
known region is another handler of it. Any other entry opens a region. -/
def add (regions : Regions) (graph : Graph) (start stop handler : NodeId) (exception : Option String) :
    Regions × Graph :=
  if start = handler then (regions, graph)
  else
    let graph := [start, stop, handler].foldl (fun graph id =>
      graph.update id fun node => { node with disposable := false }) graph
    let expectVisit (graph : Graph) := graph.update handler fun node =>
      { node with additionalCalls := node.additionalCalls + 1 }
    match absorbInto start stop handler exception regions.list with
    | some (list, isNew) => ({ list }, if isNew then expectVisit graph else graph)
    | none =>
      let region := Region.ofEntry regions.list.length start stop handler exception
      ({ list := regions.list ++ [region] }, expectVisit graph)

/-- Lets the handlers at a node store their exception in a local; says whether any did not know theirs. -/
def bindVariable (regions : Regions) (handler : NodeId) (id : VariableId) : Bool × Regions :=
  let unbound (entry : Handler) := entry.node == handler && entry.caught?.isNone
  let bindEntry (entry : Handler) := if unbound entry then { entry with caught? := some id } else entry
  (regions.list.any (·.handlers.any unbound),
   { list := regions.list.map fun region => { region with handlers := region.handlers.map bindEntry } })

def handlers (regions : Regions) : List Handler := regions.list.flatMap Region.handlers

/-- The first handler at a node. -/
def handlerAt? (regions : Regions) (id : NodeId) : Option Handler :=
  regions.handlers.find? (·.node == id)

def isHandler (regions : Regions) (id : NodeId) : Bool := (regions.handlerAt? id).isSome

/-- The locals that catch clauses declare. -/
def catchVariables (regions : Regions) : List VariableId :=
  regions.handlers.filterMap Handler.caught?

end Regions

namespace Graph

/-- Collects breadth-first the nodes that a handler dominates; `found` holds them so far. -/
def collectDominated (handler : NodeId) : Nat → List NodeId → List NodeId → GraphM (List NodeId)
  | 0, _, found => return found
  | _ + 1, [], found => return found
  | fuel + 1, id :: waiting, found => do
    let fresh ← ((← get).node id).outgoing.foldlM (fun fresh target => do
      if ← hasDominator target handler then
        return if (found ++ fresh).contains target then fresh else fresh ++ [target]
      else return fresh) []
    collectDominated handler fuel (waiting ++ fresh) (found ++ fresh)

/-- The nodes that belong to a handler: those it dominates, breadth-first from it. -/
def handlerRegion (handler : NodeId) : GraphM (List NodeId) := do
  collectDominated handler ((← get).nodes.size + 1) [handler] [handler]

/-- Removes the rethrow of the caught exception that closes a finally handler. -/
def stripRethrow (handler : NodeId) (caught : VariableId) : GraphM Unit := do
  for id in ← handlerRegion handler do
    let stack := ((← get).node id).stack
    let rethrows := match stack.getLast? with
      | some { kind := .throws value, .. } => value.asLocal? == some caught
      | _ => false
    if rethrows then
      modify (·.update id fun node => { node with stack := node.stack.dropLast })

/-- Disposes of the first `remaining` nodes that hold operands, breadth-first. -/
def removeCopy : Nat → Nat → List NodeId → List NodeId → GraphM (List NodeId)
  | 0, _, _, _ => return []
  | _ + 1, _, [], _ => return []
  | fuel + 1, remaining, id :: waiting, seen => do
    if remaining = 0 then return []
    let graph ← get
    let node := graph.node id
    if seen.contains id || node.disposed then removeCopy fuel remaining waiting (id :: seen)
    else if node.isEmpty then
      removeCopy fuel remaining (waiting ++ node.outgoing) (id :: seen)
    else
      let disposed ← modifyGet (·.dispose id true false)
      return disposed ++ (← removeCopy fuel (remaining - 1) (waiting ++ node.outgoing) (id :: seen))

/-- The first node, breadth-first, that the start of the region dominates immediately and that is no
handler of it. -/
def searchExitFrom (region : Region) : Nat → List NodeId → List NodeId → GraphM (Option NodeId)
  | 0, _, _ => return none
  | _ + 1, [], _ => return none
  | fuel + 1, id :: waiting, seen => do
    if (← dominator id) == some region.start && !region.handles id then return some id
    let targets := ((← get).node id).outgoing
    let fresh := targets.foldl (fun fresh target =>
      if (seen ++ fresh).contains target then fresh else fresh ++ [target]) []
    searchExitFrom region fuel (waiting ++ fresh) (seen ++ fresh)

/-- Where control goes on after a region: the first node found from the successors of the handler and of
the region's end, or else the first successor that leaves the nodes of the handler. -/
def searchExit (region : Region) : GraphM (Option NodeId) := do
  let graph ← get
  let starts := (graph.node region.catcher).outgoing ++ (graph.node region.stop).outgoing
  match ← searchExitFrom region (2 * graph.searchBound) starts starts with
  | some id => return some id
  | none =>
    let members ← handlerRegion region.catcher
    let targets := members.flatMap fun id => (graph.node id).outgoing
    return targets.find? (!members.contains ·)

/-- Removes the edges that leave the nodes of a handler towards a loop header. They are taken to come from the handler
being laid out inside an enclosing loop, which a jump of the handler to the header does not. -/
def purgeLoopEdges (handler : NodeId) : Nat → List NodeId → List NodeId → GraphM Unit
  | 0, _, _ => return ()
  | _ + 1, [], _ => return ()
  | fuel + 1, id :: waiting, seen => do
    let fresh ← ((← get).node id).outgoing.foldlM (fun fresh target => do
      if ← hasDominator target handler then
        return if (seen ++ fresh).contains target then fresh else fresh ++ [target]
      else
        unless ((← get).node target).backedges.isEmpty do modify (·.disconnect id target)
        return fresh) []
    purgeLoopEdges handler fuel (waiting ++ fresh) (seen ++ fresh)

end Graph

namespace Regions

/-- Removes the copies of the finally block of a region. A copy is as many non-empty nodes, breadth-first
from where it begins, as the block itself has. -/
def removeFinallyCopies (regions : Regions) (id : RegionId) : GraphM Regions := do
  match regions.get? id with
  | none => return regions
  | some region =>
    match region.finally? with
    | none => return regions
    | some block =>
      if let some caught := block.caught? then Graph.stripRethrow block.node caught
      let members ← Graph.handlerRegion block.node
      let graph ← get
      let size := members.countP fun member => !(graph.node member).isEmpty
      if size = 0 then return regions
      let disposed ← region.duplicateStarts.foldlM (fun disposed start => do
        let graph ← get
        if (graph.node start).disposed || regions.list.any (·.handles start) then return disposed
        return disposed ++ (← Graph.removeCopy ((graph.nodes.size + 2) * (graph.nodes.size + 2)) size [start] [])) []
      let graph ← get
      let settle (region : Region) : Region :=
        let stop :=
          if !disposed.contains region.stop then region.stop
          else match (graph.node region.stop).previous with
            | some previous => if (graph.node previous).disposed then region.start else previous
            | none => region.start
        { region with stop, duplicateStarts := region.duplicateStarts.filter (!disposed.contains ·) }
      return { list := regions.list.map settle }

/-- Lets the handlers know where their regions start, and the nodes which regions start there. -/
def linkHandlers (regions : Regions) : GraphM Unit := do
  for region in regions.list do
    for handler in region.handlers do
      modify (·.addHandlerEdge region.start handler.node)
    modify (·.update region.start fun node => { node with regions := node.regions ++ [region.id] })

/-- Finds the exits of the regions. -/
def findExits (regions : Regions) : GraphM Regions := do
  let list ← regions.list.mapM fun region => do
    return { region with exit := ← Graph.searchExit region }
  return { list }

/-- Removes the edges from handlers back into loops. -/
def purgeHandlers (regions : Regions) : GraphM Unit := do
  for region in regions.list do
    for handler in region.handlers do
      Graph.purgeLoopEdges handler.node ((← get).nodes.size + 1) [handler.node] [handler.node]

/-- Resolves the regions against a finished graph: handler edges, copies of finally blocks, exits, and the
edges from handlers back into loops. -/
def resolve (regions : Regions) (removeCopies : Bool) : GraphM Regions := do
  regions.linkHandlers
  let regions ←
    if removeCopies then
      (List.range regions.list.length).foldlM (fun regions id => regions.removeFinallyCopies id) regions
    else pure regions
  let regions ← regions.findExits
  regions.purgeHandlers
  return regions

end Regions

end Decompiler
