import Decompiler.Graph.Region
import Decompiler.Proofs.Dominance.Query

/-!
Rules for the steps by which protected regions are resolved. What holds of queries for dominators, of an edge that is
removed, of a rethrow or a node that goes and of handlers that are linked holds of the steps that are made of these.
-/

namespace Decompiler

namespace Graph

/-- The property holds of a look at the graph and of queries for dominators, so it holds of all steps that are made
of these. -/
structure HoldsOfQueries (property : ∀ {α : Type}, GraphM α → Prop) : Prop extends Compositional @property where
  get : property (MonadState.get : GraphM Graph)
  dominator : ∀ id, property (dominator id)
  hasDominator : ∀ id candidate, property (hasDominator id candidate)

namespace HoldsOfQueries

variable {property : ∀ {α : Type}, GraphM α → Prop} (kept : HoldsOfQueries @property)

include kept

/-- The nodes that a handler dominates are found by queries. -/
theorem collectDominated (handler : NodeId) (fuel : Nat) (waiting found : List NodeId) :
    property (collectDominated handler fuel waiting found) := by
  induction fuel generalizing waiting found with
  | zero => exact kept.pure _
  | succ fuel ih =>
      cases waiting with
      | nil => exact kept.pure _
      | cons id waiting =>
          refine kept.bind kept.get fun graph => ?_
          refine kept.bind (kept.foldlM (fun fresh target => ?_) _ _) fun fresh => ih _ _
          refine kept.bind (kept.hasDominator target handler) fun dominated => ?_
          split
          · exact kept.pure _
          · exact kept.pure _

/-- The nodes of a handler are collected from the handler on, with a bound by the number of nodes. -/
theorem handlerRegion (handler : NodeId) : property (handlerRegion handler) :=
  kept.bind kept.get fun _ => kept.collectDominated handler _ _ _

/-- The search goes along edges and only looks at the nodes it meets. -/
theorem searchExitFrom (region : Region) (fuel : Nat) (waiting seen : List NodeId) :
    property (searchExitFrom region fuel waiting seen) := by
  induction fuel generalizing waiting seen with
  | zero => exact kept.pure _
  | succ fuel ih =>
      cases waiting with
      | nil => exact kept.pure _
      | cons id waiting =>
          refine kept.bind (kept.dominator id) fun dominator => ?_
          split
          · exact kept.pure _
          · exact kept.bind kept.get fun graph => ih _ _

theorem searchExit (region : Region) : property (searchExit region) := by
  refine kept.bind kept.get fun graph => kept.bind (kept.searchExitFrom region _ _ _) fun exit => ?_
  split
  · exact kept.pure _
  · exact kept.bind (kept.handlerRegion _) fun members => kept.pure _

/-- Exits are written into the table of regions, which the graph does not know. -/
theorem findExits (regions : Regions) : property regions.findExits :=
  kept.bind (kept.mapM (fun region => kept.bind (kept.searchExit region) fun _ => kept.pure _) _) fun _ => kept.pure _

section Purging

variable (hCut : ∀ source target, property (modify (·.disconnect source target) : GraphM Unit))

include hCut

/-- Edges that lead back past the handler are cut, one at a time. -/
theorem purgeLoopEdges (handler : NodeId) (fuel : Nat) (waiting seen : List NodeId) :
    property (purgeLoopEdges handler fuel waiting seen) := by
  induction fuel generalizing waiting seen with
  | zero => exact kept.pure _
  | succ fuel ih =>
      cases waiting with
      | nil => exact kept.pure _
      | cons id waiting =>
          refine kept.bind kept.get fun graph => ?_
          refine kept.bind (kept.foldlM (fun fresh target => ?_) _ _) fun fresh => ih _ _
          refine kept.bind (kept.hasDominator target handler) fun dominated => ?_
          split
          · exact kept.pure _
          · refine kept.bind kept.get fun graph => ?_
            split
            · exact kept.pure _
            · exact kept.bind (hCut id target) fun _ => kept.pure _

/-- Each handler is purged in turn. -/
theorem purgeHandlers (regions : Regions) : property regions.purgeHandlers := by
  refine kept.bind (kept.forIn (fun region _ => ?_) _ _) fun _ => kept.pure _
  refine kept.bind (kept.forIn (fun handler _ => ?_) _ _) fun _ => kept.pure _
  exact kept.bind kept.get fun graph => kept.bind (kept.purgeLoopEdges hCut _ _ _ _) fun _ => kept.pure _

end Purging

section Copies

variable (hStrip : ∀ id, property
    (modify (·.update id fun node => { node with stack := node.stack.dropLast }) : GraphM Unit))
  (hDispose : ∀ id, property (modifyGet (·.dispose id true false) : GraphM (List NodeId)))

include hStrip in
/-- Rethrows of the caught exception are taken off the stacks of the handler. -/
theorem stripRethrow (handler : NodeId) (caught : VariableId) : property (stripRethrow handler caught) := by
  refine kept.bind (kept.handlerRegion handler) fun members => ?_
  refine kept.bind (kept.forIn (fun id _ => ?_) members _) fun _ => kept.pure _
  refine kept.bind kept.get fun graph => ?_
  dsimp only
  split
  · split
    · exact kept.bind (hStrip id) fun _ => kept.pure _
    · exact kept.pure _
  · exact kept.pure _

include hDispose in
/-- Nodes of a copy go one after the other, along the edges between them. -/
theorem removeCopy (fuel remaining : Nat) (waiting seen : List NodeId) :
    property (removeCopy fuel remaining waiting seen) := by
  induction fuel generalizing remaining waiting seen with
  | zero => exact kept.pure _
  | succ fuel ih =>
      cases waiting with
      | nil => exact kept.pure _
      | cons id waiting =>
          rw [Graph.removeCopy]
          split
          · exact kept.pure _
          · refine kept.bind kept.get fun graph => ?_
            dsimp only
            split
            · exact ih _ _ _
            · split
              · exact ih _ _ _
              · exact kept.bind (hDispose id) fun disposed => kept.bind (ih _ _ _) fun others => kept.pure _

include hStrip hDispose in
/-- The rethrow of the block goes first, then its copies go node by node. -/
theorem removeFinallyCopies (regions : Regions) (id : RegionId) : property (regions.removeFinallyCopies id) := by
  rw [Regions.removeFinallyCopies]
  split
  · exact kept.pure _
  · split
    · exact kept.pure _
    · extract_lets rest
      have hRest : ∀ stripped, property (rest stripped) := by
        intro stripped
        refine kept.bind (kept.handlerRegion _) fun members => kept.bind kept.get fun graph => ?_
        dsimp only
        split
        · exact kept.pure _
        · refine kept.bind (kept.foldlM (fun disposed start => ?_) _ _) fun disposed =>
            kept.bind kept.get fun graph => kept.pure _
          refine kept.bind kept.get fun graph => ?_
          split
          · exact kept.pure _
          · exact kept.bind (kept.removeCopy hDispose _ _ _ _) fun _ => kept.pure _
      split
      · exact kept.bind (kept.stripRethrow hStrip _ _) hRest
      · exact hRest ()

end Copies

end HoldsOfQueries

/-- Steps that only ask are closed under queries and their sequences. -/
theorem onlyAsks_queries : HoldsOfQueries @OnlyAsks :=
  ⟨OnlyAsks.compositional, .get, onlyAsks_dominator, onlyAsks_hasDominator⟩

/-- The action takes nothing from the supply of identities and types. -/
def KeepsSupply {α : Type} (action : GraphM α) : Prop := ∀ graph, (action.run graph).2.supply = graph.supply

theorem keepsSupply_queries : HoldsOfQueries @KeepsSupply := by
  have kept : Compositional @KeepsSupply :=
    ⟨fun _ _ => rfl, fun first second graph => (second _ _).trans (first graph)⟩
  have hGet : KeepsSupply (MonadState.get : GraphM Graph) := fun _ => rfl
  have hDominator : ∀ id, KeepsSupply (dominator id) := kept.dominator hGet
    (fun graph => by change graph.refreshDominance.supply = _; rw [refreshDominance]; split <;> rfl)
    (fun _ => rfl) (fun id graph => by change (graph.taintWithin id).supply = _; rw [taintWithin]; split <;> rfl)
    (fun _ _ => rfl) fun _ _ _ => rfl
  exact ⟨kept, hGet, hDominator, kept.hasDominator hGet hDominator⟩

end Graph

/-- Handlers are linked by edges that only dominators tell, and by notes at the starts of their regions. -/
theorem Compositional.linkHandlers {property : ∀ {α : Type}, GraphM α → Prop} (kept : Compositional @property)
    (hEdge : ∀ start handler, property (modify (·.addHandlerEdge start handler) : GraphM Unit))
    (hNote : ∀ (start : NodeId) (id : RegionId), property
      (modify (·.update start fun node => { node with regions := node.regions ++ [id] }) : GraphM Unit))
    (regions : Regions) : property regions.linkHandlers := by
  refine kept.bind (kept.forIn (fun region _ => ?_) _ _) fun _ => kept.pure _
  refine kept.bind (kept.forIn (fun handler _ => ?_) _ _) fun _ => ?_
  · exact kept.bind (hEdge region.start handler.node) fun _ => kept.pure _
  · exact kept.bind (hNote region.start region.id) fun _ => kept.pure _

/-- The passes of the resolution in their order. The links of handlers and the removal of copies are left to the
property, since they differ most. -/
theorem Graph.HoldsOfQueries.resolve {property : ∀ {α : Type}, GraphM α → Prop} (kept : HoldsOfQueries @property)
    (hCut : ∀ source target, property (modify (·.disconnect source target) : GraphM Unit)) {regions : Regions}
    (hLinked : property regions.linkHandlers)
    (hCopies : property
      ((List.range regions.list.length).foldlM (fun regions id => regions.removeFinallyCopies id) regions))
    (removeCopies : Bool) : property (regions.resolve removeCopies) := by
  refine kept.bind hLinked fun _ => ?_
  have hRest (regions : Regions) : property (do
      let regions ← regions.findExits
      regions.purgeHandlers
      return regions) :=
    kept.bind (kept.findExits regions) fun regions => kept.bind (kept.purgeHandlers hCut regions) fun _ => kept.pure _
  dsimp only
  split
  · exact kept.bind hCopies hRest
  · exact kept.bind (kept.pure _) hRest

end Decompiler
