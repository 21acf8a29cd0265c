import Decompiler.Proofs.Dominance.Session
import Decompiler.Proofs.Region.Purging

/-!
The edges that are removed when protected regions are resolved, told by dominance itself. It takes a graph in which no
node leads back to itself once the handlers are linked. Then an edge that is gone led to a loop header that some handler
does not dominate, from a node that the handler dominates when all is done.
-/

namespace Decompiler

namespace Graph

variable {handlers : List NodeId} {linked now graph after : Graph} {found : List (NodeId × NodeId)}
  {handler id source target candidate : NodeId}

/-- Ways that are left when some edges are gone were ways before, unless some node has no way to it any more. -/
theorem Walk.of_fewer {nodes : List NodeId} (hFewer : ∀ source id, after.Leads source id → graph.Leads source id)
    (hReached : ∀ id, (∃ source, graph.Leads source id) → ∃ source, after.Leads source id)
    (walk : after.Walk id nodes) : graph.Walk id nodes := by
  induction walk with
  | start hFirst => exact .start fun source hLeads => not_exists.mpr hFirst (hReached _ ⟨source, hLeads⟩)
  | step _ hLeads ih => exact ih.step (hFewer _ _ hLeads)

/-- With fewer edges nodes keep their dominators. -/
theorem Passes.of_fewer (passes : graph.Passes candidate id)
    (hFewer : ∀ source id, after.Leads source id → graph.Leads source id)
    (hReached : ∀ id, (∃ source, graph.Leads source id) → ∃ source, after.Leads source id) :
    after.Passes candidate id := fun nodes walk => passes nodes (walk.of_fewer hFewer hReached)

/-- Fewer edges close no cycle. -/
theorem Acyclic.of_fewer (acyclic : graph.Acyclic)
    (hFewer : ∀ source id, after.Leads source id → graph.Leads source id) : after.Acyclic := fun id way =>
  acyclic id (Relation.TransGen.mono hFewer _ _ way)

/-- Dominance is told by the edges. -/
theorem SameFacts.passes_iff (same : SameFacts graph after) : after.Passes candidate id ↔ graph.Passes candidate id :=
  ⟨fun passes => passes.of_fewer (fun _ _ => same.leads_iff.mpr) fun _ => Exists.imp fun _ => same.leads_iff.mp,
    fun passes => passes.of_fewer (fun _ _ => same.leads_iff.mp) fun _ => Exists.imp fun _ => same.leads_iff.mpr⟩

/-! ### One edge -/

/-- Only the edge that is removed leads nowhere any more. -/
theorem leads_disconnect {start finish : NodeId} : (graph.disconnect start finish).Leads source id ↔
    graph.Leads source id ∧ (¬(source = start ∧ id = finish) ∨ source ∈ (graph.node id).handlerSources) := by
  rw [Leads, Leads, incoming_disconnect, backedges_disconnect,
    (sameBlocks_disconnect graph start finish).field Node.handlerSources (fun _ => rfl)]
  by_cases hFinish : finish = id
  · subst hFinish
    simp only [↓reduceIte, List.mem_filter, bne_iff_ne, and_true]
    tauto
  · simp only [hFinish, Ne.symm hFinish, ↓reduceIte, and_false, not_false_eq_true, true_or, and_true]

/-- An edge from a node that a candidate dominates to one that it does not dominate is not the only one to its end. -/
theorem reached_disconnect (acyclic : graph.Acyclic) (hInside : graph.Passes candidate source)
    (hOutside : ¬graph.Passes candidate target) (hReached : ∃ other, graph.Leads other id) :
    ∃ other, (graph.disconnect source target).Leads other id := by
  by_contra hNone
  have hOnly : ∀ other, graph.Leads other id → other = source ∧ id = target := fun other hLeads =>
    not_not.mp fun hOther => hNone ⟨other, leads_disconnect.mpr ⟨hLeads, .inl hOther⟩⟩
  obtain ⟨other, hLeads⟩ := hReached
  obtain ⟨rfl, rfl⟩ := hOnly other hLeads
  exact hOutside ((Passes.iff_sources acyclic ⟨other, hLeads⟩).mpr fun another hAnother =>
    (hOnly another hAnother).1 ▸ hInside).2

/-! ### The removal of edges -/

/-- The graph is well formed, no node leads back to itself, and what is remembered about dominators is right. -/
structure Answering (graph : Graph) : Prop where
  wellFormed : WellFormed graph
  acyclic : graph.Acyclic
  trusted : Trusted graph graph

namespace Answering

/-- An answer is right, and leaves later ones right. -/
theorem hasDominator (answering : Answering now) (target handler : NodeId) :
    (((Graph.hasDominator target handler).run now).1 = true ↔ now.Passes handler target) ∧
      Answering ((Graph.hasDominator target handler).run now).2 := by
  obtain ⟨hAnswer, hTrusted⟩ := ensures_hasDominator answering.acyclic target handler now answering.trusted
  refine ⟨hAnswer, answering.wellFormed.sameFacts hTrusted.same, ?_, hTrusted.rebase⟩
  exact answering.acyclic.of_fewer fun _ _ => hTrusted.same.leads_iff.mp

/-- With an edge less the answers that are remembered are outdated. -/
theorem disconnect (answering : Answering now) (source target : NodeId) :
    Answering (now.disconnect source target) :=
  have hKeeps : Keeps True now (now.disconnect source target) := answering.wellFormed.disconnect source target
  ⟨hKeeps.wellFormed, answering.acyclic.of_fewer fun _ _ hLeads => (leads_disconnect.mp hLeads).1,
    answering.trusted.flags (.disconnect answering.wellFormed.mirrored source target)⟩

end Answering

/-- What holds at every moment of the removal. -/
structure Purged (handlers : List NodeId) (linked now : Graph) (found : List (NodeId × NodeId)) : Prop where
  answering : Answering now
  /-- Nodes keep their dominators. -/
  kept : ∀ candidate id, linked.Passes candidate id → now.Passes candidate id
  inside : ∀ handler id, (handler, id) ∈ found → handler ∈ handlers ∧ now.Passes handler id
  gone : ∀ source target, linked.Edge source target → now.Edge source target ∨
    ∃ handler ∈ handlers, now.Passes handler source ∧ ¬linked.Passes handler target

namespace Purged

theorem start (answering : Answering linked) :
    Purged handlers linked linked (ownNodes handlers) := by
  refine ⟨answering, fun _ _ => id, fun handler id hFound => ?_, fun _ _ => .inl⟩
  obtain ⟨hHandler, rfl⟩ := mem_ownNodes.mp hFound
  exact ⟨hHandler, .refl linked _⟩

/-- An answer changes nothing but what is remembered. -/
theorem ask (purged : Purged handlers linked now found) (target handler : NodeId) :
    Purged handlers linked ((hasDominator target handler).run now).2 found := by
  have same := onlyAsks_hasDominator target handler now
  refine ⟨(purged.answering.hasDominator target handler).2, fun candidate id hLinked => ?_,
    fun other id hFound => ?_, fun source target hEdge => ?_⟩
  · exact same.passes_iff.mpr (purged.kept candidate id hLinked)
  · exact (purged.inside other id hFound).imp_right same.passes_iff.mpr
  · refine (purged.gone source target hEdge).imp same.edge_iff.mpr ?_
    exact Exists.imp fun _ => And.imp_right (And.imp_left same.passes_iff.mpr)

/-- A node that a handler dominates is one of those from which edges may be cut. -/
theorem belong (purged : Purged handlers linked now found) (hHandler : handler ∈ handlers)
    (passes : now.Passes handler target) : Purged handlers linked now ((handler, target) :: found) := by
  refine { purged with inside := fun other id hFound => ?_ }
  rcases List.mem_cons.mp hFound with hSame | hFound
  · cases hSame
    exact ⟨hHandler, passes⟩
  · exact purged.inside other id hFound

/-- Nodes keep their dominators when an edge is removed that leads away from what a handler dominates. -/
theorem cut (purged : Purged handlers linked now found) (hFound : (handler, id) ∈ found)
    (hOutside : ¬now.Passes handler target) : Purged handlers linked (now.disconnect id target) found := by
  obtain ⟨hHandler, hInside⟩ := purged.inside handler id hFound
  have hPasses (candidate other : NodeId) (passes : now.Passes candidate other) :
      (now.disconnect id target).Passes candidate other :=
    passes.of_fewer (fun _ _ hLeads => (leads_disconnect.mp hLeads).1) fun _ =>
      reached_disconnect purged.answering.acyclic hInside hOutside
  refine ⟨purged.answering.disconnect id target, fun candidate other hLinked => ?_, fun other member hMember => ?_,
    fun source finish hEdge => ?_⟩
  · exact hPasses candidate other (purged.kept candidate other hLinked)
  · exact (purged.inside other member hMember).imp_right (hPasses other member)
  by_cases hCut : source = id ∧ finish = target
  · obtain ⟨rfl, rfl⟩ := hCut
    exact .inr ⟨handler, hHandler, hPasses _ _ hInside, mt (purged.kept _ _) hOutside⟩
  · refine (purged.gone source finish hEdge).imp (fun hKept => edge_disconnect.mpr ⟨hKept, hCut⟩) ?_
    exact Exists.imp fun other => And.imp_right (And.imp_left (hPasses other source))

end Purged

/-- By induction on the removal. -/
theorem Purging.purged (purging : Purging linked linked (ownNodes handlers) now found)
    (answering : Answering linked) : Purged handlers linked now found := by
  induction purging with
  | start => exact .start answering
  | ask _ _ _ ih => exact ih.ask _ _
  | @belong now _ handler _ target _ hFound _ hInside ih =>
      have hAnswer := (ih.answering.hasDominator target handler).1.mp hInside
      have same := onlyAsks_hasDominator target handler now
      exact (ih.ask target handler).belong (ih.inside _ _ hFound).1 (same.passes_iff.mpr hAnswer)
  | @cut now _ handler _ target _ hFound _ hOutside _ ih =>
      have hAnswer : ¬now.Passes handler target := fun passes => by
        simpa [hOutside] using (ih.answering.hasDominator target handler).1.mpr passes
      have same := onlyAsks_hasDominator target handler now
      exact (ih.ask target handler).cut hFound (mt same.passes_iff.mp hAnswer)

/-- Where no node leads back to itself, queries keep what is remembered right. -/
theorem ensures_queries {truth : Graph} (acyclic : truth.Acyclic) :
    HoldsOfQueries fun {α : Type} (action : GraphM α) => GraphM.Ensures (Trusted truth) action fun _ => True where
  toCompositional := GraphM.Ensures.compositional (Trusted truth)
  get := GraphM.Ensures.get.weaken fun _ _ => trivial
  dominator id := (ensures_dominator acyclic id).weaken fun _ _ => trivial
  hasDominator id candidate := (ensures_hasDominator acyclic id candidate).weaken fun _ _ => trivial

end Graph

namespace Regions

open Decompiler.Graph

variable {graph : Graph} {source target : NodeId}

/-- Linking a handler makes what is remembered outdated. -/
theorem ensures_linkHandlers (regions : Regions) :
    GraphM.Ensures (fun graph => WellFormed graph ∧ Trusted graph graph) regions.linkHandlers fun _ => True := by
  refine (GraphM.Ensures.compositional _).linkHandlers (fun start handler graph hGraph => ⟨trivial, ?_⟩)
    (fun start id graph hGraph => ⟨trivial, ?_⟩) regions
  · have hKeeps : Keeps True graph (graph.addHandlerEdge start handler) := hGraph.1.addHandlerEdge start handler
    exact ⟨hKeeps.wellFormed, hGraph.2.flags (.addHandlerEdge graph start handler)⟩
  · have hKeeps : Keeps True graph (graph.update start fun node => { node with regions := node.regions ++ [id] }) :=
      hGraph.1.update start _ (fun _ => rfl) (hGraph.1.destination_lt start)
    exact ⟨hKeeps.wellFormed, hGraph.2.flags (.update graph start _ fun _ => rfl)⟩

/-- With the handlers linked, queries may be trusted from the start. -/
theorem answering_linked (regions : Regions) (wellFormed : WellFormed graph) (unasked : Unasked graph)
    (acyclic : (regions.linked graph).Acyclic) : Answering (regions.linked graph) := by
  obtain ⟨-, hWellFormed, hTrusted⟩ := ensures_linkHandlers regions graph ⟨wellFormed, .of_unasked unasked⟩
  have same := onlyAsks_queries.findExits regions (regions.linkHandlers.run graph).2
  have hAcyclic := acyclic.of_fewer fun _ _ => same.leads_iff.mpr
  obtain ⟨-, hFound⟩ := (ensures_queries hAcyclic).findExits regions _ hTrusted
  exact ⟨hWellFormed.sameFacts same, acyclic, hFound.rebase⟩

/-- An edge that is removed leads from a node that a handler dominates to a loop header that the handler does not
dominate. -/
theorem dominated_of_removed (regions : Regions) (wellFormed : WellFormed graph) (unasked : Unasked graph)
    (acyclic : (regions.linked graph).Acyclic) (hEdge : graph.Edge source target)
    (hRemoved : ¬((regions.resolve false).run graph).2.Edge source target) :
    (graph.node target).backedges ≠ [] ∧ ∃ handler ∈ regions.handlerNodes,
      ((regions.resolve false).run graph).2.Passes handler source ∧ ¬(regions.linked graph).Passes handler target := by
  have hTies (id : NodeId) := ties_linked regions graph id
  simp only [Node.ties, Prod.mk.injEq] at hTies
  obtain ⟨found, purging⟩ := purging_resolve regions graph
  have purged := purging.purged (answering_linked regions wellFormed unasked acyclic)
  have hLinked : (regions.linked graph).Edge source target := by rwa [Edge, (hTies source).1]
  have leaves := (purging.edge_or_leaves hLinked).resolve_left hRemoved
  exact ⟨(hTies target).2.2.1 ▸ leaves.header, (purged.gone source target hLinked).resolve_left hRemoved⟩

section Fixed

/-- What is protected is the node before the loop, so its handler leads into the loop from outside. -/
def entering : Regions := (({} : Regions).add retry 0 1 2 (some "A")).1

/-- The edge back into the loop is cut, since control also comes to the header from the front. -/
theorem dominated_of_removed_entering : WellFormed retry ∧ Unasked retry ∧ (entering.linked retry).Acyclic ∧
    retry.Edge 2 1 ∧ ¬((entering.resolve false).run retry).2.Edge 2 1 ∧ ∃ handler ∈ entering.handlerNodes,
      ((entering.resolve false).run retry).2.Passes handler 2 ∧ ¬(entering.linked retry).Passes handler 1 := by
  have hKeeps : Keeps _ {} retry := Operation.run_keeps .empty _ (by decide)
  have unasked : Unasked retry := ⟨by decide, .inl (by decide)⟩
  have acyclic : (entering.linked retry).Acyclic := .of_depth ([0, 2, 1, 3].getD · 0) (by decide +kernel)
  have hEdge : retry.Edge 2 1 := by unfold Edge; decide
  have hRemoved : ¬((entering.resolve false).run retry).2.Edge 2 1 := by unfold Edge; decide +kernel
  exact ⟨hKeeps.wellFormed, unasked, acyclic, hEdge, hRemoved,
    (dominated_of_removed entering hKeeps.wellFormed unasked acyclic hEdge hRemoved).2⟩

end Fixed

end Regions

end Decompiler
