import Decompiler.Proofs.Graph.DepthFirst
import Decompiler.Proofs.Graph.Operation

/-!
Changes of a graph and the flag for outdated dominators. Every change that the search for dominators could
notice raises the flag; no change touches the queries in progress.
-/

namespace Decompiler

/-- What the search for dominators reads of a node. -/
def Node.dominance (node : Node) : List NodeId × List NodeId × List NodeId × DominatorState :=
  (node.incoming, node.backedges, node.handlerSources, node.dominator)

namespace Graph

variable {graph middle after : Graph} {id source target : NodeId}

/-- A change leaves the queries in progress alone. Dominators are flagged as outdated, or else all that the
search for them reads is as before. -/
structure Flags (before after : Graph) : Prop where
  computing : after.computing = before.computing
  flagged : after.stale = true ∨
    (after.stale = before.stale ∧ ∀ id, (after.node id).dominance = (before.node id).dominance)

namespace Flags

theorem refl (graph : Graph) : Flags graph graph := ⟨rfl, .inr ⟨rfl, fun _ => rfl⟩⟩

/-- Once raised the flag may not come down, but a step that changes nothing needs none. -/
theorem trans (first : Flags graph middle) (second : Flags middle after) : Flags graph after := by
  refine ⟨second.computing.trans first.computing, ?_⟩
  rcases second.flagged with hRaised | ⟨hKept, hSame⟩
  · exact .inl hRaised
  · exact first.flagged.imp hKept.trans fun hFirst =>
      ⟨hKept.trans hFirst.1, fun id => (hSame id).trans (hFirst.2 id)⟩

/-- A change that the search does not notice needs no flag. -/
theorem same (hComputing : after.computing = graph.computing) (hStale : after.stale = graph.stale)
    (hSame : ∀ id, (after.node id).dominance = (graph.node id).dominance) : Flags graph after :=
  ⟨hComputing, .inr ⟨hStale, hSame⟩⟩

/-- Operands, destinations and visits are not read by the search. -/
theorem update (graph : Graph) (id : NodeId) (change : Node → Node)
    (hKeep : ∀ node, (change node).dominance = node.dominance) : Flags graph (graph.update id change) :=
  .same rfl rfl fun _ => field_update Node.dominance change (hKeep _)

theorem mapStack (graph : Graph) (id : NodeId) (change : List Operand → List Operand) :
    Flags graph (graph.mapStack id change) := update graph id _ fun _ => rfl

theorem setDestination (graph : Graph) (id : NodeId) (destination : Destination) :
    Flags graph (graph.setDestination id destination) := update graph id _ fun _ => rfl

/-! ### Edges -/

/-- A new edge raises the flag, an edge that is there changes nothing. -/
theorem connect (graph : Graph) (source target : NodeId) : Flags graph (graph.connect source target) := by
  unfold Graph.connect
  split
  · exact refl graph
  · exact ⟨rfl, .inl rfl⟩

/-- A change that does not raise the flag removed no edge. -/
theorem disconnect (mirrored : Mirrored graph) (source target : NodeId) :
    Flags graph (graph.disconnect source target) := by
  by_cases hEdge : target ∈ (graph.node source).outgoing
  · exact ⟨rfl, .inl (by simp [Graph.disconnect, hEdge])⟩
  · refine .same rfl (show (graph.stale || _) = graph.stale by simp [hEdge]) fun id => ?_
    have hIncoming : source ∉ (graph.node target).incoming := fun h => hEdge ((mirrored.mirror _ _).mpr h)
    have hBackedges : source ∉ (graph.node target).backedges := fun h =>
      hIncoming (mirrored.backedges_incoming _ _ h)
    have hRest : ((graph.disconnect source target).node id).handlerSources = (graph.node id).handlerSources ∧
        ((graph.disconnect source target).node id).dominator = (graph.node id).dominator :=
      have same := sameBlocks_disconnect graph source target
      ⟨same.field Node.handlerSources (fun _ => rfl) id, same.field Node.dominator (fun _ => rfl) id⟩
    simp only [Node.dominance, incoming_disconnect, backedges_disconnect, hRest, Prod.mk.injEq, and_true]
    constructor
    all_goals
      split
      · next hSame =>
          subst hSame
          refine List.filter_eq_self.mpr fun other hOther => bne_iff_ne.mpr ?_
          rintro rfl
          contradiction
      · rfl

/-- The edge from a region to its handler counts for dominance, so it raises the flag. -/
theorem addHandlerEdge (graph : Graph) (start handler : NodeId) :
    Flags graph (graph.addHandlerEdge start handler) := by
  unfold Graph.addHandlerEdge
  split
  · exact refl graph
  · exact ⟨rfl, .inl rfl⟩

/-! ### Places -/

theorem link (graph : Graph) (previous next : Option NodeId) : Flags graph (graph.link previous next) := by
  have hPrevious (id : NodeId) : Flags graph (graph.update id fun node => { node with next }) :=
    update graph id _ fun _ => rfl
  have hNext (middle : Graph) (id : NodeId) : Flags middle (middle.update id fun node => { node with previous }) :=
    update middle id _ fun _ => rfl
  cases previous <;> cases next
  · exact refl graph
  · exact hNext graph _
  · exact hPrevious _
  · exact (hPrevious _).trans (hNext _ _)

/-- A blank node beyond the arena has no edges, like what was read there before. -/
theorem allocate (graph : Graph) (label : Option Label) (name : String) :
    Flags graph (graph.allocate label name).2 :=
  .same rfl rfl fun _ => field_allocate Node.dominance label name rfl

theorem nodeOfLabel (graph : Graph) (label : Label) : Flags graph (graph.nodeOfLabel label).2 := by
  unfold Graph.nodeOfLabel
  split
  · exact refl graph
  · exact (allocate graph (some label) _).trans (.same rfl rfl fun _ => rfl)

/-- A node that gets its place is reached by the search from then on. -/
theorem append (graph : Graph) (id : NodeId) : Flags graph (graph.append id) := by
  unfold Graph.append
  cases graph.order.getLast? with
  | none => exact .same rfl rfl fun _ => rfl
  | some last => exact (link graph (some last) (some id)).trans (.same rfl rfl fun _ => rfl)

/-- A new node is placed and linked to its neighbours. -/
theorem place (graph : Graph) (order : List NodeId) (before id after : Option NodeId) :
    Flags graph ((({ graph.createAnonymous.2 with order } : Graph).link before id).link id after) := by
  have hPlaced : Flags graph { graph.createAnonymous.2 with order } :=
    (allocate graph none _).trans (.same rfl rfl fun _ => rfl)
  exact (hPlaced.trans (link _ before id)).trans (link _ id after)

/-- The edges that the new node takes over raise the flag. -/
theorem insertAfter (graph : Graph) (id : NodeId) : Flags graph (graph.insertAfter id).2 := by
  simp only [Graph.insertAfter]
  exact place graph _ _ _ _

theorem insertBefore (graph : Graph) (id : NodeId) : Flags graph (graph.insertBefore id).2 := by
  simp only [Graph.insertBefore]
  exact place graph _ _ _ _

/-! ### Disposing and merging -/

theorem computing_foldl {α : Type} (step : Graph → α → Graph)
    (hStep : ∀ graph item, (step graph item).computing = graph.computing) (items : List α) (graph : Graph) :
    (items.foldl step graph).computing = graph.computing := by
  induction items generalizing graph with
  | nil => rfl
  | cons item rest ih => exact (ih _).trans (hStep graph item)

/-- Queries in progress are no part of what is rewired. -/
theorem computing_bypass (graph : Graph) (target source sink : NodeId) (closing : Bool) :
    (graph.bypass target source sink closing).computing = graph.computing := by
  have hConnected := (connect graph source sink).computing
  rcases bypass_cases graph target source sink closing with hPlain | ⟨_, hMarked⟩
  · rw [hPlain, hConnected]
  · rw [hMarked]
    exact hConnected

/-- By the pairs of edges that go past the node. -/
theorem computing_rewired (graph : Graph) (target : NodeId) :
    (graph.rewired target).computing = graph.computing := by
  refine (computing_foldl _ ?_ _ _).trans ((computing_foldl _ ?_ _ _).trans (link _ _ _).computing)
  · exact fun _ _ => rfl
  · exact fun graph source => computing_foldl _ (fun graph sink => computing_bypass graph target source sink _) _ graph

theorem moveStack (graph : Graph) (target : NodeId) (previous : Option NodeId) (clearStack : Bool) :
    Flags graph (graph.moveStack target previous clearStack) := by
  unfold Graph.moveStack
  split
  · split
    · exact refl graph
    · exact update graph _ _ fun _ => rfl
  · exact refl graph

/-- A node that goes raises the flag, whatever becomes of its edges. -/
theorem disposeOne (graph : Graph) (target : NodeId) (clearStack : Bool) :
    Flags graph (graph.disposeOne target clearStack) := by
  rw [disposeOne_eq]
  refine ⟨(moveStack _ target _ clearStack).computing.trans ?_, .inl rfl⟩
  refine (computing_foldl _ ?_ _ _).trans (computing_rewired graph target)
  exact fun _ _ => rfl

/-- Each node of the chain raises the flag. -/
theorem disposeFrom (graph : Graph) (fuel : Nat) (target : NodeId) (clearStack recursive : Bool) :
    Flags graph (graph.disposeFrom fuel target clearStack recursive).2 := by
  induction fuel generalizing graph target with
  | zero => exact refl graph
  | succ fuel ih =>
      have hFirst := disposeOne graph target clearStack
      simp only [Graph.disposeFrom]
      split
      · exact refl graph
      · split
        · split
          · exact hFirst.trans (ih _ _)
          · exact hFirst
        · exact hFirst

theorem dispose (graph : Graph) (target : NodeId) (clearStack recursive : Bool) :
    Flags graph (graph.dispose target clearStack recursive).2 := disposeFrom graph _ target clearStack recursive

/-- Joined conditions are operands only, and every node that goes raises the flag. -/
theorem mergeFrom (graph : Graph) (fuel : Nat) (id : NodeId) : Flags graph (graph.mergeFrom fuel id).2 := by
  induction fuel generalizing graph id with
  | zero => exact refl graph
  | succ fuel ih =>
      simp only [Graph.mergeFrom]
      rcases joinTop_cases graph id with hNone | ⟨_, fold, supply, top, rest, _, hJoin, _⟩
      · rw [hNone]
        exact refl graph
      · rw [hJoin]
        have hSupplied : Flags graph { graph with supply } := .same rfl rfl fun _ => rfl
        have hJoined := hSupplied.trans (mapStack _ id fun _ => graph.joinedStack id top rest)
        cases fold with
        | none => exact hJoined
        | some previous => exact (hJoined.trans (dispose _ id false true)).trans (ih _ previous)

/-! ### Connectors and splits -/

/-- A new edge raises the flag. -/
theorem stale_connect (hNew : target ∉ (graph.node source).outgoing) :
    (graph.connect source target).stale = true := by
  simp [Graph.connect, hNew]

/-- The flag stays raised. -/
theorem raised (flags : Flags graph after) (hRaised : graph.stale = true) : after.stale = true :=
  flags.flagged.elim id fun hSame => hSame.1.trans hRaised

/-- An edge goes through a new node instead. Only the new node's own edge is marked afterwards, so the flag is
raised by then. -/
theorem createConnector (wellFormed : WellFormed graph) (source target : NodeId) :
    Flags graph (graph.createConnector source target).2 := by
  obtain ⟨hCreated, hSize, _⟩ := insertAfter_frame graph source
  have hOutgoing : ((graph.insertAfter source).2.node source).outgoing = (graph.node source).outgoing :=
    field_insertAfter Node.outgoing (fun _ _ _ => rfl) (fun _ => rfl)
  have hNew : graph.nodes.size ∉ ((graph.insertAfter source).2.node source).outgoing := by
    rw [hOutgoing]
    exact fun hEdge => Nat.lt_irrefl _ (wellFormed.mirrored.edge_lt hEdge).2
  have hInserted := insertAfter graph source
  simp only [Graph.createConnector, hCreated]
  generalize (graph.insertAfter source).2 = inserted at *
  generalize hNamed : (inserted.update graph.nodes.size _) = named
  have hNamedFlags : Flags inserted named := hNamed ▸ update inserted _ _ fun _ => rfl
  have hRaised : ((named.disconnect source target).connect source graph.nodes.size).stale = true := by
    refine stale_connect fun hEdge => hNew ?_
    rw [outgoing_disconnect, if_pos rfl, ← hNamed, field_update Node.outgoing _ rfl] at hEdge
    exact (List.mem_filter.mp hEdge).1
  have hConnected := connect ((named.disconnect source target).connect source graph.nodes.size) graph.nodes.size target
  have hRouted : Flags graph (((named.disconnect source target).connect source graph.nodes.size).connect
      graph.nodes.size target) :=
    ⟨hConnected.computing.trans ((connect _ _ _).computing.trans
      (hNamedFlags.computing.trans hInserted.computing)), .inl (hConnected.raised hRaised)⟩
  have hStale := hConnected.raised hRaised
  generalize ((named.disconnect source target).connect source graph.nodes.size).connect graph.nodes.size target =
    routed at *
  split
  · exact ⟨hRouted.computing, .inl hStale⟩
  · exact ⟨hRouted.computing, .inl hStale⟩

/-- An edge goes over to the upper node, so the flag is raised, or it stays where it is. -/
theorem moveEdge (mirrored : Mirrored graph) (lower upper : NodeId) (kept moved : List NodeId) (sink : NodeId) :
    Flags graph (Graph.moveEdge lower upper kept moved graph sink) := by
  unfold Graph.moveEdge
  split
  · exact (disconnect mirrored lower sink).trans (connect _ upper sink)
  · split
    · exact connect graph upper sink
    · exact refl graph

/-- The representation holds after each edge, which the next one needs. -/
theorem moveEdges (wellFormed : WellFormed graph) (lower upper : NodeId) (kept moved sinks : List NodeId)
    (hUpper : upper < graph.nodes.size) (hSinks : ∀ sink ∈ sinks, sink < graph.nodes.size) :
    Flags graph (sinks.foldl (Graph.moveEdge lower upper kept moved) graph) := by
  induction sinks generalizing graph with
  | nil => exact refl graph
  | cons sink sinks ih =>
      have hSize := (sameBlocks_moveEdge graph lower upper kept moved sink).size
      have hFirst : Keeps False graph (Graph.moveEdge lower upper kept moved graph sink) :=
        wellFormed.moveEdge kept moved hUpper (hSinks sink List.mem_cons_self) False.elim
      refine (moveEdge wellFormed.mirrored lower upper kept moved sink).trans
        (ih hFirst.wellFormed (hSize ▸ hUpper) fun other hOther => ?_)
      exact hSize ▸ hSinks other (List.mem_cons_of_mem _ hOther)

/-- A split takes edges over one by one and closes with the edge between its halves. -/
theorem separate (wellFormed : WellFormed graph) (id created : NodeId) (lower upper : List Operand)
    (kept sinks : List NodeId) (hCreated : created < graph.nodes.size)
    (hSinks : ∀ sink ∈ sinks, sink < graph.nodes.size) :
    Flags graph (graph.separate id created lower upper kept sinks) := by
  have hShared : Flags graph (graph.shareStack id created lower upper) :=
    (mapStack graph created _).trans (mapStack _ id _)
  have hKeeps : Keeps False graph _ := wellFormed.shareStack id created lower upper
  have hSize := (SameLife.shareStack graph id created lower upper).size
  have hMoved := moveEdges hKeeps.wellFormed id created kept (jumpTargets upper) sinks (hSize ▸ hCreated)
    (hSize ▸ hSinks)
  exact (((hShared.trans hMoved).trans (mapStack _ id _)).trans (connect _ id created)).trans
    (setDestination _ id _)

theorem takeOver (graph : Graph) (created : NodeId) (node : Node) : Flags graph (graph.takeOver created node) := by
  unfold Graph.takeOver
  split
  · exact (connect graph created _).trans (update _ created _ fun _ => rfl)
  · exact update graph created _ fun _ => rfl

/-- A node that is split is placed, so its edges lead to nodes of the arena. -/
theorem split? (wellFormed : WellFormed graph) (hId : id ∈ graph.order) {created : NodeId}
    (hSplit : graph.split? id = some (created, after)) : Flags graph after := by
  obtain ⟨hCreated, lower, upper, kept, _, rfl⟩ := split?_eq_some hSplit
  obtain ⟨hNew, hSize, _⟩ := insertAfter_frame graph id
  obtain rfl := hCreated.trans hNew
  have hInserted : Keeps False graph _ := wellFormed.insertAfter hId
  have hFresh : graph.nodes.size < (graph.insertAfter id).2.nodes.size := hSize ▸ Nat.lt_succ_self _
  have hSinks : ∀ sink ∈ (graph.node id).outgoing, sink < (graph.insertAfter id).2.nodes.size :=
    fun sink hSink => Nat.lt_trans (wellFormed.mirrored.edge_lt (show graph.Edge id sink from hSink)).2 hFresh
  exact ((insertAfter graph id).trans (separate hInserted.wellFormed id graph.nodes.size lower upper kept _
    hFresh hSinks)).trans (takeOver _ _ _)

/-- The upper half is split on, until the node mixes no more. -/
theorem splitFrom (wellFormed : WellFormed graph) (fuel : Nat) (hId : id ∈ graph.order) :
    Flags graph (graph.splitFrom fuel id).2 := by
  induction fuel generalizing graph id with
  | zero => exact refl graph
  | succ fuel ih =>
      simp only [Graph.splitFrom]
      split
      · next created after hSplit =>
          exact (split? wellFormed hId hSplit).trans
            (ih (wellFormed.split? hId hSplit).wellFormed (placed_split hSplit).1)
      · exact refl graph

/-! ### Finding back-edges -/

/-- The search for back-edges raises the flag itself. -/
theorem computeBackedges (graph : Graph) : Flags graph graph.computeBackedges :=
  ⟨computeBackedges_of_marks (·.computing = graph.computing) (fun _ _ hSame => hSame) (fun _ _ _ hSame => hSame)
    (fun _ hSame => hSame) rfl, .inl rfl⟩

end Flags

namespace Operation

/-- What an operation needs to keep the representation. Edges may run to nodes without a place, and a node that
is gone may be disposed of again. -/
def Admissible (graph : Graph) : Operation → Prop
  | .connector source target => source ∈ graph.order ∧ target < graph.nodes.size
  | .dispose id _ _ => id ∈ graph.order ∨ (graph.node id).disposed = true
  | .connect source target | .disconnect source target | .addHandlerEdge source target =>
    source < graph.nodes.size ∧ target < graph.nodes.size
  | operation => operation.Permitted graph

instance (graph : Graph) : (operation : Operation) → Decidable (operation.Admissible graph)
  | .connector _ _ | .connect _ _ | .disconnect _ _ | .addHandlerEdge _ _ => inferInstanceAs (Decidable (_ ∧ _))
  | .dispose _ _ _ => inferInstanceAs (Decidable (_ ∨ _))
  | .label name => inferInstanceAs (Decidable (Permitted graph (.label name)))
  | .anonymous => inferInstanceAs (Decidable (Permitted graph .anonymous))
  | .append id => inferInstanceAs (Decidable (Permitted graph (.append id)))
  | .insertAfter id => inferInstanceAs (Decidable (Permitted graph (.insertAfter id)))
  | .insertBefore id => inferInstanceAs (Decidable (Permitted graph (.insertBefore id)))
  | .merge id => inferInstanceAs (Decidable (Permitted graph (.merge id)))
  | .split id => inferInstanceAs (Decidable (Permitted graph (.split id)))
  | .splitMixed id => inferInstanceAs (Decidable (Permitted graph (.splitMixed id)))
  | .setDestination id destination => inferInstanceAs (Decidable (Permitted graph (.setDestination id destination)))
  | .push id operand => inferInstanceAs (Decidable (Permitted graph (.push id operand)))
  | .computeBackedges => inferInstanceAs (Decidable (Permitted graph .computeBackedges))

variable {operation : Operation}

/-- What is admissible keeps the representation, by the lemma for each operation. -/
theorem Admissible.wellFormed (hAdmissible : operation.Admissible graph) (wellFormed : WellFormed graph) :
    WellFormed (operation.apply graph) := by
  suffices hKeeps : ∃ safe, Keeps safe graph (operation.apply graph) from hKeeps.choose_spec.wellFormed
  cases operation with
  | connector source target =>
      exact ⟨False, wellFormed.createConnector hAdmissible.1 hAdmissible.2 False.elim⟩
  | dispose id clearStack recursive => exact ⟨True, wellFormed.dispose id clearStack recursive hAdmissible⟩
  | connect source target => exact ⟨False, wellFormed.connect hAdmissible.1 hAdmissible.2 False.elim⟩
  | disconnect source target => exact ⟨True, wellFormed.disconnect source target⟩
  | addHandlerEdge start handler => exact ⟨True, wellFormed.addHandlerEdge start handler⟩
  | _ => exact ⟨_, apply_keeps wellFormed _ (by exact hAdmissible)⟩

/-- Every operation raises the flag where a query could notice it. -/
theorem Admissible.flags (hAdmissible : operation.Admissible graph) (wellFormed : WellFormed graph) :
    Flags graph (operation.apply graph) := by
  cases operation with
  | label name => exact .nodeOfLabel graph name
  | anonymous => exact .allocate graph none _
  | append id => exact .append graph id
  | insertAfter id => exact .insertAfter graph id
  | insertBefore id => exact .insertBefore graph id
  | connector source target => exact .createConnector wellFormed source target
  | dispose id clearStack recursive => exact .dispose graph id clearStack recursive
  | merge id => exact .mergeFrom graph _ id
  | split id =>
      simp only [Operation.apply]
      cases hSplit : graph.split? id with
      | none => exact .refl graph
      | some result => exact .split? wellFormed hAdmissible hSplit
  | splitMixed id => exact .splitFrom wellFormed _ hAdmissible
  | connect source target => exact .connect graph source target
  | disconnect source target => exact .disconnect wellFormed.mirrored source target
  | addHandlerEdge start handler => exact .addHandlerEdge graph start handler
  | setDestination id destination => exact .setDestination graph id destination
  | push id operand => exact .mapStack graph id (· ++ [operand])
  | computeBackedges => exact .computeBackedges graph

end Operation

end Graph

end Decompiler
