import Decompiler.Graph.Dominance
import Decompiler.Graph.Merge
import Decompiler.Graph.Stack
import Decompiler.Proofs.Graph.Disposal
import Mathlib.Data.List.TakeWhile

/-!
The representation of a graph as a whole: mirrored edges, an order of appearance with its links, and
destinations inside the arena. Every change of the graph keeps it. As long as no edge is led to a node that
is gone, disposed nodes have no edges either.
-/

namespace Decompiler

/-- What the representation of a graph says about a node. -/
def Node.ties (node : Node) :
    List NodeId × List NodeId × List NodeId × Bool × Option NodeId × Option NodeId :=
  (node.outgoing, node.incoming, node.backedges, node.disposed, node.previous, node.next)

namespace Graph

variable {graph middle after : Graph} {safe : Prop} {id other source target a b : NodeId}

/-- What every graph that is built keeps: edges known at both ends, an order that the links follow, and destinations
in the arena. -/
structure WellFormed (graph : Graph) : Prop where
  mirrored : Mirrored graph
  linked : Linked graph
  destination_lt : ∀ id target, (graph.node id).destination = some (.node target) → target < graph.nodes.size

/-- Edges run between nodes that are not disposed. -/
def Apart (graph : Graph) : Prop :=
  ∀ a b, graph.Edge a b → (graph.node a).disposed = false ∧ (graph.node b).disposed = false

/-- Disposed nodes have no edges left, in either direction. -/
theorem Apart.edges_nil (apart : Apart graph) (mirrored : Mirrored graph)
    (hDisposed : (graph.node id).disposed = true) :
    (graph.node id).outgoing = [] ∧ (graph.node id).incoming = [] := by
  constructor
  · refine List.eq_nil_iff_forall_not_mem.mpr fun target hEdge => ?_
    have hLive := (apart id target hEdge).1
    simp [hDisposed] at hLive
  · refine List.eq_nil_iff_forall_not_mem.mpr fun source hEdge => ?_
    have hLive := (apart source id (mirrored.mem_incoming.mp hEdge)).2
    simp [hDisposed] at hLive

/-- The node has its place in the order of appearance, or had it before it was disposed of. -/
def Settled (graph : Graph) (id : NodeId) : Prop := id ∈ graph.order ∨ (graph.node id).disposed = true

/-- A change keeps the representation, and if it is safe it leads no edge to a disposed node. A node that was
placed once is never again without a place but by being disposed of. -/
structure Keeps (safe : Prop) (before after : Graph) : Prop where
  wellFormed : WellFormed after
  apart : safe → Apart before → Apart after
  settled : ∀ id, Settled before id → Settled after id

namespace Keeps

theorem refl (wellFormed : WellFormed graph) : Keeps safe graph graph :=
  ⟨wellFormed, fun _ => id, fun _ => id⟩

theorem trans (first : Keeps safe graph middle) (second : Keeps safe middle after) : Keeps safe graph after :=
  ⟨second.wellFormed, fun hSafe => second.apart hSafe ∘ first.apart hSafe,
    fun id => second.settled id ∘ first.settled id⟩

/-- Two changes in turn. -/
theorem andThen (first : Keeps safe graph middle) (second : WellFormed middle → Keeps safe middle after) :
    Keeps safe graph after := first.trans (second first.wellFormed)

/-- No node is disposed of, and new edges run between nodes that are not. -/
theorem of_edges (wellFormed : WellFormed after) (hOrder : ∀ id ∈ graph.order, id ∈ after.order)
    (hDisposed : ∀ id, (after.node id).disposed = (graph.node id).disposed)
    (hEdges : safe → ∀ a b, after.Edge a b → graph.Edge a b ∨
      ((graph.node a).disposed = false ∧ (graph.node b).disposed = false)) : Keeps safe graph after where
  wellFormed := wellFormed
  apart hSafe apart a b hEdge := by
    rw [hDisposed, hDisposed]
    rcases hEdges hSafe a b hEdge with hOld | hNew
    · exact apart a b hOld
    · exact hNew
  settled id hSettled := hSettled.imp (hOrder id) (fun hGone => hDisposed id ▸ hGone)

end Keeps

namespace WellFormed

/-- The ties of the nodes and their destinations are all that matters. -/
theorem congr (wellFormed : WellFormed graph) (hOrder : after.order = graph.order)
    (hSize : after.nodes.size = graph.nodes.size)
    (hTies : ∀ id, (after.node id).ties = (graph.node id).ties)
    (hDestination : ∀ id target, (after.node id).destination = some (.node target) →
      target < graph.nodes.size) : Keeps safe graph after := by
  simp only [Node.ties, Prod.mk.injEq] at hTies
  refine .of_edges ⟨?_, ?_, ?_⟩ (fun _ => (hOrder ▸ ·)) (fun id => (hTies id).2.2.2.1) fun _ a b hEdge => .inl ?_
  · exact wellFormed.mirrored.congr fun id => ⟨(hTies id).1, (hTies id).2.1, (hTies id).2.2.1⟩
  · exact wellFormed.linked.congr hOrder hSize (fun id => (hTies id).2.2.2.1)
      (fun id => (hTies id).2.2.2.2.1) (fun id => (hTies id).2.2.2.2.2)
  · exact hSize ▸ hDestination
  · rwa [Edge, (hTies a).1] at hEdge

/-- A change of one node that keeps its ties. -/
theorem update (wellFormed : WellFormed graph) (id : NodeId) (change : Node → Node)
    (hTies : ∀ node, (change node).ties = node.ties)
    (hDestination : ∀ target, (change (graph.node id)).destination = some (.node target) →
      target < graph.nodes.size) : Keeps safe graph (graph.update id change) := by
  refine wellFormed.congr rfl (size_update _ _ _) (fun other => field_update Node.ties change (hTies _)) ?_
  intro other target hTarget
  rw [node_update] at hTarget
  split at hTarget
  · next h => exact hDestination target (h.1 ▸ hTarget)
  · exact wellFormed.destination_lt other target hTarget

theorem sameBlocks (wellFormed : WellFormed graph) (same : SameBlocks graph after)
    (mirrored : Mirrored after) : WellFormed after where
  mirrored := mirrored
  linked := wellFormed.linked.sameBlocks same
  destination_lt id target hTarget := by
    rw [same.field Node.destination (fun _ => rfl) id] at hTarget
    exact same.size ▸ wellFormed.destination_lt id target hTarget

/-- A new edge between nodes of the arena. It is safe between live ones. -/
theorem connect (wellFormed : WellFormed graph) (hSource : source < graph.nodes.size)
    (hTarget : target < graph.nodes.size)
    (hLive : safe → (graph.node source).disposed = false ∧ (graph.node target).disposed = false) :
    Keeps safe graph (graph.connect source target) := by
  have same := sameBlocks_connect graph source target
  refine .of_edges (wellFormed.sameBlocks same (wellFormed.mirrored.connect hSource hTarget))
    (fun _ => (same.order ▸ ·)) (fun id => same.field Node.disposed (fun _ => rfl) id) fun hSafe a b hEdge => ?_
  rcases (edge_connect hSource).mp hEdge with hOld | ⟨rfl, rfl⟩
  · exact .inl hOld
  · exact .inr (hLive hSafe)

/-- No change takes less to be safe. -/
theorem disconnect (wellFormed : WellFormed graph) (source target : NodeId) :
    Keeps safe graph (graph.disconnect source target) := by
  have same := sameBlocks_disconnect graph source target
  exact .of_edges (wellFormed.sameBlocks same (wellFormed.mirrored.disconnect source target))
    (fun _ => (same.order ▸ ·)) (fun id => same.field Node.disposed (fun _ => rfl) id) fun _ a b hEdge =>
      .inl (edge_disconnect.mp hEdge).1

/-- A mark on an edge that has none. -/
theorem mark (wellFormed : WellFormed graph) (source target : NodeId) (hEdge : graph.Edge source target)
    (hFresh : source ∉ (graph.node target).backedges) :
    Keeps safe graph (graph.update target fun node => { node with backedges := node.backedges ++ [source] }) := by
  have same := sameBlocks_update graph target
    (fun node => { node with backedges := node.backedges ++ [source] }) fun _ => rfl
  refine .of_edges (wellFormed.sameBlocks same (wellFormed.mirrored.mark hEdge hFresh))
    (fun _ => (same.order ▸ ·)) (fun id => same.field Node.disposed (fun _ => rfl) id) fun _ a b hNew => .inl ?_
  rwa [Edge, field_update Node.outgoing _ rfl] at hNew

/-- Regions are told beside the edges. -/
theorem addHandlerEdge (wellFormed : WellFormed graph) (start handler : NodeId) :
    Keeps safe graph (graph.addHandlerEdge start handler) := by
  unfold Graph.addHandlerEdge
  split
  · exact .refl wellFormed
  · exact (wellFormed.update handler
      (fun node => { node with handlerSources := node.handlerSources ++ [start] }) (fun _ => rfl)
      (wellFormed.destination_lt handler)).andThen fun hUpdated =>
        hUpdated.congr rfl rfl (fun _ => rfl) hUpdated.destination_lt

/-- Destinations stay in the arena. -/
theorem setDestination (wellFormed : WellFormed graph) (id : NodeId) (destination : Destination)
    (hTarget : ∀ target, destination = .node target → target < graph.nodes.size) :
    Keeps safe graph (graph.setDestination id destination) :=
  wellFormed.update id _ (fun _ => rfl) fun target hDestination => hTarget target (Option.some.inj hDestination)

/-- Stacks are no part of the representation. -/
theorem mapStack (wellFormed : WellFormed graph) (id : NodeId) (change : List Operand → List Operand) :
    Keeps safe graph (graph.mapStack id change) :=
  wellFormed.update id _ (fun _ => rfl) (wellFormed.destination_lt id)

/-! ### New nodes and their places -/

/-- A new node has no edges, no place and no destination. -/
theorem allocate (wellFormed : WellFormed graph) (label : Option Label) (name : String) :
    Keeps safe graph (graph.allocate label name).2 := by
  refine .of_edges ⟨wellFormed.mirrored.allocate label name, wellFormed.linked.allocate label name, ?_⟩
    (fun _ => id) (fun id => field_allocate Node.disposed label name rfl) fun _ a b hEdge => .inl ?_
  · intro id target hTarget
    rw [field_allocate Node.destination label name rfl] at hTarget
    exact size_allocate graph label name ▸ Nat.lt_succ_of_lt (wellFormed.destination_lt id target hTarget)
  · rwa [Edge, field_allocate Node.outgoing label name rfl] at hEdge

theorem nodeOfLabel (wellFormed : WellFormed graph) (label : Label) :
    Keeps safe graph (graph.nodeOfLabel label).2 := by
  unfold Graph.nodeOfLabel
  split
  · exact .refl wellFormed
  · exact (wellFormed.allocate (some label) _).andThen fun hAllocated =>
      hAllocated.congr rfl rfl (fun _ => rfl) hAllocated.destination_lt

/-- A node without a place gets the last one. -/
theorem append (wellFormed : WellFormed graph) (hId : id < graph.nodes.size) (hFresh : id ∉ graph.order)
    (hLive : (graph.node id).disposed = false) : Keeps safe graph (graph.append id) := by
  refine .of_edges ⟨wellFormed.mirrored.append, wellFormed.linked.append hId hFresh hLive, ?_⟩
    (fun _ hOld => by simp [hOld]) (fun id => field_append Node.disposed (fun _ _ _ => rfl)) fun _ a b hEdge => .inl ?_
  · intro other target hTarget
    rw [field_append Node.destination (fun _ _ _ => rfl)] at hTarget
    exact size_append graph id ▸ wellFormed.destination_lt other target hTarget
  · rwa [Edge, field_append Node.outgoing (fun _ _ _ => rfl)] at hEdge

/-- A node without a place gets one between two others. -/
theorem between (wellFormed : WellFormed graph) {front back : List NodeId}
    (hOrder : graph.order = front ++ back) (hId : id < graph.nodes.size) (hFresh : id ∉ graph.order)
    (hLive : (graph.node id).disposed = false) : Keeps safe graph (graph.between front id back) := by
  refine .of_edges ⟨wellFormed.mirrored.between, wellFormed.linked.between hOrder hId hFresh hLive, ?_⟩
    (fun _ hOld => by rw [hOrder] at hOld; simp at hOld ⊢; tauto)
    (fun id => field_between Node.disposed (fun _ _ _ => rfl)) fun _ a b hEdge => .inl ?_
  · intro other target hTarget
    rw [field_between Node.destination (fun _ _ _ => rfl)] at hTarget
    exact size_between graph front id back ▸ wellFormed.destination_lt other target hTarget
  · rwa [Edge, field_between Node.outgoing (fun _ _ _ => rfl)] at hEdge

/-- A new node is placed between two parts of the order. -/
theorem create (wellFormed : WellFormed graph) {front back : List NodeId}
    (hOrder : graph.order = front ++ back) :
    Keeps safe graph (graph.createAnonymous.2.between front graph.nodes.size back) := by
  refine (wellFormed.allocate none _).andThen fun hCreated =>
    hCreated.between hOrder ?_ wellFormed.linked.size_not_mem ?_
  · rw [size_allocate]
    exact Nat.lt_succ_self _
  · exact live_createAnonymous graph

theorem insertAfter (wellFormed : WellFormed graph) (hId : id ∈ graph.order) :
    Keeps safe graph (graph.insertAfter id).2 := by
  obtain ⟨front, back, hOrder⟩ := List.append_of_mem hId
  rw [insertAfter_eq wellFormed.linked hOrder]
  exact wellFormed.create (by simpa using hOrder)

theorem insertBefore (wellFormed : WellFormed graph) (hId : id ∈ graph.order) :
    Keeps safe graph (graph.insertBefore id).2 := by
  obtain ⟨front, back, hOrder⟩ := List.append_of_mem hId
  rw [insertBefore_eq wellFormed.linked hOrder]
  exact wellFormed.create hOrder

/-! ### Disposing -/

theorem redirection_lt (wellFormed : WellFormed graph) (hTarget : target ∈ graph.order) {sink : NodeId}
    (hSink : graph.redirection target = some sink) : sink < graph.nodes.size := by
  have hNext : ∀ next, (graph.node target).next = some next → next < graph.nodes.size := fun next hNext =>
    wellFormed.linked.lt next (wellFormed.linked.mem_of_next hTarget hNext)
  obtain ⟨hResolved, _⟩ := Option.filter_eq_some_iff.mp hSink
  simp only [resolvedDestination?] at hResolved
  split at hResolved
  · next h => exact wellFormed.destination_lt target sink (Option.some.inj hResolved ▸ h)
  · exact hNext sink hResolved
  · cases hHead : (graph.node target).outgoing.head? with
    | none => exact hNext sink (by simpa [hHead] using hResolved)
    | some first =>
        obtain rfl : first = sink := by simpa [hHead] using hResolved
        have hEdge : graph.Edge target first := List.mem_of_head? hHead
        exact (wellFormed.mirrored.edge_lt hEdge).2

theorem disposeOne (wellFormed : WellFormed graph) (hTarget : target ∈ graph.order) (clearStack : Bool) :
    Keeps safe graph (graph.disposeOne target clearStack) := by
  have linked := wellFormed.linked
  refine ⟨⟨wellFormed.mirrored.disposeOne linked clearStack hTarget, linked.disposeOne clearStack hTarget, ?_⟩,
    fun _ apart a b hEdge => ?_, fun id hSettled => ?_⟩
  · intro id sink hSink
    rw [size_disposeOne]
    rw [destination_disposeOne linked hTarget clearStack] at hSink
    split at hSink
    · obtain ⟨_, hRedirected, hNode⟩ := Option.map_eq_some_iff.mp hSink
      cases hNode
      exact wellFormed.redirection_lt hTarget hRedirected
    · exact wellFormed.destination_lt id sink hSink
  · obtain ⟨ha, hb, hOld⟩ := (edge_disposeOne linked hTarget clearStack wellFormed.mirrored).mp hEdge
    rw [disposed_disposeOne linked hTarget, disposed_disposeOne linked hTarget]
    simp only [ha, hb, decide_false, Bool.false_or]
    rcases hOld with hOld | ⟨hIn, hOut⟩
    · exact apart a b hOld
    · exact ⟨(apart a target hIn).1, (apart target b hOut).2⟩
  · rw [Settled, order_disposeOne, linked.nodup.mem_erase_iff, disposed_disposeOne linked hTarget]
    by_cases hSame : id = target
    · simp [hSame]
    · simpa [hSame, Settled] using hSettled

/-- Disposing of a placed node, or of one that is gone already. -/
theorem disposeFrom (wellFormed : WellFormed graph) (fuel : Nat) (clearStack recursive : Bool)
    (hTarget : target ∈ graph.order ∨ (graph.node target).disposed = true) :
    Keeps safe graph (graph.disposeFrom fuel target clearStack recursive).2 := by
  induction fuel generalizing graph target with
  | zero => exact .refl wellFormed
  | succ fuel ih =>
      simp only [Graph.disposeFrom]
      split
      · exact .refl wellFormed
      · next hLive =>
          have hPlaced : target ∈ graph.order := hTarget.resolve_right hLive
          have hFirst : Keeps safe graph _ := wellFormed.disposeOne hPlaced clearStack
          split
          · next before hBefore =>
              split
              · have hStays : before ∈ (graph.disposeOne target clearStack).order := by
                  rw [order_disposeOne, wellFormed.linked.nodup.mem_erase_iff]
                  refine ⟨?_, wellFormed.linked.mem_of_previous hPlaced hBefore⟩
                  rintro rfl
                  exact wellFormed.linked.previous_ne hPlaced hBefore
                exact hFirst.trans (ih hFirst.wellFormed (.inl hStays))
              · exact hFirst
          · exact hFirst

theorem dispose (wellFormed : WellFormed graph) (target : NodeId) (clearStack recursive : Bool)
    (hTarget : target ∈ graph.order ∨ (graph.node target).disposed = true) :
    Keeps safe graph (graph.dispose target clearStack recursive).2 :=
  wellFormed.disposeFrom _ clearStack recursive hTarget

/-! ### Connectors and splits -/

/-- An edge goes through a third node instead. -/
theorem reroute (wellFormed : WellFormed graph) (source id target : NodeId) (hSource : source < graph.nodes.size)
    (hId : id < graph.nodes.size) (hTarget : target < graph.nodes.size)
    (hLive : safe → (graph.node source).disposed = false ∧ (graph.node id).disposed = false ∧
      (graph.node target).disposed = false) :
    Keeps safe graph (((graph.disconnect source target).connect source id).connect id target) := by
  have same := sameBlocks_disconnect graph source target
  have same' := same.trans (sameBlocks_connect _ source id)
  refine (wellFormed.disconnect source target).andThen fun hFirst =>
    (hFirst.connect (same.size ▸ hSource) (same.size ▸ hId) fun hSafe => ?_).andThen fun hSecond =>
      hSecond.connect (same'.size ▸ hId) (same'.size ▸ hTarget) fun hSafe => ?_
  · rw [same.field Node.disposed (fun _ => rfl) source, same.field Node.disposed (fun _ => rfl) id]
    exact ⟨(hLive hSafe).1, (hLive hSafe).2.1⟩
  · rw [same'.field Node.disposed (fun _ => rfl) id, same'.field Node.disposed (fun _ => rfl) target]
    exact (hLive hSafe).2

/-- The new node leads on, and the old node names it wherever it named the target. -/
theorem leadThrough (wellFormed : WellFormed graph) (hId : id < graph.nodes.size)
    (hTarget : target < graph.nodes.size) (source : NodeId) :
    Keeps safe graph ((graph.setDestination id (.node target)).update source fun node =>
      { node with
        destination := if node.destination = some (.node target) then some (.node id) else node.destination
        stack := node.stack.map (Operand.retarget target (some id)) }) := by
  refine (wellFormed.setDestination id (.node target) fun sink hSink => ?_).andThen fun hSet =>
    hSet.update source _ (fun _ => rfl) fun sink hSink => ?_
  · cases hSink
    exact hTarget
  · simp only at hSink
    split at hSink
    · cases hSink
      exact (size_update _ _ _).symm ▸ hId
    · exact hSet.destination_lt source sink hSink

/-- A node is put on an edge. If the edge closed a cycle, the new node's edge closes it now. -/
theorem createConnector (wellFormed : WellFormed graph) (hSource : source ∈ graph.order)
    (hTarget : target < graph.nodes.size) (hLive : safe → (graph.node target).disposed = false) :
    Keeps safe graph (graph.createConnector source target).2 := by
  have linked := wellFormed.linked
  obtain ⟨hCreated, hSize, _⟩ := insertAfter_frame graph source
  have hDisposed (id : NodeId) : ((graph.insertAfter source).2.node id).disposed = (graph.node id).disposed :=
    field_insertAfter Node.disposed (fun _ _ _ => rfl) (fun _ => rfl)
  have hFresh : graph.nodes.size ∉ ((graph.insertAfter source).2.node target).backedges := by
    rw [field_insertAfter Node.backedges (fun _ _ _ => rfl) (fun _ => rfl)]
    intro hMarked
    have hIncoming := wellFormed.mirrored.backedges_incoming target _ hMarked
    exact Nat.lt_irrefl _ (wellFormed.mirrored.edge_lt (wellFormed.mirrored.mem_incoming.mp hIncoming)).1
  have hIdLt : graph.nodes.size < (graph.insertAfter source).2.nodes.size := hSize ▸ Nat.lt_succ_self _
  have hSourceLt := Nat.lt_trans (linked.lt source hSource) hIdLt
  have hTargetLt := Nat.lt_trans hTarget hIdLt
  have hNew : (graph.node graph.nodes.size).disposed = false := by rw [node_of_size_le (Nat.le_refl _)]
  refine (wellFormed.insertAfter hSource).andThen fun hInserted => ?_
  simp only [Graph.createConnector, hCreated]
  generalize (graph.insertAfter source).2 = inserted at *
  refine (hInserted.update graph.nodes.size
    (fun node => { node with name := (inserted.node source).name ++ "*" ++ (inserted.node target).name
                             disposable := false }) (fun _ => rfl) (hInserted.destination_lt _)).andThen
    fun hNamed => ?_
  refine (hNamed.reroute source graph.nodes.size target (by simpa using hSourceLt) (by simpa using hIdLt)
    (by simpa using hTargetLt) fun hSafe => ?_).andThen fun hRouted => ?_
  · simp only [field_update Node.disposed, hDisposed]
    exact ⟨linked.live source hSource, hNew, hLive hSafe⟩
  split
  · refine (hRouted.mark graph.nodes.size target ?_ ?_).andThen fun hMarked =>
      hMarked.leadThrough (by simpa using hIdLt) (by simpa using hTargetLt) source
    · exact (edge_connect (by simpa using hIdLt)).mpr (.inr ⟨rfl, rfl⟩)
    · rw [backedges_connect, backedges_connect, backedges_disconnect, if_pos rfl,
        field_update Node.backedges _ rfl]
      exact fun hMarked => hFresh (List.mem_filter.mp hMarked).1
  · exact hRouted.leadThrough (by simpa using hIdLt) (by simpa using hTargetLt) source

end WellFormed

theorem sameBlocks_moveEdge (graph : Graph) (lower upper : NodeId) (kept moved : List NodeId) (sink : NodeId) :
    SameBlocks graph (moveEdge lower upper kept moved graph sink) := by
  unfold moveEdge
  split
  · exact (sameBlocks_disconnect graph lower sink).trans (sameBlocks_connect _ upper sink)
  · split
    · exact sameBlocks_connect graph upper sink
    · exact .refl graph

/-- No node is made, placed or disposed of. -/
structure SameLife (before after : Graph) : Prop where
  order : after.order = before.order
  size : after.nodes.size = before.nodes.size
  disposed : ∀ id, (after.node id).disposed = (before.node id).disposed

namespace SameLife

theorem trans (first : SameLife graph middle) (second : SameLife middle after) : SameLife graph after :=
  ⟨second.order.trans first.order, second.size.trans first.size,
    fun id => (second.disposed id).trans (first.disposed id)⟩

theorem update (graph : Graph) (id : NodeId) (change : Node → Node)
    (hKeep : ∀ node, (change node).disposed = node.disposed) : SameLife graph (graph.update id change) :=
  ⟨rfl, size_update _ _ _, fun _ => field_update Node.disposed change (hKeep _)⟩

theorem mapStack (graph : Graph) (id : NodeId) (change : List Operand → List Operand) :
    SameLife graph (graph.mapStack id change) := update graph id _ fun _ => rfl

end SameLife

/-- Blocks differ in edges only, so the same nodes are live. -/
theorem SameBlocks.life (same : SameBlocks graph after) : SameLife graph after :=
  ⟨same.order, same.size, fun id => same.field Node.disposed (fun _ => rfl) id⟩

/-- The two parts of a separated node get their operands. -/
def shareStack (graph : Graph) (id created : NodeId) (lower upper : List Operand) : Graph :=
  (graph.mapStack created fun _ => upper).mapStack id fun _ => lower

/-- The lower part of a separated node fails into the upper one. -/
def failInto (graph : Graph) (id created : NodeId) : Graph :=
  graph.mapStack id fun stack => stack.modify (stack.length - 1)
    (Operand.mapCondition fun test => { test with onFalse := some created })

theorem SameLife.failInto (graph : Graph) (id created : NodeId) : SameLife graph (graph.failInto id created) :=
  .mapStack graph id _

/-- A node is separated into itself and the new node above it. -/
def separate (graph : Graph) (id created : NodeId) (lower upper : List Operand) (kept : List NodeId)
    (sinks : List NodeId) : Graph :=
  let moved := sinks.foldl (moveEdge id created kept (jumpTargets upper))
    (graph.shareStack id created lower upper)
  ((moved.failInto id created).connect id created).setDestination id (.node created)

/-- The new node takes over where the separated one led. -/
def takeOver (graph : Graph) (created : NodeId) (node : Node) : Graph :=
  let graph := match node.destination with
    | some (.node target) => graph.connect created target
    | _ => graph
  graph.update created fun upper =>
    { upper with destination := node.destination, disposable := node.disposable, line := node.line }

theorem SameLife.shareStack (graph : Graph) (id created : NodeId) (lower upper : List Operand) :
    SameLife graph (graph.shareStack id created lower upper) :=
  (SameLife.mapStack graph created _).trans (.mapStack _ id _)

/-- Edges that move leave all nodes live. -/
theorem SameLife.moveEdges (graph : Graph) (lower upper : NodeId) (kept moved sinks : List NodeId) :
    SameLife graph (sinks.foldl (Graph.moveEdge lower upper kept moved) graph) :=
  (SameBlocks.foldl _ sinks (fun _ _ _ => sameBlocks_moveEdge _ _ _ _ _ _) graph).life

theorem SameLife.separate (graph : Graph) (id created : NodeId) (lower upper : List Operand)
    (kept sinks : List NodeId) : SameLife graph (graph.separate id created lower upper kept sinks) :=
  ((((SameLife.shareStack graph id created lower upper).trans (.moveEdges _ id created kept _ sinks)).trans
    (.failInto _ id created)).trans (sameBlocks_connect _ id created).life).trans (.update _ id _ fun _ => rfl)

theorem SameLife.takeOver (graph : Graph) (created : NodeId) (node : Node) :
    SameLife graph (graph.takeOver created node) := by
  unfold Graph.takeOver
  split
  · next target _ => exact (sameBlocks_connect graph created target).life.trans (.update _ created _ fun _ => rfl)
  · exact .update graph created _ fun _ => rfl

/-- The new node leads where the separated one led. -/
theorem destination_takeOver (graph : Graph) {created : NodeId} (hCreated : created < graph.nodes.size)
    (node : Node) : ((graph.takeOver created node).node created).destination = node.destination := by
  unfold Graph.takeOver
  split
  · rw [node_update_self (by simpa using hCreated)]
  · rw [node_update_self hCreated]

/-- The node does not lead to a node that is gone. -/
def LeadsToLive (graph : Graph) (id : NodeId) : Prop :=
  ∀ target, (graph.node id).destination = some (.node target) → (graph.node target).disposed = false

instance (graph : Graph) (id : NodeId) : Decidable (graph.LeadsToLive id) :=
  match h : (graph.node id).destination with
  | some (.node target) =>
    decidable_of_iff ((graph.node target).disposed = false) (by simp [LeadsToLive, h])
  | some .termination | none => isTrue (by simp [LeadsToLive, h])

/-- A node without conditions is not mixed. -/
theorem splitFrom_plain (hPlain : ∀ operand ∈ (graph.node id).stack, operand.isCondition = false) (fuel : Nat) :
    graph.splitFrom fuel id = ([], graph) := by
  have hSplit : graph.split? id = none := by
    unfold split?
    extract_lets node
    split
    · rfl
    · next bottom _ hStack =>
        have hBottom : bottom.isCondition = false := hPlain bottom (by simp [node, hStack])
        have hUpper : node.stack.dropWhile (fun (operand : Operand) =>
            operand.isCondition == bottom.isCondition) = [] :=
          List.dropWhile_eq_nil_iff.mpr fun operand hOperand => by simp [hPlain operand hOperand, hBottom]
        simp [hUpper]
  cases fuel with
  | zero => rfl
  | succ fuel => rw [splitFrom, hSplit]

/-- Operands without a condition jump nowhere. -/
theorem jumpTargets_plain {operands : List Operand} (hPlain : ∀ operand ∈ operands, operand.isCondition = false) :
    jumpTargets operands = [] := by
  refine List.filterMap_eq_nil_iff.mpr fun operand hOperand => ?_
  have hNone : operand.condition? = none := by simpa [Operand.isCondition] using hPlain operand hOperand
  rw [hNone, Option.bind_none]

/-- What a split is made of. The lower part is the whole of a run, and it keeps what it jumps to. -/
theorem split?_parts {created : NodeId} (hSplit : graph.split? id = some (created, after)) :
    ∃ lower upper test, lower ++ upper = (graph.node id).stack ∧ lower ≠ [] ∧
      (∀ operand ∈ lower, operand.isCondition = test) ∧ created = (graph.insertAfter id).1 ∧
      after = (((graph.insertAfter id).2.separate id created lower upper (jumpTargets lower)
        (graph.node id).outgoing).takeOver created (graph.node id)) := by
  unfold split? at hSplit
  simp only at hSplit
  split at hSplit
  · cases hSplit
  · split at hSplit
    · cases hSplit
    · next bottom rest hStack _ =>
        obtain ⟨rfl, rfl⟩ := Prod.mk.inj (Option.some.inj hSplit)
        have hUniform : ∀ operand ∈ (graph.node id).stack.takeWhile (·.isCondition == bottom.isCondition),
            operand.isCondition = bottom.isCondition := fun operand hOperand => by
          simpa using List.mem_takeWhile_imp hOperand
        refine ⟨(graph.node id).stack.takeWhile (·.isCondition == bottom.isCondition),
          (graph.node id).stack.dropWhile (·.isCondition == bottom.isCondition), bottom.isCondition,
          List.takeWhile_append_dropWhile, by simp [hStack], hUniform, rfl, ?_⟩
        cases hBottom : bottom.isCondition with
        | true => rfl
        | false =>
            rw [hBottom] at hUniform
            rw [jumpTargets_plain hUniform]
            rfl

/-- Where a split separates the operands is left open. -/
theorem split?_eq_some {created : NodeId} (hSplit : graph.split? id = some (created, after)) :
    created = (graph.insertAfter id).1 ∧ ∃ lower upper kept, lower ++ upper = (graph.node id).stack ∧
      after = (((graph.insertAfter id).2.separate id created lower upper kept
        (graph.node id).outgoing).takeOver created (graph.node id)) := by
  obtain ⟨lower, upper, -, hStack, -, -, hCreated, hAfter⟩ := split?_parts hSplit
  exact ⟨hCreated, lower, upper, _, hStack, hAfter⟩

/-- The new node of a split has a place, and it leads where the node led before. -/
theorem placed_split {created : NodeId} (hSplit : graph.split? id = some (created, after)) :
    created ∈ after.order ∧ (LeadsToLive graph id → LeadsToLive after created) := by
  obtain ⟨hCreated, lower, upper, kept, _, rfl⟩ := split?_eq_some hSplit
  obtain ⟨hNew, hSize, hOrder⟩ := insertAfter_frame graph id
  obtain rfl := hCreated.trans hNew
  have hIdLt : graph.nodes.size < (graph.insertAfter id).2.nodes.size := hSize ▸ Nat.lt_succ_self _
  have hApart := SameLife.separate (graph.insertAfter id).2 id graph.nodes.size lower upper kept
    (graph.node id).outgoing
  have hLife := hApart.trans (.takeOver _ graph.nodes.size (graph.node id))
  refine ⟨?_, fun hLeads target hTarget => ?_⟩
  · rw [hLife.order]
    exact (hOrder _).mpr (.inl rfl)
  · rw [destination_takeOver _ (Nat.lt_of_lt_of_eq hIdLt hApart.size.symm)] at hTarget
    rw [hLife.disposed, field_insertAfter Node.disposed (fun _ _ _ => rfl) (fun _ => rfl)]
    exact hLeads target hTarget

namespace WellFormed

/-- One edge goes over to the upper node, is shared with it, or stays. -/
theorem moveEdge (wellFormed : WellFormed graph) {lower upper sink : NodeId} (kept moved : List NodeId)
    (hUpper : upper < graph.nodes.size) (hSink : sink < graph.nodes.size)
    (hLive : safe → (graph.node upper).disposed = false ∧ (graph.node sink).disposed = false) :
    Keeps safe graph (Graph.moveEdge lower upper kept moved graph sink) := by
  unfold Graph.moveEdge
  split
  · have same := sameBlocks_disconnect graph lower sink
    refine (wellFormed.disconnect lower sink).andThen fun hFirst =>
      hFirst.connect (same.size ▸ hUpper) (same.size ▸ hSink) ?_
    rwa [same.field Node.disposed (fun _ => rfl) upper, same.field Node.disposed (fun _ => rfl) sink]
  · split
    · exact wellFormed.connect hUpper hSink hLive
    · exact .refl wellFormed

/-- By induction on the targets of the edges. -/
theorem moveEdges (wellFormed : WellFormed graph) (lower upper : NodeId) (kept moved sinks : List NodeId)
    (hUpper : upper < graph.nodes.size) (hSinks : ∀ sink ∈ sinks, sink < graph.nodes.size)
    (hLive : safe → (graph.node upper).disposed = false ∧
      ∀ sink ∈ sinks, (graph.node sink).disposed = false) :
    Keeps safe graph (sinks.foldl (Graph.moveEdge lower upper kept moved) graph) := by
  induction sinks generalizing graph with
  | nil => exact .refl wellFormed
  | cons sink sinks ih =>
      have same := sameBlocks_moveEdge graph lower upper kept moved sink
      refine (wellFormed.moveEdge kept moved hUpper (hSinks sink List.mem_cons_self) fun hSafe =>
        ⟨(hLive hSafe).1, (hLive hSafe).2 sink List.mem_cons_self⟩).andThen fun hFirst =>
          ih hFirst (same.size ▸ hUpper) (fun other hOther => ?_) (fun hSafe => ⟨?_, fun other hOther => ?_⟩)
      · exact same.size ▸ hSinks other (List.mem_cons_of_mem _ hOther)
      · exact (same.field Node.disposed (fun _ => rfl) upper).trans (hLive hSafe).1
      · exact (same.field Node.disposed (fun _ => rfl) other).trans ((hLive hSafe).2 other (List.mem_cons_of_mem _ hOther))

theorem shareStack (wellFormed : WellFormed graph) (id created : NodeId) (lower upper : List Operand) :
    Keeps safe graph (graph.shareStack id created lower upper) :=
  (wellFormed.mapStack created _).andThen fun hUpper => hUpper.mapStack id _

theorem failInto (wellFormed : WellFormed graph) (id created : NodeId) :
    Keeps safe graph (graph.failInto id created) := wellFormed.mapStack id _

/-- Operands are shared out, edges move, and the lower part fails into the upper one. -/
theorem separate (wellFormed : WellFormed graph) (id created : NodeId) (lower upper : List Operand)
    (kept sinks : List NodeId) (hId : id < graph.nodes.size) (hCreated : created < graph.nodes.size)
    (hSinks : ∀ sink ∈ sinks, sink < graph.nodes.size)
    (hLive : safe → (graph.node id).disposed = false ∧ (graph.node created).disposed = false ∧
      ∀ sink ∈ sinks, (graph.node sink).disposed = false) :
    Keeps safe graph (graph.separate id created lower upper kept sinks) := by
  have hShared := SameLife.shareStack graph id created lower upper
  have hFailing := (hShared.trans (.moveEdges _ id created kept (jumpTargets upper) sinks)).trans
    (.failInto _ id created)
  refine (wellFormed.shareStack id created lower upper).andThen fun hFirst => ?_
  refine (hFirst.moveEdges id created kept (jumpTargets upper) sinks (hShared.size ▸ hCreated)
    (hShared.size ▸ hSinks) fun hSafe => ?_).andThen fun hSecond => ?_
  · simpa only [hShared.disposed] using (hLive hSafe).2
  refine (hSecond.failInto id created).andThen fun hThird =>
    (hThird.connect (hFailing.size ▸ hId) (hFailing.size ▸ hCreated) fun hSafe => ?_).andThen fun hFourth =>
      hFourth.setDestination id _ fun target hTarget => ?_
  · rw [hFailing.disposed, hFailing.disposed]
    exact ⟨(hLive hSafe).1, (hLive hSafe).2.1⟩
  · cases hTarget
    rw [size_connect]
    exact hFailing.size ▸ hCreated

/-- The new node leads to a node of the arena, as the separated one did. -/
theorem takeOver (wellFormed : WellFormed graph) {created : NodeId} {node : Node}
    (hCreated : created < graph.nodes.size)
    (hTarget : ∀ target, node.destination = some (.node target) → target < graph.nodes.size)
    (hLive : safe → (graph.node created).disposed = false ∧
      ∀ target, node.destination = some (.node target) → (graph.node target).disposed = false) :
    Keeps safe graph (graph.takeOver created node) := by
  unfold Graph.takeOver
  split
  · next target hDestination =>
      refine (wellFormed.connect hCreated (hTarget target hDestination) fun hSafe =>
        ⟨(hLive hSafe).1, (hLive hSafe).2 target hDestination⟩).andThen fun hConnected =>
          hConnected.update created _ (fun _ => rfl) fun sink hSink => ?_
      rw [size_connect]
      exact hTarget sink hSink
  · exact wellFormed.update created _ (fun _ => rfl) hTarget

/-- A node is split. This is safe unless the node leads to a node that is gone. -/
theorem split? (wellFormed : WellFormed graph) (hId : id ∈ graph.order) {created : NodeId}
    (hSplit : graph.split? id = some (created, after)) :
    Keeps (LeadsToLive graph id) graph after := by
  have linked := wellFormed.linked
  obtain ⟨hCreated, lower, upper, kept, _, rfl⟩ := split?_eq_some hSplit
  obtain ⟨hNew, hSize, _⟩ := insertAfter_frame graph id
  obtain rfl := hCreated.trans hNew
  have hIdLt : graph.nodes.size < (graph.insertAfter id).2.nodes.size := hSize ▸ Nat.lt_succ_self _
  have hDisposed (other : NodeId) : ((graph.insertAfter id).2.node other).disposed = (graph.node other).disposed :=
    field_insertAfter Node.disposed (fun _ _ _ => rfl) (fun _ => rfl)
  have hFresh : (graph.node graph.nodes.size).disposed = false := by rw [node_of_size_le (Nat.le_refl _)]
  have hEdge : ∀ sink ∈ (graph.node id).outgoing, sink < graph.nodes.size := fun sink hSink =>
    (wellFormed.mirrored.edge_lt (show graph.Edge id sink from hSink)).2
  -- The edges that move are safe because the graph is apart before, so this joins the safety for now.
  have hKeeps : Keeps (LeadsToLive graph id ∧ Apart graph) graph
      (((graph.insertAfter id).2.separate id graph.nodes.size lower upper kept
        (graph.node id).outgoing).takeOver graph.nodes.size (graph.node id)) := by
    refine (wellFormed.insertAfter hId).andThen fun hInserted => ?_
    have hSinks : ∀ sink ∈ (graph.node id).outgoing, sink < (graph.insertAfter id).2.nodes.size :=
      fun sink hSink => Nat.lt_trans (hEdge sink hSink) hIdLt
    have hLife := SameLife.separate (graph.insertAfter id).2 id graph.nodes.size lower upper kept
      (graph.node id).outgoing
    have hSeparated := hInserted.separate id graph.nodes.size lower upper kept
      (graph.node id).outgoing (Nat.lt_trans (linked.lt id hId) hIdLt) hIdLt hSinks
      fun hSafe : LeadsToLive graph id ∧ Apart graph => by
        simp only [hDisposed]
        exact ⟨linked.live id hId, hFresh, fun sink hSink => (hSafe.2 id sink hSink).2⟩
    refine hSeparated.andThen fun hApart => hApart.takeOver (Nat.lt_of_lt_of_eq hIdLt hLife.size.symm)
      (fun target hTarget => ?_) fun hSafe => ⟨?_, fun target hTarget => ?_⟩
    · have hTargetLt := Nat.lt_trans (wellFormed.destination_lt id target hTarget) hIdLt
      exact Nat.lt_of_lt_of_eq hTargetLt hLife.size.symm
    · rw [hLife.disposed, hDisposed]
      exact hFresh
    · rw [hLife.disposed, hDisposed]
      exact hSafe.1 target hTarget
  exact ⟨hKeeps.wellFormed, fun hSafe apart => hKeeps.apart ⟨hSafe, apart⟩ apart, hKeeps.settled⟩

/-- By induction on the bound: each split leaves a node of which the upper part may be split again. -/
theorem splitFrom (wellFormed : WellFormed graph) (fuel : Nat) (hId : id ∈ graph.order) :
    Keeps (LeadsToLive graph id) graph (graph.splitFrom fuel id).2 := by
  induction fuel generalizing graph id with
  | zero => exact .refl wellFormed
  | succ fuel ih =>
      simp only [Graph.splitFrom]
      split
      · next created after hSplit =>
          have hFirst := wellFormed.split? hId hSplit
          obtain ⟨hPlaced, hLeads⟩ := placed_split hSplit
          have hRest := ih hFirst.wellFormed hPlaced
          exact hFirst.trans ⟨hRest.wellFormed, fun hSafe => hRest.apart (hLeads hSafe), hRest.settled⟩
      · exact .refl wellFormed

end WellFormed

/-! ### Merging -/

/-- The stack of a node once its run is joined, with the uppermost condition of the run and those below. -/
def joinedStack (graph : Graph) (id : NodeId) (top : Operand) (rest : List Operand) : List Operand :=
  let parts := ConditionRun.ofStack (graph.node id).stack
  let destination := (graph.node id).destination.bind Destination.node?
  parts.below.reverse ++ ((joinRun (top.mapCondition (completeTop destination)) rest).run graph.supply).1
    ++ parts.above.reverse

/-- Joining a run changes the stack of a node that is not disposed, or nothing. The node it may be folded
into is the one before it. -/
theorem joinTop_cases (graph : Graph) (id : NodeId) :
    graph.joinTop id = (none, graph) ∨
      (graph.node id).disposed = false ∧ ∃ fold supply top rest,
        (ConditionRun.ofStack (graph.node id).stack).run = top :: rest ∧
        graph.joinTop id =
          (fold, ({ graph with supply } : Graph).mapStack id fun _ => graph.joinedStack id top rest) ∧
        ∀ previous, fold = some previous → (graph.node id).previous = some previous := by
  unfold joinTop
  simp only
  split
  · exact .inl rfl
  · exact .inl rfl
  · next top rest hLive hRun =>
      refine .inr ⟨hLive, ?_⟩
      split
      next joined supply hJoined =>
        have hStack : (ConditionRun.ofStack (graph.node id).stack).below.reverse ++ joined
            ++ (ConditionRun.ofStack (graph.node id).stack).above.reverse = graph.joinedStack id top rest := by
          simp only [joinedStack, hJoined]
        rw [hStack]
        split
        · exact ⟨_, _, top, rest, hRun, rfl, fun previous hFold => (Option.filter_eq_some_iff.mp hFold).1⟩
        · exact ⟨none, _, top, rest, hRun, rfl, fun previous hFold => nomatch hFold⟩

namespace WellFormed

theorem supply (wellFormed : WellFormed graph) (supply : Supply) :
    Keeps safe graph { graph with supply } :=
  wellFormed.congr rfl rfl (fun _ => rfl) wellFormed.destination_lt

/-- By induction on the bound: each condition that is folded away leaves a well-formed graph. -/
theorem mergeFrom (wellFormed : WellFormed graph) (fuel : Nat) (hId : Settled graph id) :
    Keeps safe graph (graph.mergeFrom fuel id).2 := by
  induction fuel generalizing graph id with
  | zero => exact .refl wellFormed
  | succ fuel ih =>
      simp only [Graph.mergeFrom]
      rcases joinTop_cases graph id with hNone | ⟨hLive, fold, supply, top, rest, _, hJoin, hPrevious⟩
      · rw [hNone]
        exact .refl wellFormed
      · rw [hJoin]
        have hJoined : Keeps safe graph
            (({ graph with supply } : Graph).mapStack id fun _ => graph.joinedStack id top rest) :=
          (wellFormed.supply supply).andThen fun hSupplied => hSupplied.mapStack id _
        cases fold with
        | none => exact hJoined
        | some previous =>
            have hPlaced : id ∈ graph.order := hId.resolve_right (by simp [hLive])
            have hBefore : previous ∈ graph.order :=
              wellFormed.linked.mem_of_previous hPlaced (hPrevious previous rfl)
            refine hJoined.andThen fun hFirst => ?_
            have hDisposed : Keeps safe _ _ := hFirst.dispose id false true (.inl hPlaced)
            exact hDisposed.trans (ih hDisposed.wellFormed (hDisposed.settled previous (.inl hBefore)))

end WellFormed

/-! ### Finding back-edges -/

namespace WellFormed

/-- Forgetting all marks of the listed nodes. -/
theorem clearMarks (wellFormed : WellFormed graph) (ids : List NodeId) :
    Keeps safe graph (ids.foldl (fun graph id => graph.update id fun node => { node with backedges := [] })
      graph) := by
  induction ids generalizing graph with
  | nil => exact .refl wellFormed
  | cons id ids ih =>
      have same := sameBlocks_update graph id (fun node => { node with backedges := [] }) fun _ => rfl
      have hOutgoing (other : NodeId) : ((graph.update id fun node => { node with backedges := [] }).node
          other).outgoing = (graph.node other).outgoing := field_update Node.outgoing _ rfl
      have hMirrored : Mirrored (graph.update id fun node => { node with backedges := [] }) := by
        refine wellFormed.mirrored.unmark hOutgoing (fun _ => field_update Node.incoming _ rfl) fun other => ?_
        rw [node_update]
        split
        · exact List.nil_sublist _
        · exact List.Sublist.refl _
      have hFirst : Keeps safe graph (graph.update id fun node => { node with backedges := [] }) :=
        .of_edges (wellFormed.sameBlocks same hMirrored) (fun _ hOld => hOld)
          (fun id => same.field Node.disposed (fun _ => rfl) id) fun _ a b hEdge => .inl (by rwa [Edge, hOutgoing] at hEdge)
      exact hFirst.andThen ih

end WellFormed

/-- A search has only marked edges, and every edge still to follow leaves its node. -/
structure Searching (safe : Prop) (cleared : Graph) (search : DepthFirst) : Prop where
  keeps : Keeps safe cleared search.graph
  follows : ∀ id rest, (id, rest) ∈ search.path → ∀ target ∈ rest, search.graph.Edge id target

namespace Searching

variable {cleared : Graph} {search : DepthFirst}

/-- A node that is entered has its edges to follow. -/
theorem enter (searching : Searching safe cleared search) (id : NodeId) :
    Searching safe cleared (search.enter id) where
  keeps := searching.keeps
  follows other rest hPath target hTarget := by
    rcases List.mem_cons.mp hPath with hNew | hOld
    · obtain ⟨rfl, rfl⟩ := Prod.mk.inj hNew
      exact hTarget
    · exact searching.follows other rest hOld target hTarget

/-- The mark of an edge that is followed back to a node on the path. -/
theorem mark (searching : Searching safe cleared search) (hEdge : search.graph.Edge source target) :
    Searching safe cleared { search with
      graph := search.graph.update target fun node =>
        if node.backedges.contains source then node
        else { node with backedges := node.backedges ++ [source] } } := by
  by_cases hMarked : source ∈ (search.graph.node target).backedges
  · rw [update_congr (fun node => node) (by simp [hMarked]), update_id]
    exact searching
  · rw [update_congr (fun node => { node with backedges := node.backedges ++ [source] }) (by simp [hMarked])]
    refine ⟨searching.keeps.andThen fun wellFormed => wellFormed.mark source target hEdge hMarked, ?_⟩
    intro other rest hPath sink hSink
    rw [Edge, field_update Node.outgoing _ rfl]
    exact searching.follows other rest hPath sink hSink

/-- By the moves that a step can make. -/
theorem step (searching : Searching safe cleared search) : Searching safe cleared search.step := by
  unfold DepthFirst.step
  split
  · exact searching
  · next hPath =>
      exact ⟨searching.keeps, fun id rest hMember =>
        searching.follows id rest (hPath ▸ List.mem_cons_of_mem _ hMember)⟩
  · next id target rest outer hPath =>
      have hEdge : search.graph.Edge id target :=
        searching.follows id (target :: rest) (hPath ▸ List.mem_cons_self) target List.mem_cons_self
      have hRest : Searching safe cleared { search with path := (id, rest) :: outer } := by
        refine ⟨searching.keeps, fun other others hMember sink hSink => ?_⟩
        rcases List.mem_cons.mp hMember with hSame | hOuter
        · obtain ⟨rfl, rfl⟩ := Prod.mk.inj hSame
          exact searching.follows other (target :: others) (hPath ▸ List.mem_cons_self) sink
            (List.mem_cons_of_mem _ hSink)
        · exact searching.follows other others (hPath ▸ List.mem_cons_of_mem _ hOuter) sink hSink
      simp only
      split
      · exact hRest.mark hEdge
      · split
        · exact hRest
        · exact hRest.enter target

/-- By induction on the bound of the search. -/
theorem run (searching : Searching safe cleared search) (fuel : Nat) :
    Searching safe cleared (search.run fuel) := by
  induction fuel generalizing search with
  | zero => exact searching
  | succ fuel ih =>
      unfold DepthFirst.run
      split
      · exact searching
      · exact ih searching.step

/-- Searches from several roots in turn. -/
theorem roots (searching : Searching safe cleared search) (bound : Nat) (ids : List NodeId) :
    Searching safe cleared (ids.foldl (fun (search : DepthFirst) root =>
      if search.entered.contains root then search else (search.enter root).run bound) search) := by
  induction ids generalizing search with
  | nil => exact searching
  | cons root ids ih =>
      rw [List.foldl_cons]
      split
      · exact ih searching
      · exact ih ((searching.enter root).run bound)

end Searching

/-- Marks are dropped, and those that the search sets are on edges. -/
theorem WellFormed.computeBackedges (wellFormed : WellFormed graph) :
    Keeps safe graph graph.computeBackedges := by
  refine (wellFormed.clearMarks graph.order).andThen fun hCleared => ?_
  have hStart : Searching safe _ { graph := _ } := ⟨.refl hCleared, fun _ _ hPath => nomatch hPath⟩
  exact (hStart.roots _ _).keeps.andThen fun hSearched =>
    hSearched.congr rfl rfl (fun _ => rfl) hSearched.destination_lt

end Graph

end Decompiler
