import Decompiler.Proofs.Graph.Placement

/-!
What is left of a graph when one node has been disposed of: its edges are bypassed, the others stay; its
neighbours are linked to each other; the placed nodes name its destination instead of it.
-/

namespace Decompiler.Graph

variable {graph : Graph} {target source sink id other a b : NodeId} {front back : List NodeId}

/-! ### Bypassing -/

/-- The new edge is there, and it may have been marked. -/
theorem bypass_cases (graph : Graph) (target source sink : NodeId) (closing : Bool) :
    graph.bypass target source sink closing = graph.connect source sink ∨
      (source ∉ ((graph.connect source sink).node sink).backedges ∧
        graph.bypass target source sink closing = (graph.connect source sink).update sink fun node =>
          { node with backedges := node.backedges ++ [source] }) := by
  simp only [bypass]
  split
  · next h => exact .inr ⟨by simpa using (Bool.and_eq_true_iff.mp h).2, rfl⟩
  · exact .inl rfl

/-- Only edges and marks change. -/
theorem sameBlocks_bypass (graph : Graph) (target source sink : NodeId) (closing : Bool) :
    SameBlocks graph (graph.bypass target source sink closing) := by
  rcases bypass_cases graph target source sink closing with hPlain | ⟨_, hMarked⟩
  · exact hPlain ▸ sameBlocks_connect graph source sink
  · exact hMarked ▸ (sameBlocks_connect graph source sink).trans (sameBlocks_update _ sink _ fun _ => rfl)

/-- One edge comes, and none goes. -/
theorem edge_bypass (hSource : source < graph.nodes.size) {closing : Bool} :
    (graph.bypass target source sink closing).Edge a b ↔ graph.Edge a b ∨ (a = source ∧ b = sink) := by
  rw [← edge_connect hSource]
  rcases bypass_cases graph target source sink closing with hPlain | ⟨_, hMarked⟩
  · rw [hPlain]
  · rw [hMarked, Edge, field_update Node.outgoing _ rfl]
    rfl

/-- The new edge is known at both of its ends. -/
theorem Mirrored.bypass (mirrored : Mirrored graph) (hSource : source < graph.nodes.size)
    (hSink : sink < graph.nodes.size) (target : NodeId) (closing : Bool) :
    Mirrored (graph.bypass target source sink closing) := by
  have hConnected := mirrored.connect hSource hSink
  rcases bypass_cases graph target source sink closing with hPlain | ⟨hFresh, hMarked⟩
  · exact hPlain ▸ hConnected
  · exact hMarked ▸ hConnected.mark ((edge_connect hSource).mpr (.inr ⟨rfl, rfl⟩)) hFresh

/-- Connects every source to every sink. -/
def bypassAll (graph : Graph) (target : NodeId) (sources sinks : List NodeId) (closing : NodeId → Bool) :
    Graph :=
  sources.foldl (fun graph source =>
    sinks.foldl (fun graph sink => graph.bypass target source sink (closing source)) graph) graph

theorem sameBlocks_bypassAll (graph : Graph) (target : NodeId) (sources sinks : List NodeId)
    (closing : NodeId → Bool) : SameBlocks graph (graph.bypassAll target sources sinks closing) :=
  .foldl _ _ (fun _ _ _ => .foldl _ _ (fun _ _ _ => sameBlocks_bypass _ _ _ _ _) _) _

/-- From one source, by induction on the sinks. -/
theorem bypassSinks (mirrored : Mirrored graph) (target : NodeId) (sinks : List NodeId) (closing : Bool)
    (hSource : source < graph.nodes.size) (hSinks : ∀ sink ∈ sinks, sink < graph.nodes.size) :
    let after := sinks.foldl (fun graph sink => graph.bypass target source sink closing) graph
    Mirrored after ∧ ∀ a b, after.Edge a b ↔ graph.Edge a b ∨ (a = source ∧ b ∈ sinks) := by
  induction sinks generalizing graph with
  | nil => simp [mirrored]
  | cons sink sinks ih =>
      have hSize := (sameBlocks_bypass graph target source sink closing).size
      obtain ⟨hMirrored, hEdges⟩ := ih (mirrored.bypass hSource (hSinks sink List.mem_cons_self) target closing)
        (hSize ▸ hSource) (fun sink hSink => hSize ▸ hSinks sink (List.mem_cons_of_mem _ hSink))
      refine ⟨hMirrored, fun a b => ?_⟩
      rw [List.foldl_cons, hEdges, edge_bypass hSource, List.mem_cons]
      tauto

/-- By induction on the sources: every source leads to every sink, and all other edges are as before. -/
theorem bypassAll_spec (mirrored : Mirrored graph) (target : NodeId) (sources sinks : List NodeId)
    (closing : NodeId → Bool) (hSources : ∀ source ∈ sources, source < graph.nodes.size)
    (hSinks : ∀ sink ∈ sinks, sink < graph.nodes.size) :
    Mirrored (graph.bypassAll target sources sinks closing) ∧
      ∀ a b, (graph.bypassAll target sources sinks closing).Edge a b ↔
        graph.Edge a b ∨ (a ∈ sources ∧ b ∈ sinks) := by
  induction sources generalizing graph with
  | nil => simp [bypassAll, mirrored]
  | cons source sources ih =>
      obtain ⟨hFirst, hFirstEdges⟩ :=
        bypassSinks mirrored target sinks (closing source) (hSources source List.mem_cons_self) hSinks
      have hSize := (SameBlocks.foldl (fun graph sink => graph.bypass target source sink (closing source))
        sinks (fun _ _ _ => sameBlocks_bypass _ _ _ _ _) graph).size
      obtain ⟨hMirrored, hEdges⟩ := ih hFirst
        (fun source hSource => hSize ▸ hSources source (List.mem_cons_of_mem _ hSource))
        (fun sink hSink => hSize ▸ hSinks sink hSink)
      refine ⟨hMirrored, fun a b => (hEdges a b).trans ?_⟩
      rw [hFirstEdges, List.mem_cons]
      tauto

/-! ### Removing all edges of a node -/

/-- Removes a list of edges. -/
def disconnectAll (graph : Graph) (edges : List (NodeId × NodeId)) : Graph :=
  edges.foldl (fun graph edge => graph.disconnect edge.1 edge.2) graph

theorem sameBlocks_disconnectAll (graph : Graph) (edges : List (NodeId × NodeId)) :
    SameBlocks graph (graph.disconnectAll edges) :=
  .foldl _ _ (fun _ _ _ => sameBlocks_disconnect _ _ _) _

/-- Edges are removed at both ends. -/
theorem Mirrored.disconnectAll (mirrored : Mirrored graph) (edges : List (NodeId × NodeId)) :
    Mirrored (graph.disconnectAll edges) := by
  induction edges generalizing graph with
  | nil => exact mirrored
  | cons edge edges ih => exact ih (mirrored.disconnect edge.1 edge.2)

/-- Exactly the edges of the list are gone. -/
theorem edge_disconnectAll (edges : List (NodeId × NodeId)) :
    (graph.disconnectAll edges).Edge a b ↔ graph.Edge a b ∧ (a, b) ∉ edges := by
  induction edges generalizing graph with
  | nil => simp [disconnectAll]
  | cons edge edges ih =>
      rw [disconnectAll, List.foldl_cons, ← disconnectAll, ih, edge_disconnect, List.mem_cons, Prod.ext_iff]
      tauto

/-! ### One change of many nodes -/

/-- The same change of several nodes, each once. -/
theorem node_foldl_update (change : Node → Node) (ids : List NodeId) (hNodup : ids.Nodup)
    (hArena : ∀ id ∈ ids, id < graph.nodes.size) (other : NodeId) :
    (ids.foldl (fun graph id => graph.update id change) graph).node other =
      if other ∈ ids then change (graph.node other) else graph.node other := by
  induction ids generalizing graph with
  | nil => simp
  | cons id ids ih =>
      obtain ⟨hNot, hRest⟩ := List.nodup_cons.mp hNodup
      rw [List.foldl_cons, ih hRest (fun id hId => by simpa using hArena id (List.mem_cons_of_mem _ hId))]
      by_cases hSame : other = id
      · subst other
        simp [hNot, node_update_self (hArena id List.mem_cons_self)]
      · simp [hSame, node_update_of_ne (Ne.symm hSame)]

/-- Changes of nodes leave the arena, the order and the labels alone. -/
theorem foldl_update_frame (graph : Graph) (change : Node → Node) (ids : List NodeId) :
    let after := ids.foldl (fun graph id => graph.update id change) graph
    after.order = graph.order ∧ after.nodes.size = graph.nodes.size ∧ after.labels = graph.labels := by
  induction ids generalizing graph with
  | nil => exact ⟨rfl, rfl, rfl⟩
  | cons id ids ih => simpa using ih (graph.update id change)

/-! ### Disposing of one node -/

/-- The order of appearance without a node, with its neighbours linked to each other. -/
def unlinked (graph : Graph) (target : NodeId) : Graph :=
  (graph.removeFromOrder target).link (graph.node target).previous (graph.node target).next

/-- Without a node in the order, and with edges past the node instead of its own. -/
def rewired (graph : Graph) (target : NodeId) : Graph :=
  let node := graph.node target
  let bypassed := (graph.unlinked target).bypassAll target (node.incoming.filter (· != target))
    (node.outgoing.filter (· != target)) node.backedges.contains
  bypassed.disconnectAll (node.incoming.map (·, target) ++ node.outgoing.map (target, ·))

/-- What a reference to a node becomes: a reference to its destination, unless the node leads to itself. -/
def redirection (graph : Graph) (target : NodeId) : Option NodeId :=
  (graph.resolvedDestination? target).filter (· != target)

/-- The change of a placed node when another node is disposed of. -/
def redirectNode (target : NodeId) (destination : Option NodeId) (node : Node) : Node :=
  { node with
    destination := if node.destination = some (.node target) then destination.map .node
      else node.destination
    backedges := node.backedges.filter (· != target)
    handlerSources := node.handlerSources.filter (· != target)
    stack := node.stack.map (Operand.redirect target destination) }

/-- The change of the node before when it takes the operands of the node disposed of. -/
def addOperands (operands : List Operand) (node : Node) : Node := { node with stack := node.stack ++ operands }

/-- The change of the node disposed of. -/
def retire (node : Node) : Node := { node with stack := [], disposed := true, handlerSources := [] }

/-- Operands are moved to the node before, unless they are cleared. -/
def moveStack (graph : Graph) (target : NodeId) (previous : Option NodeId) (clearStack : Bool) : Graph :=
  match previous with
  | some previous =>
    if clearStack then graph else graph.update previous (addOperands (graph.node target).stack)
  | none => graph

/-- Disposing of a node in steps that are looked at one by one: edges, references, operands, and the node itself. -/
theorem disposeOne_eq (graph : Graph) (target : NodeId) (clearStack : Bool) :
    graph.disposeOne target clearStack =
      { ((((graph.rewired target).redirectReferences target (graph.redirection target)).moveStack target
          (graph.node target).previous clearStack).update target retire) with stale := true } := by
  simp only [disposeOne, rewired, disconnectAll, List.foldl_append, List.foldl_map]
  rfl

/-- Rewiring changes edges and marks only. -/
theorem sameBlocks_rewired (graph : Graph) (target : NodeId) :
    SameBlocks (graph.unlinked target) (graph.rewired target) :=
  (sameBlocks_bypassAll _ _ _ _ _).trans (sameBlocks_disconnectAll _ _)

/-- What is not a link is the same when a node has left the order. -/
theorem field_unlinked {α : Type} (read : Node → α)
    (hRead : LinkFree read) :
    read ((graph.unlinked target).node other) = read (graph.node other) :=
  field_link read hRead _ _

/-- What led to the node leads to its successors, and the node has no edge left. -/
theorem Mirrored.rewired (mirrored : Mirrored graph) (target : NodeId) :
    Mirrored (graph.rewired target) ∧ ∀ a b, (graph.rewired target).Edge a b ↔
      a ≠ target ∧ b ≠ target ∧ (graph.Edge a b ∨ (graph.Edge a target ∧ graph.Edge target b)) := by
  have hUnlinked : Mirrored (graph.unlinked target) := mirrored.congr fun _ =>
    ⟨field_unlinked Node.outgoing (fun _ _ _ => rfl), field_unlinked Node.incoming (fun _ _ _ => rfl),
      field_unlinked Node.backedges (fun _ _ _ => rfl)⟩
  have hSize : (graph.unlinked target).nodes.size = graph.nodes.size := by simp [unlinked, removeFromOrder]
  have hSources : ∀ source ∈ (graph.node target).incoming.filter (· != target),
      source < (graph.unlinked target).nodes.size := fun source hSource =>
    hSize ▸ (mirrored.edge_lt (mirrored.mem_incoming.mp (List.mem_filter.mp hSource).1)).1
  have hSinks : ∀ sink ∈ (graph.node target).outgoing.filter (· != target),
      sink < (graph.unlinked target).nodes.size := fun sink hSink =>
    hSize ▸ (mirrored.edge_lt (List.mem_filter.mp hSink).1).2
  obtain ⟨hBypassed, hEdges⟩ := bypassAll_spec hUnlinked target
    ((graph.node target).incoming.filter (· != target)) ((graph.node target).outgoing.filter (· != target))
    (graph.node target).backedges.contains hSources hSinks
  refine ⟨hBypassed.disconnectAll _, fun a b => ?_⟩
  have hSame : (graph.unlinked target).Edge a b ↔ graph.Edge a b := by
    rw [Edge, field_unlinked Node.outgoing (fun _ _ _ => rfl)]
    rfl
  have hRemoved : (a, b) ∈ (graph.node target).incoming.map (·, target) ++
      (graph.node target).outgoing.map (target, ·) ↔
        (b = target ∧ graph.Edge a target) ∨ (a = target ∧ graph.Edge target b) := by
    simp [mirrored.mem_incoming, Edge, eq_comm, and_comm]
  have hSource : a ∈ (graph.node target).incoming.filter (· != target) ↔ graph.Edge a target ∧ a ≠ target := by
    simp [mirrored.mem_incoming]
  have hSink : b ∈ (graph.node target).outgoing.filter (· != target) ↔ graph.Edge target b ∧ b ≠ target := by
    simp [Edge]
  rw [Graph.rewired, edge_disconnectAll, hEdges, hSame, hRemoved, hSource, hSink]
  clear hBypassed hEdges hUnlinked hSources hSinks hSize hSame hRemoved hSource hSink
  by_cases ha : a = target
  · subst a
    simp only [ne_eq, not_true_eq_false, false_and, iff_false]
    tauto
  · by_cases hb : b = target
    · subst b
      simp [ha]
    · simp [ha, hb]

@[simp] theorem order_rewired (graph : Graph) (target : NodeId) :
    (graph.rewired target).order = graph.order.erase target := by
  simp [(sameBlocks_rewired graph target).order, unlinked, removeFromOrder]

@[simp] theorem size_rewired (graph : Graph) (target : NodeId) :
    (graph.rewired target).nodes.size = graph.nodes.size := by
  simp [(sameBlocks_rewired graph target).size, unlinked, removeFromOrder]

/-- A field that no step of the rewiring touches. -/
theorem field_rewired {α : Type} (read : Node → α)
    (hLinks : LinkFree read) (hEdges : EdgeFree read) :
    read ((graph.rewired target).node other) = read (graph.node other) :=
  ((sameBlocks_rewired graph target).field read hEdges other).trans (field_unlinked read hLinks)

/-- References are redirected in the nodes that keep their place. -/
theorem node_redirectReferences (linked : Linked graph) (destination : Option NodeId) :
    ((graph.rewired target).redirectReferences target destination).node other =
      if other ∈ graph.order ∧ other ≠ target then
        redirectNode target destination ((graph.rewired target).node other)
      else (graph.rewired target).node other := by
  have hErase : graph.order.erase target = graph.order.filter (· != target) := linked.nodup.erase_eq_filter target
  refine (node_foldl_update (redirectNode target destination) (graph.rewired target).order ?_ ?_ other).trans ?_
  · simpa using linked.nodup.erase target
  · intro id hId
    rw [order_rewired] at hId
    exact size_rewired graph target ▸ linked.lt id (List.mem_of_mem_erase hId)
  · simp [hErase, and_comm]

/-- References lie within nodes. -/
theorem redirectReferences_frame (graph : Graph) (target : NodeId) (destination : Option NodeId) :
    (graph.redirectReferences target destination).order = graph.order ∧
      (graph.redirectReferences target destination).nodes.size = graph.nodes.size ∧
      (graph.redirectReferences target destination).labels = graph.labels :=
  foldl_update_frame graph (redirectNode target destination) graph.order

/-- Operands lie within nodes. -/
theorem moveStack_frame (graph : Graph) (target : NodeId) (previous : Option NodeId) (clearStack : Bool) :
    (graph.moveStack target previous clearStack).order = graph.order ∧
      (graph.moveStack target previous clearStack).nodes.size = graph.nodes.size ∧
      (graph.moveStack target previous clearStack).labels = graph.labels := by
  unfold moveStack
  split
  · split <;> simp
  · simp

theorem size_moveStack (graph : Graph) (target : NodeId) (destination previous : Option NodeId) (clearStack : Bool) :
    (((graph.rewired target).redirectReferences target destination).moveStack target previous
      clearStack).nodes.size = graph.nodes.size :=
  (moveStack_frame _ _ _ _).2.1.trans ((redirectReferences_frame _ _ _).2.1.trans (size_rewired graph target))

/-- A field that a change keeps is kept by the same change of several nodes. -/
theorem field_foldl_update {α : Type} (read : Node → α) (change : Node → Node)
    (hKeep : ∀ node, read (change node) = read node) (ids : List NodeId) :
    read ((ids.foldl (fun graph id => graph.update id change) graph).node other) = read (graph.node other) := by
  induction ids generalizing graph with
  | nil => rfl
  | cons id ids ih => exact ih.trans (field_update read change (hKeep _))

/-- A field that no removal touches in the nodes that stay. -/
theorem field_moveStack {α : Type} (read : Node → α) (hLinks : LinkFree read) (hEdges : EdgeFree read)
    (hRedirect : ∀ destination node, read (redirectNode target destination node) = read node)
    (hOperands : ∀ operands node, read (addOperands operands node) = read node)
    (destination previous : Option NodeId) (clearStack : Bool) :
    read ((((graph.rewired target).redirectReferences target destination).moveStack target previous
      clearStack).node other) = read (graph.node other) := by
  have hRedirected : read (((graph.rewired target).redirectReferences target destination).node other) =
      read (graph.node other) :=
    (field_foldl_update read _ (hRedirect destination) _).trans (field_rewired read hLinks hEdges)
  unfold moveStack
  split
  · split
    · exact hRedirected
    · exact (field_update read _ (hOperands _ _)).trans hRedirected
  · exact hRedirected

@[simp] theorem order_disposeOne (graph : Graph) (target : NodeId) (clearStack : Bool) :
    (graph.disposeOne target clearStack).order = graph.order.erase target := by
  rw [disposeOne_eq]
  exact (moveStack_frame _ _ _ _).1.trans ((redirectReferences_frame _ _ _).1.trans (order_rewired graph target))

@[simp] theorem size_disposeOne (graph : Graph) (target : NodeId) (clearStack : Bool) :
    (graph.disposeOne target clearStack).nodes.size = graph.nodes.size := by
  rw [disposeOne_eq]
  exact (size_update _ _ _).trans (size_moveStack graph target _ _ clearStack)

@[simp] theorem labels_disposeOne (graph : Graph) (target : NodeId) (clearStack : Bool) :
    (graph.disposeOne target clearStack).labels = graph.labels := by
  have hRewired : (graph.rewired target).labels = graph.labels :=
    (sameBlocks_rewired graph target).labels.trans (labels_link _ _ _)
  rw [disposeOne_eq]
  exact (moveStack_frame _ _ _ _).2.2.trans ((redirectReferences_frame _ _ _).2.2.trans hRewired)

/-- The node is gone, if there was one, and no other node is. -/
theorem isDisposed_disposeOne (graph : Graph) (target : NodeId) (clearStack : Bool) (other : NodeId) :
    ((graph.disposeOne target clearStack).node other).disposed =
      (decide (target = other ∧ other < graph.nodes.size) || (graph.node other).disposed) := by
  rw [disposeOne_eq]
  change (Graph.node (update _ target retire) other).disposed = _
  rw [node_update, size_moveStack]
  split
  · next hSame => simp [hSame, retire]
  · next hOther =>
      rw [field_moveStack Node.disposed (fun _ _ _ => rfl) (fun _ => rfl) (fun _ _ => rfl) (fun _ _ => rfl)]
      simp [hOther]

/-- A live node alone is disposed of. -/
theorem dispose_plain (clearStack : Bool) (hLive : (graph.node target).disposed = false) :
    graph.dispose target clearStack false = ([target], graph.disposeOne target clearStack) := by
  simp only [dispose, disposeFrom, hLive, Bool.false_eq_true, ↓reduceIte, Bool.false_and]
  split <;> rfl

/-- The node before takes the operands over, on top of its own. -/
theorem node_moveStack (previous : Option NodeId) (clearStack : Bool) (hOther : other < graph.nodes.size) :
    (graph.moveStack target previous clearStack).node other =
      if previous = some other ∧ clearStack = false then
        addOperands (graph.node target).stack (graph.node other)
      else graph.node other := by
  cases previous with
  | none => simp [moveStack]
  | some previous =>
      cases clearStack with
      | true => simp [moveStack]
      | false => simp [moveStack, node_update, hOther]

/-- Every node after one has been disposed of. -/
theorem node_disposeOne (linked : Linked graph) (hTarget : target ∈ graph.order) (clearStack : Bool)
    (other : NodeId) :
    (graph.disposeOne target clearStack).node other =
      if other = target then retire ((graph.rewired target).node target)
      else if (graph.node target).previous = some other ∧ clearStack = false then
        addOperands (graph.node target).stack
          (redirectNode target (graph.redirection target) ((graph.rewired target).node other))
      else if other ∈ graph.order then
        redirectNode target (graph.redirection target) ((graph.rewired target).node other)
      else (graph.rewired target).node other := by
  have hArena := linked.lt target hTarget
  have hSize : ((graph.rewired target).redirectReferences target (graph.redirection target)).nodes.size =
      graph.nodes.size := (redirectReferences_frame _ _ _).2.1.trans (size_rewired graph target)
  have hStack : (((graph.rewired target).redirectReferences target (graph.redirection target)).node target).stack =
      (graph.node target).stack := by
    rw [node_redirectReferences linked]
    simpa using field_rewired Node.stack (fun _ _ _ => rfl) (fun _ => rfl)
  rw [disposeOne_eq]
  change (Graph.node (update _ target retire) other) = _
  by_cases hSame : other = target
  · subst other
    rw [node_update_self (by rw [(moveStack_frame _ _ _ _).2.1, hSize]; exact hArena),
      node_moveStack _ _ (hSize ▸ hArena), node_redirectReferences linked]
    simp [linked.previous_ne hTarget]
  · rw [node_update_of_ne (Ne.symm hSame), if_neg hSame]
    by_cases hOther : other < graph.nodes.size
    · rw [node_moveStack _ _ (hSize ▸ hOther), hStack, node_redirectReferences linked]
      by_cases hPrevious : (graph.node target).previous = some other
      · simp [hPrevious, linked.mem_of_previous hTarget hPrevious, hSame]
      · simp [hPrevious, hSame]
    · have hAbsent : other ∉ graph.order := fun hMember => hOther (linked.lt other hMember)
      have hPrevious : (graph.node target).previous ≠ some other := fun hPrevious =>
        hAbsent (linked.mem_of_previous hTarget hPrevious)
      simp only [hPrevious, hAbsent, false_and, ↓reduceIte]
      rw [node_of_size_le (by rw [(moveStack_frame _ _ _ _).2.1, hSize]; exact Nat.not_lt.mp hOther),
        node_of_size_le (by rw [size_rewired]; exact Nat.not_lt.mp hOther)]

section

variable (linked : Linked graph) (hTarget : target ∈ graph.order) (clearStack : Bool) (other : NodeId)

include linked hTarget

/-- No node but this one is marked as gone. -/
theorem disposed_disposeOne :
    ((graph.disposeOne target clearStack).node other).disposed =
      (decide (other = target) || (graph.node other).disposed) := by
  have hSame : target = other ∧ other < graph.nodes.size ↔ other = target :=
    ⟨fun h => h.1.symm, fun h => ⟨h.symm, h ▸ linked.lt target hTarget⟩⟩
  rw [isDisposed_disposeOne, decide_eq_decide.mpr hSame]

/-- Stacks afterwards: references are redirected in placed nodes, and the operands of the node come on top of those of
the one before, as they were. -/
theorem stack_disposeOne :
    ((graph.disposeOne target clearStack).node other).stack =
      if other = target then []
      else
        let kept := if other ∈ graph.order then
            (graph.node other).stack.map (Operand.redirect target (graph.redirection target))
          else (graph.node other).stack
        if (graph.node target).previous = some other ∧ clearStack = false then
          kept ++ (graph.node target).stack
        else kept := by
  have hKept : ((graph.rewired target).node other).stack = (graph.node other).stack :=
    field_rewired Node.stack (fun _ _ _ => rfl) (fun _ => rfl)
  rw [node_disposeOne linked hTarget]
  split
  · rfl
  · split
    · next h => simp [addOperands, redirectNode, hKept, linked.mem_of_previous hTarget h.1]
    · split <;> simp_all [redirectNode]

/-- Destinations afterwards: placed nodes that led to the node lead to its destination. -/
theorem destination_disposeOne :
    ((graph.disposeOne target clearStack).node other).destination =
      if other ∈ graph.order ∧ other ≠ target ∧ (graph.node other).destination = some (.node target) then
        (graph.redirection target).map .node
      else (graph.node other).destination := by
  have hKept (id : NodeId) : ((graph.rewired target).node id).destination = (graph.node id).destination :=
    field_rewired Node.destination (fun _ _ _ => rfl) (fun _ => rfl)
  rw [node_disposeOne linked hTarget]
  split
  · next h => simp [h, retire, hKept]
  · next hSame =>
      split
      · next h => simp [addOperands, redirectNode, hKept, linked.mem_of_previous hTarget h.1, hSame]
      · split <;> simp_all [redirectNode]

/-- A field that a removal changes through edges only. -/
theorem field_disposeOne {α : Type} (read : Node → α) (hRetire : ∀ node, read (retire node) = read node)
    (hRedirect : ∀ node destination, read (redirectNode target destination node) = read node)
    (hOperands : ∀ node operands, read (addOperands operands node) = read node) :
    read ((graph.disposeOne target clearStack).node other) = read ((graph.rewired target).node other) := by
  rw [node_disposeOne linked hTarget]
  split_ifs with h
  · rw [hRetire, h]
  · rw [hOperands, hRedirect]
  · rw [hRedirect]
  · rfl

/-- The node behind is linked to the one before. -/
theorem previous_disposeOne (hOther : other < graph.nodes.size) :
    ((graph.disposeOne target clearStack).node other).previous =
      if (graph.node target).next = some other then (graph.node target).previous
      else (graph.node other).previous := by
  rw [field_disposeOne linked hTarget clearStack other Node.previous (fun _ => rfl) (fun _ _ => rfl)
    (fun _ _ => rfl), (sameBlocks_rewired graph target).field Node.previous (fun _ => rfl) other]
  have hLinked : ((graph.unlinked target).node other).previous = _ :=
    @previous_link (graph.removeFromOrder target) other hOther (graph.node target).previous
      (graph.node target).next
  exact hLinked

/-- The node before is linked to the one behind. -/
theorem next_disposeOne (hOther : other < graph.nodes.size) :
    ((graph.disposeOne target clearStack).node other).next =
      if (graph.node target).previous = some other then (graph.node target).next
      else (graph.node other).next := by
  rw [field_disposeOne linked hTarget clearStack other Node.next (fun _ => rfl) (fun _ _ => rfl)
    (fun _ _ => rfl), (sameBlocks_rewired graph target).field Node.next (fun _ => rfl) other]
  have hLinked : ((graph.unlinked target).node other).next = _ :=
    @next_link (graph.removeFromOrder target) other hOther (graph.node target).previous
      (graph.node target).next
  exact hLinked

omit hTarget other in
/-- The order without the node is linked as it should be. -/
theorem Linked.disposeOne (hTarget : target ∈ graph.order) : Linked (graph.disposeOne target clearStack) := by
  obtain ⟨front, back, hOrder⟩ := List.append_of_mem hTarget
  obtain ⟨hPrevious, hNext⟩ := linked.previous_next hOrder
  have hFront : target ∉ front := fun hMember =>
    (List.nodup_append.mp (hOrder ▸ linked.nodup)).2.2 target hMember target List.mem_cons_self rfl
  refine linked.remove hOrder ?_ (size_disposeOne _ _ _)
    (fun other => disposed_disposeOne linked hTarget clearStack other) ?_ ?_
  · rw [order_disposeOne, hOrder, List.erase_append_right _ hFront, List.erase_cons_head]
  · intro other hOther _
    rw [previous_disposeOne linked hTarget clearStack other hOther, hPrevious, hNext]
  · intro other hOther _
    rw [next_disposeOne linked hTarget clearStack other hOther, hPrevious, hNext]

omit other in
/-- The edges afterwards: all that do not touch the node, and one past it for each pair of its own. -/
theorem edge_disposeOne (mirrored : Mirrored graph) :
    (graph.disposeOne target clearStack).Edge a b ↔
      a ≠ target ∧ b ≠ target ∧ (graph.Edge a b ∨ (graph.Edge a target ∧ graph.Edge target b)) := by
  rw [← (mirrored.rewired target).2, Edge, Edge, field_disposeOne linked hTarget clearStack a Node.outgoing
    (fun _ => rfl) (fun _ _ => rfl) (fun _ _ => rfl)]

omit hTarget other in
/-- The edges afterwards are known at both ends. -/
theorem Mirrored.disposeOne (mirrored : Mirrored graph) (hTarget : target ∈ graph.order) :
    Mirrored (graph.disposeOne target clearStack) := by
  refine (mirrored.rewired target).1.unmark (fun id => ?_) (fun id => ?_) (fun id => ?_)
  · exact field_disposeOne linked hTarget clearStack id Node.outgoing (fun _ => rfl) (fun _ _ => rfl)
      (fun _ _ => rfl)
  · exact field_disposeOne linked hTarget clearStack id Node.incoming (fun _ => rfl) (fun _ _ => rfl)
      (fun _ _ => rfl)
  · rw [node_disposeOne linked hTarget]
    split_ifs with h
    · exact h ▸ List.Sublist.refl _
    · exact List.filter_sublist
    · exact List.filter_sublist
    · exact List.Sublist.refl _

end

end Decompiler.Graph
