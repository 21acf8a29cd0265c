import Decompiler.Proofs.Graph.Lookup

/-!
Edges are recorded at both of their ends, once at each, and back-edges are marked among the incoming ones.
Every primitive change of edges keeps this, between nodes of the arena.
-/

namespace Decompiler.Graph

/-- Control passes from one node to the other. -/
def Edge (graph : Graph) (source target : NodeId) : Prop := target ∈ (graph.node source).outgoing

/-- Both ends of an edge record it. No end records it twice, and only incoming edges are marked as
back-edges. The statement includes nodes outside the order of appearance. -/
structure Mirrored (graph : Graph) : Prop where
  mirror : ∀ source target,
    target ∈ (graph.node source).outgoing ↔ source ∈ (graph.node target).incoming
  outgoing_nodup : ∀ id, (graph.node id).outgoing.Nodup
  incoming_nodup : ∀ id, (graph.node id).incoming.Nodup
  backedges_nodup : ∀ id, (graph.node id).backedges.Nodup
  backedges_incoming : ∀ id, ∀ source ∈ (graph.node id).backedges, source ∈ (graph.node id).incoming

/-- Two graphs differ in edges and marks of back-edges at most. -/
structure SameBlocks (before after : Graph) : Prop where
  order : after.order = before.order
  size : after.nodes.size = before.nodes.size
  labels : after.labels = before.labels
  block : ∀ id,
    { after.node id with incoming := [], outgoing := [], backedges := [] } =
      { before.node id with incoming := [], outgoing := [], backedges := [] }

/-- A field of a node that edges do not concern. -/
def EdgeFree {α : Type} (read : Node → α) : Prop :=
  ∀ node : Node,
    read { node with incoming := [], outgoing := [], backedges := [] } = read node

namespace SameBlocks

variable {before middle after : Graph}

theorem refl (graph : Graph) : SameBlocks graph graph := ⟨rfl, rfl, rfl, fun _ => rfl⟩

theorem trans (first : SameBlocks before middle) (second : SameBlocks middle after) :
    SameBlocks before after :=
  ⟨second.order.trans first.order, second.size.trans first.size, second.labels.trans first.labels,
    fun id => (second.block id).trans (first.block id)⟩

/-- A field that does not concern edges is the same in every node. -/
theorem field {α : Type} (same : SameBlocks before after) (read : Node → α) (hRead : EdgeFree read)
    (id : NodeId) :
    read (after.node id) = read (before.node id) := by
  rw [← hRead, same.block id, hRead]

/-- Steps that keep the blocks keep them all together. -/
theorem foldl {α : Type} (step : Graph → α → Graph) (items : List α)
    (hStep : ∀ graph, ∀ item ∈ items, SameBlocks graph (step graph item)) (graph : Graph) :
    SameBlocks graph (items.foldl step graph) := by
  induction items generalizing graph with
  | nil => exact refl graph
  | cons item rest ih =>
      exact (hStep graph item List.mem_cons_self).trans
        (ih (fun graph item hItem => hStep graph item (List.mem_cons_of_mem _ hItem)) _)

end SameBlocks

variable {graph : Graph} {id source target : NodeId}

namespace Mirrored

theorem mem_incoming (mirrored : Mirrored graph) :
    source ∈ (graph.node target).incoming ↔ graph.Edge source target :=
  (mirrored.mirror source target).symm

/-- Both ends of an edge lie in the arena. -/
theorem edge_lt (mirrored : Mirrored graph) (hEdge : graph.Edge source target) :
    source < graph.nodes.size ∧ target < graph.nodes.size := by
  constructor
  · by_contra hSource
    simp [Edge, node_of_size_le (Nat.not_lt.mp hSource)] at hEdge
  · by_contra hTarget
    have hIncoming := mirrored.mem_incoming.mpr hEdge
    simp [node_of_size_le (Nat.not_lt.mp hTarget)] at hIncoming

/-- Marks of back-edges may be dropped. -/
theorem unmark {after : Graph} (mirrored : Mirrored graph)
    (hOutgoing : ∀ id, (after.node id).outgoing = (graph.node id).outgoing)
    (hIncoming : ∀ id, (after.node id).incoming = (graph.node id).incoming)
    (hBackedges : ∀ id, (after.node id).backedges.Sublist (graph.node id).backedges) : Mirrored after where
  mirror source target := by
    rw [hOutgoing, hIncoming]
    exact mirrored.mirror source target
  outgoing_nodup id := hOutgoing id ▸ mirrored.outgoing_nodup id
  incoming_nodup id := hIncoming id ▸ mirrored.incoming_nodup id
  backedges_nodup id := (mirrored.backedges_nodup id).sublist (hBackedges id)
  backedges_incoming id source hSource :=
    hIncoming id ▸ mirrored.backedges_incoming id source ((hBackedges id).subset hSource)

/-- The edges of a graph are all that matters. -/
theorem congr {after : Graph} (mirrored : Mirrored graph)
    (hEdges : ∀ id, (after.node id).outgoing = (graph.node id).outgoing ∧
      (after.node id).incoming = (graph.node id).incoming ∧
      (after.node id).backedges = (graph.node id).backedges) : Mirrored after :=
  mirrored.unmark (fun id => (hEdges id).1) (fun id => (hEdges id).2.1)
    (fun id => (hEdges id).2.2 ▸ List.Sublist.refl _)

end Mirrored

/-! ### Adding and removing edges -/

theorem sameBlocks_update (graph : Graph) (id : NodeId) (change : Node → Node)
    (hKeep : ∀ node : Node,
      { change node with incoming := [], outgoing := [], backedges := [] } =
        { node with incoming := [], outgoing := [], backedges := [] }) :
    SameBlocks graph (graph.update id change) :=
  ⟨rfl, by simp, rfl, fun _ => field_update (fun node : Node =>
    { node with incoming := [], outgoing := [], backedges := [] }) change (hKeep _)⟩

theorem sameBlocks_stale (graph : Graph) (stale : Bool) : SameBlocks graph { graph with stale } :=
  ⟨rfl, rfl, rfl, fun _ => rfl⟩

theorem sameBlocks_connect (graph : Graph) (source target : NodeId) :
    SameBlocks graph (graph.connect source target) := by
  unfold connect
  split
  · exact .refl graph
  · have first := sameBlocks_update graph source
      (fun node => { node with outgoing := node.outgoing ++ [target] }) fun _ => rfl
    have second := sameBlocks_update (graph.update source
      fun node => { node with outgoing := node.outgoing ++ [target] }) target
      (fun node => { node with incoming := node.incoming ++ [source] }) fun _ => rfl
    exact (first.trans second).trans (sameBlocks_stale _ true)

theorem sameBlocks_disconnect (graph : Graph) (source target : NodeId) :
    SameBlocks graph (graph.disconnect source target) := by
  have first := sameBlocks_update graph source
    (fun node => { node with outgoing := node.outgoing.filter (· != target) }) fun _ => rfl
  have second := sameBlocks_update (graph.update source
    fun node => { node with outgoing := node.outgoing.filter (· != target) }) target
    (fun node => { node with incoming := node.incoming.filter (· != source)
                             backedges := node.backedges.filter (· != source) }) fun _ => rfl
  exact (first.trans second).trans (sameBlocks_stale _ _)

/-- Connecting adds one edge at most. -/
theorem edge_connect (hSource : source < graph.nodes.size) {a b : NodeId} :
    (graph.connect source target).Edge a b ↔ graph.Edge a b ∨ (a = source ∧ b = target) := by
  rw [Edge, Edge, outgoing_connect hSource]
  by_cases ha : source = a
  · subst ha
    by_cases hEdge : target ∈ (graph.node source).outgoing
    · simp only [hEdge, not_true_eq_false, and_false, ↓reduceIte, true_and, iff_self_or]
      rintro rfl
      exact hEdge
    · simp [hEdge]
  · simp [ha, Ne.symm ha]

/-- Disconnecting removes one edge at most. -/
theorem edge_disconnect {a b : NodeId} :
    (graph.disconnect source target).Edge a b ↔ graph.Edge a b ∧ ¬(a = source ∧ b = target) := by
  rw [Edge, Edge, outgoing_disconnect]
  by_cases ha : source = a
  · simp [ha]
  · simp [ha, Ne.symm ha]

theorem nodup_concat {items : List NodeId} {item : NodeId} (hItems : items.Nodup) (hFresh : item ∉ items) :
    (items ++ [item]).Nodup :=
  List.nodup_append.mpr ⟨hItems, List.nodup_singleton item, fun _ ha _ hb hab =>
    hFresh (List.mem_singleton.mp hb ▸ hab ▸ ha)⟩

/-- Both ends of a new edge note it, once. -/
theorem Mirrored.connect (mirrored : Mirrored graph) (hSource : source < graph.nodes.size)
    (hTarget : target < graph.nodes.size) : Mirrored (graph.connect source target) := by
  by_cases hEdge : target ∈ (graph.node source).outgoing
  · refine mirrored.congr fun id => ?_
    simp [outgoing_connect hSource, incoming_connect hTarget, backedges_connect, hEdge]
  have hIncoming : source ∉ (graph.node target).incoming := by
    rwa [← mirrored.mirror source target]
  refine ⟨fun a b => ?_, fun id => ?_, fun id => ?_, fun id => ?_, fun id => ?_⟩
  · change (graph.connect source target).Edge a b ↔ _
    rw [edge_connect hSource, incoming_connect hTarget, Edge, mirrored.mirror a b]
    by_cases hb : target = b
    · subst b
      simp [hEdge]
    · simp [hb, Ne.symm hb]
  · rw [outgoing_connect hSource]
    split
    · next h => exact nodup_concat (mirrored.outgoing_nodup id) (h.1 ▸ hEdge)
    · exact mirrored.outgoing_nodup id
  · rw [incoming_connect hTarget]
    split
    · next h => exact nodup_concat (mirrored.incoming_nodup id) (h.1 ▸ hIncoming)
    · exact mirrored.incoming_nodup id
  · rw [backedges_connect]
    exact mirrored.backedges_nodup id
  · intro back hBack
    rw [backedges_connect] at hBack
    rw [incoming_connect hTarget]
    have hKept := mirrored.backedges_incoming id back hBack
    split
    · exact List.mem_append_left _ hKept
    · exact hKept

/-- Both ends of an edge forget it, and so does the mark. -/
theorem Mirrored.disconnect (mirrored : Mirrored graph) (source target : NodeId) :
    Mirrored (graph.disconnect source target) := by
  refine ⟨fun a b => ?_, fun id => ?_, fun id => ?_, fun id => ?_, fun id => ?_⟩
  · change (graph.disconnect source target).Edge a b ↔ _
    rw [edge_disconnect, incoming_disconnect, Edge, mirrored.mirror a b]
    by_cases hb : target = b
    · simp [hb]
    · simp [hb, Ne.symm hb]
  · rw [outgoing_disconnect]
    split
    · exact (mirrored.outgoing_nodup id).filter _
    · exact mirrored.outgoing_nodup id
  · rw [incoming_disconnect]
    split
    · exact (mirrored.incoming_nodup id).filter _
    · exact mirrored.incoming_nodup id
  · rw [backedges_disconnect]
    split
    · exact (mirrored.backedges_nodup id).filter _
    · exact mirrored.backedges_nodup id
  · intro back hBack
    rw [backedges_disconnect] at hBack
    rw [incoming_disconnect]
    split at hBack
    · next h =>
        obtain ⟨hMarked, hOther⟩ := List.mem_filter.mp hBack
        simpa [h, mirrored.backedges_incoming id back hMarked] using hOther
    · next h => simpa [h] using mirrored.backedges_incoming id back hBack

/-- An incoming edge may be marked as a back-edge. -/
theorem Mirrored.mark (mirrored : Mirrored graph) (hEdge : graph.Edge source target)
    (hFresh : source ∉ (graph.node target).backedges) :
    Mirrored (graph.update target fun node => { node with backedges := node.backedges ++ [source] }) := by
  have hIncoming := mirrored.mem_incoming.mpr hEdge
  refine ⟨fun a b => ?_, fun id => ?_, fun id => ?_, fun id => ?_, fun id => ?_⟩
  · rw [field_update Node.outgoing _ rfl, field_update Node.incoming _ rfl]
    exact mirrored.mirror a b
  · rw [field_update Node.outgoing _ rfl]
    exact mirrored.outgoing_nodup id
  · rw [field_update Node.incoming _ rfl]
    exact mirrored.incoming_nodup id
  · rw [node_update]
    split
    · next h =>
        obtain ⟨rfl, _⟩ := h
        exact nodup_concat (mirrored.backedges_nodup _) hFresh
    · exact mirrored.backedges_nodup id
  · rw [field_update Node.incoming _ rfl, node_update]
    intro back hBack
    split at hBack
    · next h =>
        obtain ⟨rfl, _⟩ := h
        rcases List.mem_append.mp hBack with hOld | hNew
        · exact mirrored.backedges_incoming _ back hOld
        · rw [List.mem_singleton.mp hNew]
          exact hIncoming
    · exact mirrored.backedges_incoming id back hBack

end Decompiler.Graph
