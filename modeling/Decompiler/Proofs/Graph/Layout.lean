import Decompiler.Graph.Region
import Decompiler.Graph.Stack
import Decompiler.Proofs.Dominance.Query
import Decompiler.Proofs.Graph.Progress

/-!
The layout of a graph: which nodes there are, where they have their place, and how far their folding has come. The
operands and the edges of nodes are no part of it.
-/

namespace Decompiler

/-- What a node has beside its operands and edges, as far as its place and its folding are concerned. -/
def Node.layout (node : Node) :
    Option NodeId × Option NodeId × Bool × Option StructureId × VisitState × List BreakableId :=
  (node.previous, node.next, node.disposed, node.progress)

namespace Graph

variable {graph middle after : Graph}

/-- No node is made, placed, disposed of or folded. -/
structure SameLayout (before after : Graph) : Prop where
  order : after.order = before.order
  size : after.nodes.size = before.nodes.size
  labels : after.labels = before.labels
  layout : ∀ id, (after.node id).layout = (before.node id).layout

namespace SameLayout

theorem refl (graph : Graph) : SameLayout graph graph := ⟨rfl, rfl, rfl, fun _ => rfl⟩

theorem trans (first : SameLayout graph middle) (second : SameLayout middle after) : SameLayout graph after :=
  ⟨second.order.trans first.order, second.size.trans first.size, second.labels.trans first.labels,
    fun id => (second.layout id).trans (first.layout id)⟩

/-- How far the folding has come is a part of the layout. -/
theorem progress (same : SameLayout graph after) : SameProgress graph after := fun id =>
  congrArg (fun layout => layout.2.2.2) (same.layout id)

theorem previous (same : SameLayout graph after) (id : NodeId) : (after.node id).previous = (graph.node id).previous :=
  congrArg Prod.fst (same.layout id)

theorem disposed (same : SameLayout graph after) (id : NodeId) : (after.node id).disposed = (graph.node id).disposed :=
  congrArg (fun layout => layout.2.2.1) (same.layout id)

/-- Places and the links between them are a part of the layout. -/
theorem linked (same : SameLayout graph after) (linked : Linked graph) : Linked after :=
  linked.congr same.order same.size same.disposed same.previous fun id =>
    congrArg (fun layout => layout.2.1) (same.layout id)

theorem foldl {α : Type} (step : Graph → α → Graph) (items : List α)
    (hStep : ∀ graph, ∀ item ∈ items, SameLayout graph (step graph item)) (graph : Graph) :
    SameLayout graph (items.foldl step graph) := by
  induction items generalizing graph with
  | nil => exact refl graph
  | cons item rest ih =>
      exact (hStep graph item List.mem_cons_self).trans
        (ih (fun graph item hItem => hStep graph item (List.mem_cons_of_mem _ hItem)) _)

/-- Graphs that only differ in their dominance facts have one layout. -/
theorem of_sameBlocks (same : SameBlocks graph after) : SameLayout graph after :=
  ⟨same.order, same.size, same.labels, same.field Node.layout fun _ => rfl⟩

/-- Queries leave the layout alone. -/
theorem of_sameFacts (same : SameFacts graph after) : SameLayout graph after :=
  ⟨same.order, same.size, same.labels, same.field Node.layout fun _ => rfl⟩

theorem supply (graph : Graph) (supply : Supply) : SameLayout graph { graph with supply } :=
  ⟨rfl, rfl, rfl, fun _ => rfl⟩

theorem update (graph : Graph) (id : NodeId) (change : Node → Node)
    (hKeep : ∀ node, (change node).layout = node.layout) : SameLayout graph (graph.update id change) :=
  ⟨rfl, size_update _ _ _, rfl, fun _ => field_update Node.layout change (hKeep _)⟩

/-- Edges are no part of the layout. -/
theorem connect (graph : Graph) (source target : NodeId) : SameLayout graph (graph.connect source target) :=
  of_sameBlocks (sameBlocks_connect graph source target)

theorem setDestination (graph : Graph) (id : NodeId) (destination : Destination) :
    SameLayout graph (graph.setDestination id destination) := update graph id _ fun _ => rfl

/-- A node that may not be disposed of as empty. -/
theorem pin (graph : Graph) (id : NodeId) :
    SameLayout graph (graph.update id fun node => { node with disposable := false }) := update graph id _ fun _ => rfl

/-! ### Operands -/

/-- Operands are no part of the layout. -/
theorem push (graph : Graph) (id : NodeId) (operand : Operand) : SameLayout graph (graph.push id operand) :=
  update graph id _ fun _ => rfl

theorem mapStack (graph : Graph) (id : NodeId) (change : List Operand → List Operand) :
    SameLayout graph (graph.mapStack id change) := update graph id _ fun _ => rfl

theorem changeEntry (graph : Graph) (id : NodeId) (depth : Nat) (change : Operand → Operand) :
    SameLayout graph (graph.changeEntry id depth change) := by
  rw [Graph.changeEntry]
  split
  · exact mapStack graph _ _
  · exact refl graph

/-- What is taken off a block leaves the node where it is. -/
theorem take? {id : NodeId} {depth : Nat} {operand : Operand} (hTaken : graph.take? id depth = some (operand, after)) :
    SameLayout graph after := by
  obtain ⟨⟨holder, place⟩, -, hTaken⟩ := Option.bind_eq_some_iff.mp hTaken
  obtain ⟨_, -, hTaken⟩ := Option.bind_eq_some_iff.mp hTaken
  cases hTaken
  exact mapStack graph holder _

/-- What is popped from a block leaves the node where it is, even when nothing remains in it. -/
theorem pop? {id : NodeId} {depth : Nat} {operand : Operand} (hPopped : graph.pop? id depth = some (operand, after)) :
    SameLayout graph after := by
  obtain ⟨_, -, hPopped⟩ := Option.bind_eq_some_iff.mp hPopped
  split at hPopped
  · cases hPopped
    exact changeEntry graph id depth _
  · exact take? hPopped

/-! ### Protected regions -/

/-- A region pins its start and its end and tells its handler, which are where they were. -/
theorem addRegion (regions : Regions) (graph : Graph) (start stop handler : NodeId) (exception : Option String) :
    SameLayout graph (regions.add graph start stop handler exception).2 := by
  have hPinned : SameLayout graph ([start, stop, handler].foldl (fun graph id =>
      graph.update id fun node => { node with disposable := false }) graph) :=
    foldl _ _ (fun graph id _ => pin graph id) graph
  unfold Regions.add
  split
  · exact refl graph
  · extract_lets pinned expectVisit
    have hVisit : ∀ graph, SameLayout graph (expectVisit graph) := fun graph =>
      update graph handler _ (by exact fun _ => rfl)
    split
    · split
      · exact hPinned.trans (hVisit _)
      · exact hPinned
    · exact hPinned.trans (hVisit _)

end SameLayout

/-! ### Nodes of labels -/

theorem labelNode?_congr (hLabels : after.labels = graph.labels) (label : Label) :
    after.labelNode? label = graph.labelNode? label := by
  rw [labelNode?, labelNode?, hLabels]

/-- A node was made for a label that had none. It has no place yet. -/
structure Labelled (before : Graph) (label : Label) (after : Graph) : Prop where
  linked : Linked before → Linked after
  order : after.order = before.order
  size : after.nodes.size = before.nodes.size + 1
  disposed : ∀ id, (after.node id).disposed = (before.node id).disposed
  lookup : ∀ other, after.labelNode? other =
    if other = label then some before.nodes.size else before.labelNode? other

/-- The node of a label is there already, or it is the next one of the arena. -/
theorem nodeOfLabel_cases (graph : Graph) (label : Label) :
    (∃ id, graph.labelNode? label = some id ∧ graph.nodeOfLabel label = (id, graph)) ∨
      ∃ later, graph.nodeOfLabel label = (graph.nodes.size, later) ∧ Labelled graph label later := by
  rw [nodeOfLabel]
  cases hFound : graph.labelNode? label with
  | some id => exact .inl ⟨id, rfl, rfl⟩
  | none =>
      refine .inr ⟨_, rfl, fun linked => (linked.allocate (some label) _).congr rfl rfl (fun _ => rfl) (fun _ => rfl)
        fun _ => rfl, rfl, size_allocate graph _ _, fun id => field_allocate Node.disposed (some label) _ rfl,
        fun other => ?_⟩
      simp only [labelNode?, List.lookup_cons]
      split <;> simp_all

/-- After a label was asked for its node, it has that one. -/
theorem labelNode?_nodeOfLabel (graph : Graph) (label : Label) :
    (graph.nodeOfLabel label).2.labelNode? label = some (graph.nodeOfLabel label).1 := by
  rcases nodeOfLabel_cases graph label with ⟨id, hFound, hKnown⟩ | ⟨later, hMade, labelled⟩
  · rw [hKnown, hFound]
  · rw [hMade, labelled.lookup, if_pos rfl]

end Graph

end Decompiler
