import Decompiler.Proofs.Graph.DepthFirst
import Decompiler.Proofs.Graph.WellFormed

/-!
How far the folding of each node has come. No operation on a graph changes it, since operations only know the
edges, places and operands of nodes, and new nodes are not folded yet.
-/

namespace Decompiler

/-- How far the folding of a node has come: the statement that it became, its visits, and the constructs that it
knows. -/
def Node.progress (node : Node) : Option StructureId × VisitState × List BreakableId :=
  (node.statement, node.visit, node.breakables)

namespace Graph

variable {graph middle after : Graph}

/-- No node has come further, and every new node is where nodes begin. -/
def SameProgress (before after : Graph) : Prop := ∀ id, (after.node id).progress = (before.node id).progress

namespace SameProgress

theorem refl (graph : Graph) : SameProgress graph graph := fun _ => rfl

theorem trans (first : SameProgress graph middle) (second : SameProgress middle after) :
    SameProgress graph after := fun id => (second id).trans (first id)

/-- Steps that change no progress do not change it in a row either. -/
theorem foldl {α : Type} (step : Graph → α → Graph) (items : List α)
    (hStep : ∀ graph, ∀ item ∈ items, SameProgress graph (step graph item)) (graph : Graph) :
    SameProgress graph (items.foldl step graph) := by
  induction items generalizing graph with
  | nil => exact refl graph
  | cons item rest ih =>
      exact (hStep graph item List.mem_cons_self).trans
        (ih (fun graph item hItem => hStep graph item (List.mem_cons_of_mem _ hItem)) _)

/-- A change of a node that leaves its progress alone. -/
theorem update (graph : Graph) (id : NodeId) (change : Node → Node)
    (hKeep : ∀ node, (change node).progress = node.progress) : SameProgress graph (graph.update id change) :=
  fun _ => field_update Node.progress change (hKeep _)

/-- The nodes of a graph are all that matters. -/
theorem of_nodes (hNodes : after.nodes = graph.nodes) : SameProgress graph after := fun id => by
  rw [node, node, hNodes]

/-- Graphs that only differ in operands, edges and destinations are equally far. -/
theorem of_sameBlocks (same : SameBlocks graph after) : SameProgress graph after :=
  same.field Node.progress fun _ => rfl

theorem mapStack (graph : Graph) (id : NodeId) (change : List Operand → List Operand) :
    SameProgress graph (graph.mapStack id change) := update graph id _ fun _ => rfl

theorem setDestination (graph : Graph) (id : NodeId) (destination : Destination) :
    SameProgress graph (graph.setDestination id destination) := update graph id _ fun _ => rfl

/-! ### Edges and places -/

theorem connect (graph : Graph) (source target : NodeId) : SameProgress graph (graph.connect source target) :=
  of_sameBlocks (sameBlocks_connect graph source target)

theorem disconnect (graph : Graph) (source target : NodeId) :
    SameProgress graph (graph.disconnect source target) :=
  of_sameBlocks (sameBlocks_disconnect graph source target)

theorem addHandlerEdge (graph : Graph) (start handler : NodeId) :
    SameProgress graph (graph.addHandlerEdge start handler) := by
  unfold Graph.addHandlerEdge
  split
  · exact refl graph
  · exact (update graph handler (fun node => { node with handlerSources := node.handlerSources ++ [start] })
      fun _ => rfl).trans (of_nodes rfl)

theorem link (graph : Graph) (previous next : Option NodeId) : SameProgress graph (graph.link previous next) :=
  fun _ => field_link Node.progress (fun _ _ _ => rfl) previous next

/-- A new node is where nodes begin, like the places past the end of the graph. -/
theorem allocate (graph : Graph) (label : Option Label) (name : String) :
    SameProgress graph (graph.allocate label name).2 := fun _ => field_allocate Node.progress label name rfl

/-- The node of a label is looked up, or made where there is none. -/
theorem nodeOfLabel (graph : Graph) (label : Label) : SameProgress graph (graph.nodeOfLabel label).2 := by
  unfold Graph.nodeOfLabel
  split
  · exact refl graph
  · exact (allocate graph (some label) _).trans (of_nodes rfl)

theorem append (graph : Graph) (id : NodeId) : SameProgress graph (graph.append id) :=
  fun _ => field_append Node.progress fun _ _ _ => rfl

/-- A new node is placed and linked to its neighbours. -/
theorem place (graph : Graph) (order : List NodeId) (before id after : Option NodeId) :
    SameProgress graph ((({ graph.createAnonymous.2 with order } : Graph).link before id).link id after) := by
  have hPlaced : SameProgress graph { graph.createAnonymous.2 with order } :=
    (allocate graph none _).trans (of_nodes rfl)
  exact (hPlaced.trans (link _ before id)).trans (link _ id after)

theorem insertAfter (graph : Graph) (id : NodeId) : SameProgress graph (graph.insertAfter id).2 := by
  simp only [Graph.insertAfter]
  exact place graph _ _ _ _

theorem insertBefore (graph : Graph) (id : NodeId) : SameProgress graph (graph.insertBefore id).2 := by
  simp only [Graph.insertBefore]
  exact place graph _ _ _ _

theorem createConnector (graph : Graph) (source target : NodeId) :
    SameProgress graph (graph.createConnector source target).2 := by
  simp only [Graph.createConnector]
  generalize (graph.insertAfter source).1 = id
  have hInserted := insertAfter graph source
  generalize (graph.insertAfter source).2 = inserted at *
  generalize hNamed : inserted.update id _ = named
  have hRouted := (hInserted.trans (hNamed ▸ update inserted id _ fun _ => rfl)).trans
    (((disconnect named source target).trans (connect _ source id)).trans (connect _ id target))
  generalize ((named.disconnect source target).connect source id).connect id target = routed at *
  split
  · exact ((hRouted.trans (update routed target (fun node => { node with backedges := node.backedges ++ [id] })
      fun _ => rfl)).trans (setDestination _ id _)).trans (update _ source _ fun _ => rfl)
  · exact (hRouted.trans (setDestination _ id _)).trans (update _ source _ fun _ => rfl)

/-! ### Disposing and merging -/

/-- A node that is disposed of keeps what its folding has come to. -/
theorem disposeOne (graph : Graph) (target : NodeId) (clearStack : Bool) :
    SameProgress graph (graph.disposeOne target clearStack) := by
  have hMoved : SameProgress graph (((graph.rewired target).redirectReferences target
      (graph.redirection target)).moveStack target (graph.node target).previous clearStack) :=
    fun _ => field_moveStack Node.progress (fun _ _ _ => rfl) (fun _ => rfl) (fun _ _ => rfl) (fun _ _ => rfl) _ _ _
  rw [disposeOne_eq]
  exact (hMoved.trans (update _ target retire fun _ => rfl)).trans (of_nodes rfl)

/-- By the chain of nodes that are disposed of one after the other. -/
theorem disposeFrom (graph : Graph) (fuel : Nat) (target : NodeId) (clearStack recursive : Bool) :
    SameProgress graph (graph.disposeFrom fuel target clearStack recursive).2 := by
  induction fuel generalizing graph target with
  | zero => exact refl graph
  | succ fuel ih =>
      have hFirst := disposeOne graph target clearStack
      simp only [Graph.disposeFrom]
      split
      · exact refl graph
      · split
        · split
          · exact hFirst.trans (ih _ _)
          · exact hFirst
        · exact hFirst

/-- What the folding of a node has come to does not depend on the nodes that are gone. -/
theorem dispose (graph : Graph) (target : NodeId) (clearStack recursive : Bool) :
    SameProgress graph (graph.dispose target clearStack recursive).2 :=
  disposeFrom graph _ target clearStack recursive

/-- Joining replaces operands and disposing removes nodes, and neither folds any. -/
theorem mergeFrom (graph : Graph) (fuel : Nat) (id : NodeId) : SameProgress graph (graph.mergeFrom fuel id).2 := by
  induction fuel generalizing graph id with
  | zero => exact refl graph
  | succ fuel ih =>
      simp only [Graph.mergeFrom]
      rcases joinTop_cases graph id with hNone | ⟨_, fold, supply, top, rest, _, hJoin, _⟩
      · rw [hNone]
        exact refl graph
      · rw [hJoin]
        have hSupplied : SameProgress graph { graph with supply } := of_nodes rfl
        have hJoined := hSupplied.trans (mapStack _ id fun _ => graph.joinedStack id top rest)
        cases fold with
        | none => exact hJoined
        | some previous => exact (hJoined.trans (dispose _ id false true)).trans (ih _ previous)

/-! ### Splitting, and finding back-edges -/

/-- Operands, edges and destinations change hands one after the other. -/
theorem separate (graph : Graph) (id created : NodeId) (lower upper : List Operand) (kept sinks : List NodeId) :
    SameProgress graph (graph.separate id created lower upper kept sinks) := by
  have hShared : SameProgress graph (graph.shareStack id created lower upper) :=
    (mapStack graph created _).trans (mapStack _ id _)
  have hMoved (middle : Graph) : SameProgress middle
      (sinks.foldl (moveEdge id created kept (jumpTargets upper)) middle) :=
    of_sameBlocks (.foldl _ sinks (fun _ _ _ => sameBlocks_moveEdge _ _ _ _ _ _) middle)
  refine (hShared.trans (hMoved _)).trans ?_
  exact ((mapStack _ id _).trans (connect _ id created)).trans (setDestination _ id _)

/-- The node that a split creates takes edges and marks over, but no statement and no visits. -/
theorem takeOver (graph : Graph) (created : NodeId) (node : Node) :
    SameProgress graph (graph.takeOver created node) := by
  unfold Graph.takeOver
  split
  · exact (connect graph created _).trans (update _ created _ fun _ => rfl)
  · exact update graph created _ fun _ => rfl

/-- A split hands operands to a new node, which is not folded yet. -/
theorem split? {id created : NodeId} (hSplit : graph.split? id = some (created, after)) :
    SameProgress graph after := by
  obtain ⟨_, lower, upper, kept, _, rfl⟩ := split?_eq_some hSplit
  exact ((insertAfter graph id).trans (separate _ id created lower upper kept _)).trans (takeOver _ created _)

/-- By the splits that one node goes through. -/
theorem splitFrom (graph : Graph) (fuel : Nat) (id : NodeId) : SameProgress graph (graph.splitFrom fuel id).2 := by
  induction fuel generalizing graph id with
  | zero => exact refl graph
  | succ fuel ih =>
      simp only [Graph.splitFrom]
      split
      · next created after hSplit => exact (split? hSplit).trans (ih after created)
      · exact refl graph

/-- Separating conditions from the rest folds nothing. -/
theorem splitMixed (graph : Graph) (id : NodeId) : SameProgress graph (graph.splitMixed id).2 := splitFrom graph _ id

/-- Marks are set on edges, not on what a node has become. -/
theorem computeBackedges (graph : Graph) : SameProgress graph graph.computeBackedges := by
  refine computeBackedges_of_marks (SameProgress graph) (fun after id same => same.trans ?_)
    (fun after source target same => same.trans ?_) (fun after same => same.trans (of_nodes rfl)) (refl graph)
  · exact update after id _ fun _ => rfl
  · refine update after target _ fun node => ?_
    split <;> rfl

end SameProgress

end Graph

end Decompiler
