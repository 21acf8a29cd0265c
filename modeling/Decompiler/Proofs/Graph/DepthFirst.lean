import Decompiler.Graph.Dominance
import Decompiler.Proofs.Graph.Lookup

/-!
The depth-first search that marks back-edges, step by step. It sets and drops marks and changes nothing else of the
graph.
-/

namespace Decompiler.Graph

variable {graph : Graph} {source target id : NodeId}

/-! ### Marks -/

/-- The edge is marked, once. -/
def mark (graph : Graph) (source target : NodeId) : Graph :=
  graph.update target fun node =>
    if node.backedges.contains source then node else { node with backedges := node.backedges ++ [source] }

@[simp] theorem size_mark (graph : Graph) (source target : NodeId) :
    (graph.mark source target).nodes.size = graph.nodes.size := size_update _ _ _

@[simp] theorem outgoing_mark (graph : Graph) (source target id : NodeId) :
    ((graph.mark source target).node id).outgoing = (graph.node id).outgoing :=
  field_update Node.outgoing _ (by split <;> rfl)

/-- The mark is the only one that comes. -/
theorem mem_backedges_mark (hTarget : target < graph.nodes.size) {back : NodeId} :
    back ∈ ((graph.mark source target).node id).backedges ↔
      back ∈ (graph.node id).backedges ∨ (back = source ∧ id = target) := by
  rw [mark, node_update]
  by_cases hSame : target = id
  · subst hSame
    rw [if_pos ⟨rfl, hTarget⟩]
    split
    · next hMarked =>
        have hMarked : source ∈ (graph.node target).backedges := by simpa using hMarked
        simp only [and_true, iff_self_or]
        rintro rfl
        exact hMarked
    · simp
  · simp [hSame, Ne.symm hSame]

/-- The given nodes lose their marks. -/
def clearMarks (graph : Graph) (ids : List NodeId) : Graph :=
  ids.foldl (fun graph id => graph.update id fun node => { node with backedges := [] }) graph

/-- Only marks are lost. -/
theorem node_clearMarks (graph : Graph) (ids : List NodeId) (id : NodeId) :
    (graph.clearMarks ids).node id = if id ∈ ids then { graph.node id with backedges := [] } else graph.node id := by
  induction ids generalizing graph with
  | nil => simp [clearMarks]
  | cons first rest ih =>
      rw [clearMarks, List.foldl_cons]
      refine (ih _).trans ?_
      rw [node_update_of_blank _ rfl]
      by_cases hFirst : first = id
      · simp [hFirst]
      · simp [hFirst, Ne.symm hFirst]

@[simp] theorem size_clearMarks (graph : Graph) (ids : List NodeId) :
    (graph.clearMarks ids).nodes.size = graph.nodes.size := by
  induction ids generalizing graph with
  | nil => rfl
  | cons first rest ih => exact (ih _).trans (size_update _ _ _)

@[simp] theorem order_clearMarks (graph : Graph) (ids : List NodeId) : (graph.clearMarks ids).order = graph.order := by
  induction ids generalizing graph with
  | nil => rfl
  | cons first rest ih => exact (ih _).trans (order_update _ _ _)

@[simp] theorem outgoing_clearMarks (graph : Graph) (ids : List NodeId) (id : NodeId) :
    ((graph.clearMarks ids).node id).outgoing = (graph.node id).outgoing := by
  rw [node_clearMarks]
  split <;> rfl

namespace DepthFirst

variable {search : DepthFirst}

/-! ### Steps of the search -/

/-- The nodes on the path, innermost first. -/
def onPath (search : DepthFirst) : List NodeId := search.path.map Prod.fst

/-- What the search does: it starts from a further root, leaves a node whose edges are all followed, or follows an edge
of the innermost node. That edge leads back to the path and is marked, or it leads to a node that was left before, or to
a new node, which the search enters. -/
inductive Moves (search : DepthFirst) : DepthFirst → Prop where
  | start {root : NodeId} (hPath : search.path = []) (hFresh : root ∉ search.entered) : Moves search (search.enter root)
  | leave {id : NodeId} {outer : List (NodeId × List NodeId)} (hPath : search.path = (id, []) :: outer) :
      Moves search { search with path := outer }
  | mark {id target : NodeId} {rest : List NodeId} {outer : List (NodeId × List NodeId)}
      (hPath : search.path = (id, target :: rest) :: outer) (hBack : target ∈ search.onPath) :
      Moves search { search with graph := search.graph.mark id target, path := (id, rest) :: outer }
  | pass {id target : NodeId} {rest : List NodeId} {outer : List (NodeId × List NodeId)}
      (hPath : search.path = (id, target :: rest) :: outer) (hLeft : target ∉ search.onPath)
      (hEntered : target ∈ search.entered) : Moves search { search with path := (id, rest) :: outer }
  | enter {id target : NodeId} {rest : List NodeId} {outer : List (NodeId × List NodeId)}
      (hPath : search.path = (id, target :: rest) :: outer) (hFresh : target ∉ search.entered) :
      Moves search (({ search with path := (id, rest) :: outer } : DepthFirst).enter target)

/-- Each step of the search is one of these moves. -/
theorem moves_step (hPath : search.path ≠ []) : search.Moves search.step := by
  unfold step
  split
  · next hNone => exact absurd hNone hPath
  · next hLeave => exact .leave hLeave
  · next id target rest outer hFollow =>
      have hBack : (((id, rest) :: outer).any (·.1 == target)) = true ↔ target ∈ search.onPath := by
        simp [onPath, hFollow, @eq_comm _ target]
      dsimp only
      split
      · next hAny => exact .mark hFollow (hBack.mp hAny)
      · next hNone =>
          split
          · next hEntered => exact .pass hFollow (mt hBack.mpr hNone) (by simpa using hEntered)
          · next hFresh => exact .enter hFollow (by simpa using hFresh)

/-- What holds of a graph also with a further mark holds throughout a search. -/
theorem run_graph (property : Graph → Prop)
    (hMark : ∀ graph source target, property graph → property (graph.mark source target))
    (holds : property search.graph) (fuel : Nat) : property (search.run fuel).graph := by
  induction fuel generalizing search with
  | zero => exact holds
  | succ fuel ih =>
      rw [run]
      split
      · exact holds
      · next hMore =>
          have moves := moves_step (mt List.isEmpty_iff.mpr hMore)
          refine ih ?_
          generalize search.step = later at moves
          cases moves with
          | start | leave | pass | enter => exact holds
          | mark => exact hMark _ _ _ holds

end DepthFirst

/-- What holds of a graph also after marks are dropped or set holds once the back-edges are found. -/
theorem computeBackedges_of_marks (property : Graph → Prop)
    (hClear : ∀ graph id, property graph → property (graph.update id fun node => { node with backedges := [] }))
    (hMark : ∀ graph source target, property graph → property (graph.mark source target))
    (hStale : ∀ graph, property graph → property { graph with stale := true }) (holds : property graph) :
    property graph.computeBackedges := by
  have hCleared (ids : List NodeId) (graph : Graph) (holds : property graph) : property (graph.clearMarks ids) := by
    induction ids generalizing graph with
    | nil => exact holds
    | cons id ids ih => exact ih _ (hClear graph id holds)
  have hSearched (bound : Nat) (ids : List NodeId) (search : DepthFirst) (holds : property search.graph) :
      property (ids.foldl (fun (search : DepthFirst) root =>
        if search.entered.contains root then search else (search.enter root).run bound) search).graph := by
    induction ids generalizing search with
    | nil => exact holds
    | cons root ids ih =>
        rw [List.foldl_cons]
        split
        · exact ih search holds
        · exact ih _ (DepthFirst.run_graph property hMark (by exact holds) bound)
  exact hStale _ (hSearched _ _ _ (hCleared graph.order graph holds))

end Decompiler.Graph
