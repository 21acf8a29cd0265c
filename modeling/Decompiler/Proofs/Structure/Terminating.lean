import Decompiler.Proofs.Structure.Classifying
import Decompiler.Proofs.Structure.Topological

/-!
Folding ends by itself: neither the bound on its depth nor the one on how often a header is folded anew is ever
reached.
-/

namespace Decompiler

/-- A graph that folding can begin with. Both ends of an edge record it, only edges are marked as back-edges, and no
node was visited. -/
structure Graph.Foldable (graph : Graph) : Prop where
  mirror : ∀ source target, target ∈ (graph.node source).outgoing ↔ source ∈ (graph.node target).incoming
  marked : ∀ id, ∀ back ∈ (graph.node id).backedges, back ∈ (graph.node id).incoming
  unvisited : ∀ id, (graph.node id).visit = .unvisited

/-- A run of folding from a node, to a bounded depth. -/
def MethodBody.foldTo (body : MethodBody) (setting : Setting) (entry : NodeId) (depth : Nat) :
    Except Error StructureId × Folding :=
  (Folding.foldWithin depth entry setting).run.run { toMethodBody := body }

/-- The nodes that a run folded, by its records, the latest first. -/
def Folding.folded (state : Folding) : List NodeId := state.trace.filterMap TraceEntry.folded?

namespace Graph

theorem add_length_le_foldl (nodes : List Node) (bound : Nat) : bound + nodes.length ≤
    nodes.foldl (fun bound node => bound + node.outgoing.length + 1) bound := by
  induction nodes generalizing bound with
  | nil => exact Nat.le_refl _
  | cons node rest ih =>
      have hRest := ih (bound + node.outgoing.length + 1)
      rw [List.foldl_cons, List.length_cons]
      omega

theorem size_lt_searchBound (graph : Graph) : graph.capacity < graph.searchBound := by
  have hNodes := add_length_le_foldl graph.nodes.toList 2
  rw [Array.foldl_toList, Array.length_toList] at hNodes
  rw [capacity, searchBound]
  omega

/-- The nodes of the arena tell whether folding can begin, since what is no node has no edges. -/
theorem foldable_iff (graph : Graph) : graph.Foldable ↔ ∀ id < graph.nodes.size,
    (∀ target ∈ (graph.node id).outgoing, id ∈ (graph.node target).incoming) ∧
      (∀ source ∈ (graph.node id).incoming, id ∈ (graph.node source).outgoing) ∧
      (∀ back ∈ (graph.node id).backedges, back ∈ (graph.node id).incoming) ∧ (graph.node id).visit = .unvisited := by
  refine ⟨fun foldable id _ => ⟨fun target => (foldable.mirror id target).mp,
    fun source => (foldable.mirror source id).mpr,
    foldable.marked id, foldable.unvisited id⟩, fun hNodes => ?_⟩
  have hBlank (id : NodeId) (hOutside : ¬id < graph.nodes.size) : graph.node id = {} :=
    node_of_size_le (Nat.not_lt.mp hOutside)
  refine ⟨fun source target => ⟨fun hTarget => ?_, fun hSource => ?_⟩, fun id => ?_, fun id => ?_⟩
  · by_cases hInside : source < graph.nodes.size
    · exact (hNodes source hInside).1 target hTarget
    · simp [hBlank source hInside] at hTarget
  · by_cases hInside : target < graph.nodes.size
    · exact (hNodes target hInside).2.1 source hSource
    · simp [hBlank target hInside] at hSource
  · by_cases hInside : id < graph.nodes.size
    · exact (hNodes id hInside).2.2.1
    · simp [hBlank id hInside]
  · by_cases hInside : id < graph.nodes.size
    · exact (hNodes id hInside).2.2.2
    · rw [hBlank id hInside]

instance (graph : Graph) : Decidable graph.Foldable := decidable_of_iff' _ graph.foldable_iff

/-- In the beginning every node may be folded, and may put a connector on an edge. -/
theorem Foldable.budget {graph : Graph} (foldable : graph.Foldable) :
    graph.Budget (2 * graph.nodes.size) (2 * graph.nodes.size) := by
  have hUnfinished : graph.unfinished.card ≤ graph.nodes.size :=
    (Finset.card_filter_le _ _).trans (Finset.card_range _).le
  have hBranching : graph.branching.card ≤ graph.unfinished.card := Finset.card_filter_le _ _
  refine ⟨fun id back hBack => ?_, fun id next hNext => (foldable.mirror id next).mp hNext, by omega, by omega⟩
  have hIncoming := foldable.marked id back hBack
  exact ⟨hIncoming, (foldable.mirror back id).mpr hIncoming⟩

end Graph

variable {body : MethodBody} {setting : Setting} {entry : NodeId}

/-- Any two runs that may go deep enough agree. -/
theorem Graph.Foldable.runs (foldable : body.graph.Foldable) (setting : Setting) (entry : NodeId) (trace : Bool)
    {depth depth' : Nat} (hDepth : 2 * body.graph.nodes.size < depth) (hDepth' : 2 * body.graph.nodes.size < depth') :
    let run := body.foldTo (setting.recording true) entry depth
    body.foldTo (setting.recording trace) entry depth' = (run.1, run.2.recording trace) ∧
      Folding.Recorded { safe := True, nodes := 2 * body.graph.nodes.size, entry, trace } run.2 := by
  let watch : Watch := { safe := True, nodes := 2 * body.graph.nodes.size, entry, trace }
  have orderly : Folding.Orderly watch (2 * body.graph.nodes.size) (Folding.foldWithin depth)
      (Folding.foldWithin depth') :=
    Folding.orderly_deeper trivial hDepth hDepth'
  obtain ⟨outcome, after, hRun, hOther, records, -, -⟩ := orderly entry setting { toMethodBody := body }
    (.initial body fun _ => Nat.le_mul_of_pos_left _ Nat.two_pos)
    (Folding.InOrder.of_unvisited foldable.unvisited fun _ => foldable.budget)
  rw [Folding.recording_initial] at hOther
  intro run
  rw [show run = (outcome, after) from hRun]
  exact ⟨hOther, records⟩

/-- Folding a graph ends by itself. Nodes lie inside each other at most as deep as twice their number, so that no run is
cut off. Every node is folded at most once, those that are made on the way included, and at most one is made for each
that there was. A header is folded anew with fewer back-edges each time: those of a node that is folded are edges, and of
such ones every group takes one at least. So that is not cut off either. -/
theorem MethodBody.fold_terminates (foldable : body.graph.Foldable) (setting : Setting) (entry : NodeId) :
    let bound := 2 * body.graph.capacity
    let recorded := body.foldTo (setting.recording true) entry (bound + 1)
    (∀ depth > bound, body.foldTo setting entry depth =
        (recorded.1, recorded.2.recording setting.options.trace)) ∧
      bound < 4 * body.graph.searchBound ∧ recorded.2.folded.Nodup ∧ recorded.2.graph.capacity ≤ bound ∧
      (∀ graph id, .node .folded graph id ∈ recorded.2.trace → Folding.Enters id (graph.node id).backedges graph) ∧
      (∀ (graph : Graph) id backedges, backedges ≠ [] → Folding.Enters id backedges graph →
        let group := ((BackedgeGroup.collect id backedges).run graph).1
        (backedges.filter (!group.members.contains ·)).length < backedges.length) ∧
      ∀ fold id (state : Folding), Folding.Enters id (state.graph.node id).backedges state.graph →
        ∀ fuel > (state.graph.node id).backedges.length,
          (Folding.classifyWithin fold id fuel (state.graph.node id).backedges setting).run.run state =
            (Folding.classify fold id setting).run.run state := by
  intro bound recorded
  have hBound := body.graph.size_lt_searchBound
  have hRuns (depth : Nat) (hDepth : bound < depth) :=
    foldable.runs setting entry setting.options.trace (Nat.lt_succ_self bound) hDepth
  have records := (foldable.runs setting entry true (Nat.lt_succ_self bound) (Nat.lt_succ_self bound)).2
  refine ⟨fun depth hDepth => (hRuns depth hDepth).1, by omega, records.nodup, records.nodes trivial,
    fun graph id hRecord => records.edges trivial graph id hRecord, fun graph id backedges hSome hEnters => ?_,
    fun fold id state hEnters fuel hFuel => ?_⟩
  · exact BackedgeGroup.length_rest_lt hSome hEnters
  · rw [Folding.classify, Folding.run_node_bind]
    exact Folding.run_classifyWithin_congr hFuel (by omega) setting hEnters

/-- A method with a branch inside a branch that ends where the outer one ends, so that a connector leads out of it. -/
def innerBranch : CompiledUnit where
  owner := "A"
  name := "m"
  descriptor := "(II)V"
  isStatic := true
  events :=
    [.var .iload 0, .jump .ifeq 3, .label 1, .method .invokestatic { owner := "A", name := "f", descriptor := "()V" },
      .var .iload 1, .jump .ifeq 3, .label 2, .method .invokestatic { owner := "A", name := "g", descriptor := "()V" },
      .label 3, .frame .same 0 0, .insn .vreturn]

/-- The connector is the node with the number 5. -/
theorem fold_terminates_nested : ∃ body, (MethodBody.ofUnit innerBranch {}).1 = .ok body ∧ body.graph.Foldable ∧
    body.graph.capacity = 5 ∧ (body.foldTo (Setting.recording {} true) 0 11).2.folded = [1, 5, 3, 4, 2, 0] ∧
    (body.foldTo (Setting.recording {} true) 0 11).2.graph.capacity = 6 ∧
    ∀ depth > 10, body.foldTo {} 0 depth = body.foldTo {} 0 11 := by
  have hChecked : ∃ body, (MethodBody.ofUnit innerBranch {}).1 = .ok body ∧ body.graph.Foldable ∧
      body.graph.capacity = 5 ∧ (body.foldTo (Setting.recording {} true) 0 11).2.folded = [1, 5, 3, 4, 2, 0] ∧
      (body.foldTo (Setting.recording {} true) 0 11).2.graph.capacity = 6 :=
    exists_body (by decide +kernel)
  obtain ⟨body, hBody, foldable, hSize, hFolded, hAfter⟩ := hChecked
  obtain ⟨hDepth, -⟩ := MethodBody.fold_terminates foldable {} 0
  simp only [hSize] at hDepth
  exact ⟨body, hBody, foldable, hSize, hFolded, hAfter, fun depth hDeep =>
    (hDepth depth hDeep).trans (hDepth 11 (by decide)).symm⟩

end Decompiler
