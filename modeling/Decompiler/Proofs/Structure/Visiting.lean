import Decompiler.Proofs.Graph.Flow
import Decompiler.Structure.Folding
import Mathlib.Data.Finset.Card
import Mathlib.Data.List.Perm.Subperm

/-!
What holds of the nodes of a graph while it is folded. Nodes are folded in topological order: those that are not
folded yet were visited only by folded ones, along edges that close no cycle, each once. Every node that is folded
takes one off the work that is left, and pays for the connector that it may put on an edge.
-/

namespace Decompiler

/-- The visits of a node are precisely those that it required. -/
structure Node.VisitsExact (node : Node) : Prop where
  nodup : node.visit.arrivals.sources.Nodup
  sources : node.visit.arrivals.sources.Perm node.forwardIncoming
  additional : node.visit.arrivals.additional = node.additionalCalls

/-- The visits of a node so far are right ones. -/
structure Node.Expects (node : Node) : Prop where
  nodup : node.visit.arrivals.sources.Nodup
  expected : ∀ source ∈ node.visit.arrivals.sources, source ∈ node.forwardIncoming
  granted : node.visit.arrivals.additional ≤ node.additionalCalls

/-- A node that no visit came to. -/
theorem Node.Expects.of_unvisited {node : Node} (hVisit : node.visit = .unvisited) : node.Expects := by
  have hArrivals : node.visit.arrivals = {} := by rw [hVisit]; rfl
  constructor <;> simp [hArrivals]

/-- As many right visits as are required are all that are required. -/
theorem Node.Expects.exact {node : Node} (expects : node.Expects) (hCalls : node.requiredCalls ≤ node.visit.calls) :
    node.VisitsExact := by
  have hSubperm := List.subperm_of_subset expects.nodup expects.expected
  have hLength := hSubperm.length_le
  have hGranted := expects.granted
  rw [requiredCalls, VisitState.calls, Arrivals.count] at hCalls
  exact ⟨expects.nodup, hSubperm.perm_of_length_le (by omega), by omega⟩

section Congr

variable {node other : Node} (hArrivals : other.visit.arrivals = node.visit.arrivals)
  (hForward : other.forwardIncoming = node.forwardIncoming) (hCalls : other.additionalCalls = node.additionalCalls)
include hArrivals hForward hCalls

/-- Exactness is told by the visits and by what is expected. -/
theorem Node.VisitsExact.congr (exact : node.VisitsExact) : other.VisitsExact := by
  obtain ⟨hNodup, hSources, hAdditional⟩ := exact
  constructor <;> rw [hArrivals]
  · exact hNodup
  · rwa [hForward]
  · rwa [hCalls]

/-- Expectation is told by the visits and by what is expected. -/
theorem Node.Expects.congr (expects : node.Expects) : other.Expects := by
  obtain ⟨hNodup, hExpected, hGranted⟩ := expects
  constructor <;> rw [hArrivals]
  · exact hNodup
  · rwa [hForward]
  · rwa [hCalls]

end Congr

namespace VisitState

@[simp] theorem isDone_arrive (visit : VisitState) (source : Option NodeId) :
    (visit.arrive source).isDone = visit.isDone := by
  unfold arrive
  dsimp only
  cases hDone : visit.isDone <;> simp [isDone]

/-- A visit without a source counts as an additional one. -/
theorem arrivals_arrive_none (visit : VisitState) :
    (visit.arrive none).arrivals = { visit.arrivals with additional := visit.arrivals.additional + 1 } := by
  unfold arrive
  dsimp only
  split <;> rfl

/-- A visit along an edge counts once for its source. -/
theorem arrivals_arrive_some (visit : VisitState) (source : NodeId) :
    (visit.arrive (some source)).arrivals = if visit.arrivals.sources.contains source then visit.arrivals
      else { visit.arrivals with sources := visit.arrivals.sources ++ [source] } := by
  unfold arrive
  dsimp only
  split <;> rfl

end VisitState

namespace Node

/-- The node after a visit. -/
def visited (source : NodeId) (arrival : Arrival) (node : Node) : Node :=
  match arrival with
  | .edge =>
    if node.forwardIncoming.contains source then { node with visit := node.visit.arrive (some source) } else node
  | .additional =>
    if node.visit.arrivals.additional < node.additionalCalls then { node with visit := node.visit.arrive none }
    else node
  | .detached => node

variable (source : NodeId) (arrival : Arrival) (node : Node)

/-- A visit changes what came, and nothing else of the node. -/
theorem visited_eq : node.visited source arrival = { node with visit := (node.visited source arrival).visit } := by
  unfold visited
  cases arrival <;> dsimp only
  · split <;> rfl
  · split <;> rfl

@[simp] theorem isDone_visited : (node.visited source arrival).visit.isDone = node.visit.isDone := by
  unfold visited
  cases arrival <;> dsimp only
  · split
    · exact VisitState.isDone_arrive node.visit (some source)
    · rfl
  · split
    · exact VisitState.isDone_arrive node.visit none
    · rfl

variable {source arrival node}

/-- A visit is a right one, whether it counts or not. -/
theorem Expects.visited (expects : node.Expects) (source : NodeId) (arrival : Arrival) :
    (node.visited source arrival).Expects := by
  unfold Node.visited
  cases arrival <;> dsimp only
  · split
    · rename_i hEdge
      have hSource : source ∈ node.forwardIncoming := by simpa using hEdge
      obtain ⟨hNodup, hExpected, hGranted⟩ := expects
      constructor <;> dsimp only <;> rw [VisitState.arrivals_arrive_some] <;> split
      · exact hNodup
      · rename_i hNew
        exact Graph.nodup_concat hNodup (by simpa using hNew)
      · exact hExpected
      · intro other hOther
        rcases List.mem_append.mp hOther with hOld | hNew
        · exact hExpected other hOld
        · exact List.mem_singleton.mp hNew ▸ hSource
      · exact hGranted
      · exact hGranted
    · exact expects
  · split
    · rename_i hFewer
      obtain ⟨hNodup, hExpected, hGranted⟩ := expects
      constructor <;> dsimp only <;> rw [VisitState.arrivals_arrive_none]
      · exact hNodup
      · exact hExpected
      · exact hFewer
    · exact expects
  · exact expects

/-- A node that received the visits that it requires takes no more. -/
theorem VisitsExact.arrivals_visited (exact : node.VisitsExact) (source : NodeId) (arrival : Arrival) :
    (node.visited source arrival).visit.arrivals = node.visit.arrivals := by
  unfold Node.visited
  cases arrival <;> dsimp only
  · split
    · rename_i hEdge
      have hSource : source ∈ node.visit.arrivals.sources := exact.sources.mem_iff.mpr (by simpa using hEdge)
      rw [VisitState.arrivals_arrive_some, if_pos (List.contains_iff_mem.mpr hSource)]
    · rfl
  · rw [if_neg (Nat.not_lt.mpr exact.additional.ge)]

/-- The only source that may come anew is the visitor. -/
theorem mem_sources_visited {other : NodeId}
    (hOther : other ∈ (node.visited source arrival).visit.arrivals.sources) :
    other ∈ node.visit.arrivals.sources ∨ other = source := by
  unfold visited at hOther
  cases arrival <;> dsimp only at hOther
  · split at hOther
    · rw [VisitState.arrivals_arrive_some] at hOther
      split at hOther
      · exact .inl hOther
      · simpa using hOther
    · exact .inl hOther
  · split at hOther
    · rw [VisitState.arrivals_arrive_none] at hOther
      exact .inl hOther
    · exact .inl hOther
  · exact .inl hOther

end Node

/-- What a run of folding is watched for. -/
structure Watch where
  /-- The graph is safe to fold, so that the run is bounded. -/
  safe : Prop
  /-- The bound on the number of nodes. -/
  nodes : Nat
  /-- The node where the run begins. -/
  entry : NodeId
  /-- The run that it is compared with keeps records of progress. -/
  trace : Bool

namespace Graph

variable {watch : Watch} {work nodes : Nat} {graph middle after : Graph} {id other source target : NodeId}

/-! ### Visits so far -/

/-- No more visits are to come: the node became a statement, or is about to. -/
def Done (graph : Graph) (id : NodeId) : Prop := (graph.node id).visit.isDone

/-- The node lies in the graph, since what is no node was not visited. -/
theorem Done.lt (done : graph.Done id) : id < graph.nodes.size := by
  by_contra hOutside
  rw [Done, node_of_size_le (Nat.not_lt.mp hOutside)] at done
  cases done

/-- The node was folded when precisely the visits had come that it requires, and it requires no others since then. -/
structure Served (graph : Graph) (id : NodeId) : Prop where
  done : graph.Done id
  exact : (graph.node id).VisitsExact

/-- Folding went on: what is done stays done, and nodes only join. -/
structure Forward (before after : Graph) : Prop where
  size : before.nodes.size ≤ after.nodes.size
  done : ∀ id, before.Done id → after.Done id

namespace Forward

theorem refl (graph : Graph) : Forward graph graph := ⟨Nat.le_refl _, fun _ done => done⟩

theorem trans (first : Forward graph middle) (second : Forward middle after) : Forward graph after :=
  ⟨Nat.le_trans first.size second.size, fun id done => second.done id (first.done id done)⟩

theorem of_sameFlow (same : SameFlow graph after) : Forward graph after :=
  ⟨same.size.ge, fun id done => by rwa [Done, same.visit]⟩

/-- A connector undoes nothing. -/
theorem of_rerouted (rerouted : Rerouted source target graph after) : Forward graph after :=
  ⟨rerouted.size ▸ Nat.le_succ _, fun id done => by rwa [Done, rerouted.visit]⟩

/-- A change of one node that does not take its visits back. -/
theorem update (graph : Graph) (id : NodeId) {change : Node → Node}
    (hDone : ∀ node, node.visit.isDone → (change node).visit.isDone) : Forward graph (graph.update id change) := by
  refine ⟨(size_update graph id change).ge, fun other done => ?_⟩
  rw [Done, node_update]
  split
  · exact hDone _ done
  · exact done

end Forward

/-! ### Work that is left -/

/-- The nodes that can still be folded. -/
def unfinished (graph : Graph) : Finset NodeId :=
  (Finset.range graph.nodes.size).filter fun id => !(graph.node id).visit.isDone

/-- Those with several successors. Each may put a connector on an edge when it is folded. -/
def branching (graph : Graph) : Finset NodeId :=
  graph.unfinished.filter fun id => 2 ≤ (graph.node id).outgoing.length

/-- What can still be folded is a node that is not done. -/
theorem mem_unfinished : id ∈ graph.unfinished ↔ id < graph.nodes.size ∧ ¬graph.Done id := by
  simp [unfinished, Done]

/-- A node that branches can still be folded. -/
theorem mem_branching : id ∈ graph.branching ↔
    id ∈ graph.unfinished ∧ 2 ≤ (graph.node id).outgoing.length := Finset.mem_filter

/-- Bounds on the work that is left and on the number of nodes. -/
structure Budget (work nodes : Nat) (graph : Graph) : Prop where
  /-- What is marked as a back-edge is an edge, at both of its ends. -/
  edges : ∀ id, ∀ back ∈ (graph.node id).backedges,
    back ∈ (graph.node id).incoming ∧ id ∈ (graph.node back).outgoing
  mirror : ∀ id, ∀ next ∈ (graph.node id).outgoing, id ∈ (graph.node next).incoming
  work : graph.unfinished.card + graph.branching.card ≤ work
  nodes : graph.nodes.size + graph.branching.card ≤ nodes

/-- Folding goes in topological order, and within the budget if the graph is safe to fold. -/
structure InOrder (watch : Watch) (work : Nat) (graph : Graph) : Prop where
  expects : ∀ id, ¬graph.Done id → (graph.node id).Expects
  /-- Nodes are visited by nodes that are folded already or are being folded. -/
  visitors : ∀ id, ∀ source ∈ (graph.node id).visit.arrivals.sources, graph.Done source
  budget : watch.safe → graph.Budget work watch.nodes

/-- More work is allowed. -/
theorem InOrder.mono (inOrder : graph.InOrder watch work) : graph.InOrder watch (work + 1) :=
  ⟨inOrder.expects, inOrder.visitors, fun hSafe =>
    have budget := inOrder.budget hSafe
    ⟨budget.edges, budget.mirror, Nat.le_succ_of_le budget.work, budget.nodes⟩⟩

/-- A node was just entered and did not visit any other yet. -/
structure Opening (watch : Watch) (work : Nat) (id : NodeId) (graph : Graph) : Prop extends
    InOrder watch work graph where
  done : graph.Done id
  unseen : ∀ other, id ∉ (graph.node other).visit.arrivals.sources
  /-- A node with several successors can pay for a connector. -/
  credit : watch.safe → 2 ≤ (graph.node id).outgoing.length →
    graph.unfinished.card + graph.branching.card < work ∧ graph.nodes.size + graph.branching.card < watch.nodes

/-! ### Steps -/

section SameFlow

variable (same : SameFlow graph after)
include same

/-- Whether a node is done is a part of the flow. -/
theorem SameFlow.done_iff : after.Done id ↔ graph.Done id := by rw [Done, Done, same.visit]

/-- The work that is left is told by the flow. -/
theorem SameFlow.unfinished : after.unfinished = graph.unfinished := by
  ext id
  rw [mem_unfinished, mem_unfinished, same.size, same.done_iff]

theorem SameFlow.branching : after.branching = graph.branching := by
  ext id
  rw [mem_branching, mem_branching, same.unfinished, same.outgoing]

/-- What was served is told by the flow. -/
theorem Served.sameFlow (served : graph.Served id) : after.Served id where
  done := same.done_iff.mpr served.done
  exact := served.exact.congr (by rw [same.visit]) (same.forwardIncoming id) (same.additionalCalls id)

theorem Budget.sameFlow (budget : graph.Budget work nodes) : after.Budget work nodes where
  edges id back hBack := by
    rw [same.incoming, same.outgoing]
    exact budget.edges id back (same.backedges id ▸ hBack)
  mirror id next hNext := by
    rw [same.incoming]
    exact budget.mirror id next (same.outgoing id ▸ hNext)
  work := by
    rw [same.unfinished, same.branching]
    exact budget.work
  nodes := by
    rw [same.size, same.branching]
    exact budget.nodes

/-- The order of folding is told by the flow. -/
theorem InOrder.sameFlow (inOrder : graph.InOrder watch work) : after.InOrder watch work where
  expects id hOpen := (inOrder.expects id fun done => hOpen (same.done_iff.mpr done)).congr (by rw [same.visit])
    (same.forwardIncoming id) (same.additionalCalls id)
  visitors id source hSource := same.done_iff.mpr (inOrder.visitors id source (same.visit id ▸ hSource))
  budget hSafe := (inOrder.budget hSafe).sameFlow same

theorem Opening.sameFlow (opening : graph.Opening watch work id) : after.Opening watch work id where
  toInOrder := opening.toInOrder.sameFlow same
  done := same.done_iff.mpr opening.done
  unseen other := by
    rw [same.visit]
    exact opening.unseen other
  credit := by
    rw [same.outgoing, same.unfinished, same.branching, same.size]
    exact opening.credit

end SameFlow

/-- A node that is done visits another one. -/
theorem InOrder.visit (inOrder : graph.InOrder watch work) (done : graph.Done source) (next : NodeId)
    (arrival : Arrival) : (graph.update next (Node.visited source arrival)).InOrder watch work := by
  have hField {α : Type} (read : Node → α) (hRead : ∀ node visit, read { node with visit } = read node) (id : NodeId) :
      read ((graph.update next (Node.visited source arrival)).node id) = read (graph.node id) :=
    field_update read _ (by rw [Node.visited_eq, hRead])
  have hDone (id : NodeId) : (graph.update next (Node.visited source arrival)).Done id ↔ graph.Done id := by
    rw [Done, Done, field_update (fun node => node.visit.isDone) _ (Node.isDone_visited _ _ _)]
  have hUnfinished : (graph.update next (Node.visited source arrival)).unfinished = graph.unfinished := by
    ext id
    rw [mem_unfinished, mem_unfinished, size_update, hDone]
  have hBranching : (graph.update next (Node.visited source arrival)).branching = graph.branching := by
    ext id
    rw [mem_branching, mem_branching, hUnfinished, hField Node.outgoing fun _ _ => rfl]
  refine ⟨fun id hOpen => ?_, fun id other hOther => ?_, fun hSafe => ?_⟩
  · have expects := inOrder.expects id fun done => hOpen ((hDone id).mpr done)
    rw [node_update]
    split
    · exact expects.visited source arrival
    · exact expects
  · rw [hDone]
    rw [node_update] at hOther
    split at hOther
    · exact (Node.mem_sources_visited hOther).elim (inOrder.visitors id other) fun hSource => hSource ▸ done
    · exact inOrder.visitors id other hOther
  · obtain ⟨hEdges, hMirror, hWork, hNodes⟩ := inOrder.budget hSafe
    refine ⟨fun id back hBack => ?_, fun id next hNext => ?_, ?_, ?_⟩
    · rw [hField Node.incoming fun _ _ => rfl, hField Node.outgoing fun _ _ => rfl]
      exact hEdges id back (hField Node.backedges (fun _ _ => rfl) id ▸ hBack)
    · rw [hField Node.incoming fun _ _ => rfl]
      exact hMirror id next (hField Node.outgoing (fun _ _ => rfl) id ▸ hNext)
    · rwa [hUnfinished, hBranching]
    · rwa [size_update, hBranching]

/-- Visits do not count any more. -/
theorem Served.visit (served : graph.Served id) (next : NodeId) (arrival : Arrival) :
    (graph.update next (Node.visited source arrival)).Served id := by
  obtain ⟨hDone, exact⟩ := served
  constructor
  · rwa [Done, field_update (fun node => node.visit.isDone) _ (Node.isDone_visited _ _ _)]
  · rw [node_update]
    split
    · refine exact.congr (exact.arrivals_visited source arrival) ?_ ?_ <;> rw [Node.visited_eq]
      rfl
    · exact exact

/-- All visits that a node requires have come: it can be folded. -/
structure Due (watch : Watch) (work : Nat) (id : NodeId) (graph : Graph) : Prop extends
    InOrder watch work graph where
  unfinished : ¬graph.Done id
  exact : id ≠ watch.entry → (graph.node id).VisitsExact

theorem Due.sameFlow (due : graph.Due watch work id) (same : SameFlow graph after) :
    after.Due watch work id where
  toInOrder := due.toInOrder.sameFlow same
  unfinished done := due.unfinished (same.done_iff.mp done)
  exact hEntry :=
    (due.exact hEntry).congr (by rw [same.visit]) (same.forwardIncoming id) (same.additionalCalls id)

/-- A node that is ready is due, as its visits are right ones and enough. -/
theorem InOrder.due (inOrder : graph.InOrder watch work)
    (hReady : Folding.isReady (graph.node id)) : graph.Due watch work id := by
  rw [Folding.isReady, Bool.and_eq_true, Bool.not_eq_true', decide_eq_true_eq] at hReady
  have hOpen : ¬graph.Done id := by simp [Done, hReady.1]
  exact ⟨inOrder, hOpen, fun _ => (inOrder.expects id hOpen).exact hReady.2⟩

/-- The node is not visited any more. -/
def finish (graph : Graph) (id : NodeId) : Graph :=
  graph.update id fun node => { node with visit := node.visit.finish }

/-- A node of the graph is done when it is finished. -/
theorem done_finish_self (hId : id < graph.nodes.size) : (graph.finish id).Done id := by
  rw [Done, finish, node_update_self hId]
  rfl

/-- Finishing a node finishes no other. -/
theorem done_finish_of_ne (hOther : id ≠ other) : (graph.finish id).Done other ↔ graph.Done other := by
  rw [Done, Done, finish, node_update_of_ne hOther]

/-- What is done then was done or is the node. -/
theorem eq_or_done_of_finish (hDone : (graph.finish id).Done other) : id = other ∨ graph.Done other :=
  or_iff_not_imp_left.mpr fun hOther => (done_finish_of_ne hOther).mp hDone

theorem arrivals_finish (id other : NodeId) :
    ((graph.finish id).node other).visit.arrivals = (graph.node other).visit.arrivals :=
  field_update (fun node => node.visit.arrivals) _ rfl

theorem Forward.finish (graph : Graph) (id : NodeId) : Forward graph (graph.finish id) :=
  .update graph id fun _ _ => rfl

/-- Finishing a node concerns its visits only. -/
theorem field_finish {α : Type} (read : Node → α) (hRead : ∀ node visit, read { node with visit } = read node)
    (id other : NodeId) : read ((graph.finish id).node other) = read (graph.node other) :=
  field_update read _ (hRead _ _)

/-- The node is taken off the work that is left. -/
theorem unfinished_finish (graph : Graph) (id : NodeId) : (graph.finish id).unfinished = graph.unfinished.erase id := by
  ext other
  rw [Finset.mem_erase, mem_unfinished, mem_unfinished, finish, size_update]
  by_cases hSame : id = other
  · subst hSame
    exact ⟨fun hOther => absurd (done_finish_self hOther.1) hOther.2, fun hOther => absurd rfl hOther.1⟩
  · rw [show (graph.update id _).Done other ↔ graph.Done other from done_finish_of_ne hSame]
    exact ⟨fun hOther => ⟨Ne.symm hSame, hOther⟩, And.right⟩

/-- The node is taken off those that may put a connector on an edge. -/
theorem branching_finish (graph : Graph) (id : NodeId) : (graph.finish id).branching = graph.branching.erase id := by
  ext other
  rw [Finset.mem_erase, mem_branching, mem_branching, unfinished_finish, Finset.mem_erase,
    field_finish Node.outgoing fun _ _ => rfl, and_assoc]

theorem Served.finish (served : graph.Served other) (id : NodeId) : (graph.finish id).Served other where
  done := (Forward.finish graph id).done other served.done
  exact := served.exact.congr (arrivals_finish id other) (field_finish Node.forwardIncoming (fun _ _ => rfl) id other)
    (field_finish Node.additionalCalls (fun _ _ => rfl) id other)

theorem InOrder.expects_finish (inOrder : graph.InOrder watch work) (id : NodeId) {other : NodeId}
    (hOpen : ¬(graph.finish id).Done other) : ((graph.finish id).node other).Expects :=
  (inOrder.expects other fun done => hOpen ((Forward.finish graph id).done other done)).congr (arrivals_finish id other)
    (field_finish Node.forwardIncoming (fun _ _ => rfl) id other)
    (field_finish Node.additionalCalls (fun _ _ => rfl) id other)

theorem InOrder.visitors_finish (inOrder : graph.InOrder watch work) (id other : NodeId) {source : NodeId}
    (hSource : source ∈ ((graph.finish id).node other).visit.arrivals.sources) : (graph.finish id).Done source :=
  (Forward.finish graph id).done source (inOrder.visitors other source (arrivals_finish id other ▸ hSource))

theorem Budget.edges_finish (budget : graph.Budget work nodes) (id other : NodeId) {back : NodeId}
    (hBack : back ∈ ((graph.finish id).node other).backedges) :
    back ∈ ((graph.finish id).node other).incoming ∧ other ∈ ((graph.finish id).node back).outgoing := by
  rw [field_finish Node.incoming fun _ _ => rfl, field_finish Node.outgoing fun _ _ => rfl]
  exact budget.edges other back (field_finish Node.backedges (fun _ _ => rfl) id other ▸ hBack)

theorem Budget.mirror_finish (budget : graph.Budget work nodes) (id other : NodeId) {next : NodeId}
    (hNext : next ∈ ((graph.finish id).node other).outgoing) : other ∈ ((graph.finish id).node next).incoming := by
  rw [field_finish Node.incoming fun _ _ => rfl]
  exact budget.mirror other next (field_finish Node.outgoing (fun _ _ => rfl) id other ▸ hNext)

/-- Any node may be taken out of the folding. -/
theorem InOrder.finish (inOrder : graph.InOrder watch work) (id : NodeId) :
    (graph.finish id).InOrder watch work where
  expects other hOpen := inOrder.expects_finish id hOpen
  visitors other source hSource := inOrder.visitors_finish id other hSource
  budget hSafe := by
    obtain ⟨-, -, hWork, hNodes⟩ := inOrder.budget hSafe
    have hFewer := Finset.card_le_card (Finset.erase_subset id graph.unfinished)
    have hFewer' := Finset.card_le_card (Finset.erase_subset id graph.branching)
    refine ⟨fun other back hBack => (inOrder.budget hSafe).edges_finish id other hBack,
      fun other next hNext => (inOrder.budget hSafe).mirror_finish id other hNext, ?_, ?_⟩
    · rw [unfinished_finish, branching_finish]
      omega
    · rw [branching_finish, Graph.finish, size_update]
      omega

/-- A node is entered, which takes one off the work that is left. -/
theorem Due.finish (due : graph.Due watch (work + 1) id) (hId : id < graph.nodes.size) :
    (graph.finish id).Opening watch work id := by
  have hOpen : id ∈ graph.unfinished := mem_unfinished.mpr ⟨hId, due.unfinished⟩
  have hUnfinished := Finset.card_erase_add_one hOpen
  refine ⟨⟨fun other hOther => due.toInOrder.expects_finish id hOther,
    fun other source hSource => due.toInOrder.visitors_finish id other hSource, fun hSafe => ?_⟩, done_finish_self hId,
    fun other => ?_, fun hSafe hBranches => ?_⟩
  · obtain ⟨-, -, hWork, hNodes⟩ := due.budget hSafe
    have hFewer := Finset.card_le_card (Finset.erase_subset id graph.branching)
    refine ⟨fun other back hBack => (due.budget hSafe).edges_finish id other hBack,
      fun other next hNext => (due.budget hSafe).mirror_finish id other hNext, ?_, ?_⟩
    · rw [unfinished_finish, branching_finish]
      omega
    · rw [branching_finish, Graph.finish, size_update]
      omega
  · -- Only what is done visited another node, and the node that is entered was not.
    rw [arrivals_finish]
    exact fun hSource => due.unfinished (due.visitors other id hSource)
  · -- The node counted twice, once for itself and once for its connector.
    obtain ⟨-, -, hWork, hNodes⟩ := due.budget hSafe
    rw [field_finish Node.outgoing fun _ _ => rfl] at hBranches
    have hBranching := Finset.card_erase_add_one (mem_branching.mpr ⟨hOpen, hBranches⟩)
    rw [unfinished_finish, branching_finish, Graph.finish, size_update]
    omega

/-- The node that was just entered puts a connector on an edge from it, or on a back-edge to it. -/
theorem Opening.reroute (opening : graph.Opening watch work id) (rerouted : Rerouted source target graph after)
    (hEnd : source = id ∨ target = id)
    (hEdge : watch.safe → target ∈ (graph.node source).outgoing ∧ 2 ≤ (graph.node id).outgoing.length) :
    after.InOrder watch work := by
  have hDone (other : NodeId) : after.Done other ↔ graph.Done other := by rw [Done, Done, rerouted.visit]
  refine ⟨fun other hOther => ?_, fun other back hBack => ?_, fun hSafe => ?_⟩
  · rw [hDone] at hOther
    obtain ⟨hNodup, hExpected, hGranted⟩ := opening.expects other hOther
    refine ⟨?_, fun back hBack => ?_, ?_⟩ <;> rw [rerouted.visit] at *
    · exact hNodup
    · obtain ⟨hIncoming, hForward⟩ := List.mem_filter.mp (hExpected back hBack)
      have hUnseen := opening.unseen other
      refine List.mem_filter.mpr ⟨rerouted.incoming_kept other back hIncoming ?_, ?_⟩
      · -- The edge that is rerouted leads to a node that is done, or did not count as a visit yet.
        rintro ⟨rfl, rfl⟩
        rcases hEnd with rfl | rfl
        · exact hUnseen hBack
        · exact hOther opening.done
      · by_contra hMarked
        rcases rerouted.backedges other back (by simpa using hMarked) with ⟨hOld, -⟩ | ⟨-, rfl, -⟩
        · simp [hOld] at hForward
        · exact Nat.lt_irrefl _ (opening.visitors _ _ hBack).lt
    · rwa [rerouted.additionalCalls]
  · rw [rerouted.visit] at hBack
    exact (hDone back).mpr (opening.visitors other back hBack)
  · obtain ⟨hEdges, hMirror, -, -⟩ := opening.budget hSafe
    obtain ⟨hWork, hNodes⟩ := opening.credit hSafe (hEdge hSafe).2
    have hUnfinished : after.unfinished ⊆ insert graph.nodes.size graph.unfinished := by
      intro other hOther
      rw [mem_unfinished, rerouted.size, hDone] at hOther
      rw [Finset.mem_insert, mem_unfinished]
      exact (Nat.lt_succ_iff_lt_or_eq.mp hOther.1).symm.imp_right fun hLt => ⟨hLt, hOther.2⟩
    -- The connector has one successor, and no other node has more than before.
    have hBranching : after.branching ⊆ graph.branching := by
      intro other hOther
      obtain ⟨hOpen, hSuccessors⟩ := mem_branching.mp hOther
      rcases Finset.mem_insert.mp (hUnfinished hOpen) with rfl | hOld
      · rw [rerouted.outgoing_new] at hSuccessors
        simp at hSuccessors
      · have hShorter := rerouted.outgoing_length (hEdge hSafe).1 other (mem_unfinished.mp hOld).1
        exact mem_branching.mpr ⟨hOld, by omega⟩
    have hCard := (Finset.card_le_card hUnfinished).trans (Finset.card_insert_le _ _)
    have hCard' := Finset.card_le_card hBranching
    have hTarget : target < graph.nodes.size := by
      by_contra hOutside
      have hEntered := hMirror source target (hEdge hSafe).1
      simp [node_of_size_le (Nat.not_lt.mp hOutside)] at hEntered
    refine ⟨fun other back hBack => ?_, fun other next hNext => ?_, by omega, by rw [rerouted.size]; omega⟩
    · rcases rerouted.backedges other back hBack with ⟨hOld, hOther⟩ | ⟨rfl, rfl, hOld⟩
      · obtain ⟨hIncoming, hOutgoing⟩ := hEdges other back hOld
        exact ⟨rerouted.incoming_kept other back hIncoming hOther,
          rerouted.outgoing_kept back other hOutgoing fun hSame => hOther hSame.symm⟩
      · exact ⟨rerouted.incoming_new hTarget, by simp [rerouted.outgoing_new]⟩
    · rcases rerouted.outgoing_cases other next hNext with ⟨hOld, hOther⟩ | ⟨rfl, rfl⟩ | ⟨rfl, rfl⟩
      · exact rerouted.incoming_kept next other (hMirror other next hOld) fun hSame => hOther hSame.symm
      · refine rerouted.incoming_source hTarget fun hNew => ?_
        have hEntered := hMirror other _ hNew
        simp [node_of_size_le (Nat.le_refl _)] at hEntered
      · exact rerouted.incoming_new hTarget

/-- The connector is on no edge that a node which was served counted as a visit. -/
theorem Opening.served_reroute (opening : graph.Opening watch work id) (rerouted : Rerouted source target graph after)
    (hSafe : watch.safe) (hEdge : target ∈ (graph.node source).outgoing)
    (hEnd : source = id ∨ source ∈ (graph.node target).backedges) (served : graph.Served other) :
    after.Served other := by
  obtain ⟨done, exact⟩ := served
  obtain ⟨hEdges, hMirror, -, -⟩ := opening.budget hSafe
  have hEntered := hMirror source target hEdge
  have hOther : other < graph.nodes.size := done.lt
  have hVisited (previous : NodeId) (hPrevious : previous ∈ (graph.node other).forwardIncoming) : graph.Done previous :=
    opening.visitors other previous (exact.sources.mem_iff.mpr hPrevious)
  have hForward : (after.node other).forwardIncoming = (graph.node other).forwardIncoming := by
    by_cases hTarget : other = target
    · subst hTarget
      have hBack : source ∈ (graph.node other).backedges := by
        rcases hEnd with rfl | hBack
        · -- An edge that closes no cycle would have been counted, by a node that was not entered yet.
          by_contra hMark
          exact opening.unseen other (exact.sources.mem_iff.mpr (List.mem_filter.mpr ⟨hEntered, by simpa using hMark⟩))
        · exact hBack
      refine rerouted.forward_target hBack hOther fun hNew => ?_
      by_cases hMark : graph.nodes.size ∈ (graph.node other).backedges
      · have hLeaves := (hEdges other _ hMark).2
        simp [node_of_size_le (Nat.le_refl _)] at hLeaves
      · exact Nat.lt_irrefl _ (hVisited _ (List.mem_filter.mpr ⟨hNew, by simpa using hMark⟩)).lt
    · exact rerouted.forward_kept other hOther hTarget
  exact ⟨by rwa [Done, rerouted.visit], exact.congr (by rw [rerouted.visit]) hForward (rerouted.additionalCalls other)⟩

end Graph

end Decompiler
