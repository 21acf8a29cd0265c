import Decompiler.Proofs.Dominance.Query
import Decompiler.Proofs.Graph.Progress

/-!
What the visits of nodes depend on: the edges with the marks of back-edges, the visits to expect beside those along
edges, and the visits that came. Of the steps of folding only a connector changes edges.
-/

namespace Decompiler

/-- The edges of a node, the visits that it expects, and those that came. -/
def Node.flow (node : Node) : VisitState × Nat × List NodeId × List NodeId × List NodeId :=
  (node.visit, node.additionalCalls, node.incoming, node.outgoing, node.backedges)

namespace Graph

variable {graph middle after : Graph} {id source target : NodeId}

/-- No visit came, no edge changed, and no node was made. -/
structure SameFlow (before after : Graph) : Prop where
  size : after.nodes.size = before.nodes.size
  flow : ∀ id, (after.node id).flow = (before.node id).flow

namespace SameFlow

theorem refl (graph : Graph) : SameFlow graph graph := ⟨rfl, fun _ => rfl⟩

theorem trans (first : SameFlow graph middle) (second : SameFlow middle after) : SameFlow graph after :=
  ⟨second.size.trans first.size, fun id => (second.flow id).trans (first.flow id)⟩

theorem visit (same : SameFlow graph after) (id : NodeId) : (after.node id).visit = (graph.node id).visit :=
  congrArg Prod.fst (same.flow id)

theorem additionalCalls (same : SameFlow graph after) (id : NodeId) :
    (after.node id).additionalCalls = (graph.node id).additionalCalls :=
  congrArg (fun flow => flow.2.1) (same.flow id)

theorem incoming (same : SameFlow graph after) (id : NodeId) :
    (after.node id).incoming = (graph.node id).incoming :=
  congrArg (fun flow => flow.2.2.1) (same.flow id)

theorem outgoing (same : SameFlow graph after) (id : NodeId) :
    (after.node id).outgoing = (graph.node id).outgoing :=
  congrArg (fun flow => flow.2.2.2.1) (same.flow id)

theorem backedges (same : SameFlow graph after) (id : NodeId) :
    (after.node id).backedges = (graph.node id).backedges :=
  congrArg (fun flow => flow.2.2.2.2) (same.flow id)

/-- Edges without a mark are told by edges and marks. -/
theorem forwardIncoming (same : SameFlow graph after) (id : NodeId) :
    (after.node id).forwardIncoming = (graph.node id).forwardIncoming := by
  rw [Node.forwardIncoming, Node.forwardIncoming, same.incoming, same.backedges]

theorem foldl {α : Type} (step : Graph → α → Graph) (items : List α)
    (hStep : ∀ graph, ∀ item ∈ items, SameFlow graph (step graph item)) (graph : Graph) :
    SameFlow graph (items.foldl step graph) := by
  induction items generalizing graph with
  | nil => exact refl graph
  | cons item rest ih =>
      exact (hStep graph item List.mem_cons_self).trans
        (ih (fun graph item hItem => hStep graph item (List.mem_cons_of_mem _ hItem)) _)

/-- Operands, statements and links are no part of the flow. -/
theorem update (graph : Graph) (id : NodeId) (change : Node → Node)
    (hKeep : ∀ node, (change node).flow = node.flow) : SameFlow graph (graph.update id change) :=
  ⟨size_update graph id change, fun _ => field_update Node.flow change (hKeep _)⟩

theorem mapStack (graph : Graph) (id : NodeId) (change : List Operand → List Operand) :
    SameFlow graph (graph.mapStack id change) := update graph id _ fun _ => rfl

theorem setDestination (graph : Graph) (id : NodeId) (destination : Destination) :
    SameFlow graph (graph.setDestination id destination) := update graph id _ fun _ => rfl

/-- Queries for dominators tell nothing about visits. -/
theorem of_sameFacts (same : SameFacts graph after) : SameFlow graph after :=
  ⟨same.size, same.field Node.flow fun _ => rfl⟩

end SameFlow

/-! ### Connectors -/

/-- A new node is inserted into the edge from the source to the target. All other edges stay, and no visit comes. -/
structure Rerouted (source target : NodeId) (before after : Graph) : Prop where
  size : after.nodes.size = before.nodes.size + 1
  visit : ∀ id, (after.node id).visit = (before.node id).visit
  additionalCalls : ∀ id, (after.node id).additionalCalls = (before.node id).additionalCalls
  outgoing_new : (after.node before.nodes.size).outgoing = [target]
  /-- The source does not get more successors if the edge was there. -/
  outgoing_length : target ∈ (before.node source).outgoing → ∀ id < before.nodes.size,
    (after.node id).outgoing.length ≤ (before.node id).outgoing.length
  outgoing_kept : ∀ id, ∀ next ∈ (before.node id).outgoing, ¬(id = source ∧ next = target) →
    next ∈ (after.node id).outgoing
  incoming_kept : ∀ id, ∀ previous ∈ (before.node id).incoming, ¬(id = target ∧ previous = source) →
    previous ∈ (after.node id).incoming
  outgoing_cases : ∀ id, ∀ next ∈ (after.node id).outgoing,
    (next ∈ (before.node id).outgoing ∧ ¬(id = source ∧ next = target)) ∨
      (id = source ∧ next = before.nodes.size) ∨ (id = before.nodes.size ∧ next = target)
  incoming_new : target < before.nodes.size → before.nodes.size ∈ (after.node target).incoming
  /-- The source leads to the new node. -/
  incoming_source : target < before.nodes.size → before.nodes.size ∉ (before.node source).outgoing →
    source ∈ (after.node before.nodes.size).incoming
  forward_kept : ∀ id < before.nodes.size, id ≠ target →
    (after.node id).forwardIncoming = (before.node id).forwardIncoming
  /-- A back-edge is none of the edges that close no cycle, and neither is the one from the new node. -/
  forward_target : source ∈ (before.node target).backedges → target < before.nodes.size →
    before.nodes.size ∉ (before.node target).incoming →
    (after.node target).forwardIncoming = (before.node target).forwardIncoming
  /-- If the edge closed a cycle, the edge from the new node closes it now. -/
  backedges : ∀ id, ∀ back ∈ (after.node id).backedges,
    (back ∈ (before.node id).backedges ∧ ¬(id = target ∧ back = source)) ∨
      (id = target ∧ back = before.nodes.size ∧ source ∈ (before.node target).backedges)

/-- A field that links do not concern, and that every new node leaves empty, is the same after a node was placed. -/
theorem field_place {α : Type} (read : Node → α) (hLinks : LinkFree read) (hRead : ∀ name, read { name } = read {})
    (after : NodeId) : read ((graph.insertAfter after).2.node id) = read (graph.node id) := by
  simp only [insertAfter]
  rw [field_link read hLinks, field_link read hLinks]
  exact field_createAnonymous read hRead

theorem size_insertAfter (graph : Graph) (id : NodeId) :
    (graph.insertAfter id).2.nodes.size = graph.nodes.size + 1 := by
  simp [insertAfter, createAnonymous]

/-- A new edge takes none away. -/
theorem mem_incoming_connect {previous : NodeId} (hPrevious : previous ∈ (graph.node id).incoming)
    (source target : NodeId) : previous ∈ ((graph.connect source target).node id).incoming := by
  unfold connect
  split
  · exact hPrevious
  · change previous ∈ (((graph.update source _).update target _).node id).incoming
    rw [node_update]
    split
    · refine List.mem_append_left _ ?_
      rwa [field_update Node.incoming _ rfl]
    · rwa [field_update Node.incoming _ rfl]

theorem incoming_connect_of_ne {other : NodeId} (hOther : target ≠ other) :
    ((graph.connect source target).node other).incoming = (graph.node other).incoming := by
  unfold connect
  split
  · rfl
  · change (((graph.update source _).update target _).node other).incoming = _
    rw [node_update_of_ne hOther, field_update Node.incoming _ rfl]

/-- The edge from the source to the target goes through a node that lies on no other edge. -/
def detour (graph : Graph) (source id target : NodeId) : Graph :=
  ((graph.disconnect source target).connect source id).connect id target

/-- The mark of the edge moves on to the new node. -/
def moveMark (graph : Graph) (wasBack : Bool) (id target : NodeId) : Graph :=
  if wasBack then graph.update target fun node => { node with backedges := node.backedges ++ [id] } else graph

@[simp] theorem size_moveMark (graph : Graph) (wasBack : Bool) (id target : NodeId) :
    (graph.moveMark wasBack id target).nodes.size = graph.nodes.size := by
  unfold moveMark
  split <;> simp

/-- The fields of a node apart from its marks. -/
theorem field_moveMark {α : Type} (read : Node → α) (hRead : ∀ node backedges, read { node with backedges } = read node)
    (graph : Graph) (wasBack : Bool) (id target other : NodeId) :
    read ((graph.moveMark wasBack id target).node other) = read (graph.node other) := by
  unfold moveMark
  split
  · exact field_update read _ (hRead _ _)
  · rfl

/-- The only mark that comes anew is that of the new node. -/
theorem mem_backedges_moveMark {wasBack : Bool} {other back : NodeId}
    (hBack : back ∈ ((graph.moveMark wasBack id target).node other).backedges) :
    back ∈ (graph.node other).backedges ∨ (other = target ∧ back = id ∧ wasBack) := by
  unfold moveMark at hBack
  split at hBack
  · rw [node_update] at hBack
    split at hBack
    · rename_i hWas hSame
      rcases List.mem_append.mp hBack with hOld | hNew
      · exact .inl hOld
      · exact .inr ⟨hSame.1.symm, List.mem_singleton.mp hNew, hWas⟩
    · exact .inl hBack
  · exact .inl hBack

/-- Only edges differ on the way through a new node. -/
theorem sameBlocks_detour (graph : Graph) (source id target : NodeId) :
    SameBlocks graph (graph.detour source id target) :=
  ((sameBlocks_disconnect graph source target).trans (sameBlocks_connect _ source id)).trans
    (sameBlocks_connect _ id target)

/-- The mark of the edge goes with it. -/
theorem backedges_detour (graph : Graph) (source id target other : NodeId) :
    ((graph.detour source id target).node other).backedges =
      if target = other then (graph.node other).backedges.filter (· != source) else (graph.node other).backedges := by
  rw [detour, backedges_connect, backedges_connect, backedges_disconnect]

/-- Every edge but the one that makes way stays at its target. -/
theorem mem_incoming_detour {previous other : NodeId} (hPrevious : previous ∈ (graph.node other).incoming)
    (hKept : ¬(other = target ∧ previous = source)) :
    previous ∈ ((graph.detour source id target).node other).incoming := by
  refine mem_incoming_connect (mem_incoming_connect ?_ _ _) _ _
  rw [incoming_disconnect]
  split
  · rename_i hSame
    exact List.mem_filter.mpr ⟨hPrevious, by simpa [hSame] using hKept⟩
  · exact hPrevious

/-- Other nodes than the two ends of an edge to or from the new node are entered as before. -/
theorem incoming_detour_of_ne {other : NodeId} (hNew : id ≠ other) (hFar : target ≠ other) :
    ((graph.detour source id target).node other).incoming = (graph.node other).incoming := by
  rw [detour, incoming_connect_of_ne hFar, incoming_connect_of_ne hNew, incoming_disconnect, if_neg hFar]

section Blank

variable (hSource : source < graph.nodes.size) (hId : id < graph.nodes.size) (hOther : id ≠ source)
  (hBlank : (graph.node id).outgoing = [])

include hSource hOther hBlank in
/-- The new node leads nowhere before it leads to the target. -/
theorem outgoing_before_detour :
    (((graph.disconnect source target).connect source id).node id).outgoing = [] := by
  rw [outgoing_connect (by simpa using hSource), if_neg fun hSame => hOther hSame.1.symm, outgoing_disconnect,
    if_neg hOther.symm, hBlank]

include hSource hId hOther hBlank in
/-- The new node leads to the target alone. -/
theorem outgoing_detour_new : ((graph.detour source id target).node id).outgoing = [target] := by
  rw [detour, outgoing_connect (by simpa using hId), outgoing_before_detour hSource hOther hBlank]
  simp

include hSource hId in
/-- Other nodes lead where they did. -/
theorem outgoing_detour_of_ne {other : NodeId} (hNew : other ≠ id) (hFar : other ≠ source) :
    ((graph.detour source id target).node other).outgoing = (graph.node other).outgoing := by
  rw [detour, outgoing_connect (by simpa using hId), if_neg fun hSame => hNew hSame.1.symm,
    outgoing_connect (by simpa using hSource), if_neg fun hSame => hFar hSame.1.symm, outgoing_disconnect,
    if_neg hFar.symm]

include hSource hId hOther in
/-- The source leads to the new node in place of the target. -/
theorem outgoing_detour_source :
    (graph.node source).outgoing.filter (· != target) <+: ((graph.detour source id target).node source).outgoing ∧
      ((graph.detour source id target).node source).outgoing.length ≤
        ((graph.node source).outgoing.filter (· != target)).length + 1 := by
  rw [detour, outgoing_connect (by simpa using hId), if_neg fun hSame => hOther hSame.1,
    outgoing_connect (by simpa using hSource), outgoing_disconnect, if_pos rfl]
  split
  · exact ⟨List.prefix_append _ _, by simp⟩
  · exact ⟨List.prefix_refl _, Nat.le_succ _⟩

include hSource hOther hBlank in
/-- The target is entered from the new node. -/
theorem mem_incoming_detour_new (hTarget : target < graph.nodes.size) :
    id ∈ ((graph.detour source id target).node target).incoming := by
  rw [detour, incoming_connect (by simpa using hTarget), outgoing_before_detour hSource hOther hBlank]
  simp

include hSource hOther hBlank in
/-- The target is entered from the new node in place of the source. -/
theorem incoming_detour_target (hTarget : target < graph.nodes.size) (hNew : id ≠ target) :
    ((graph.detour source id target).node target).incoming =
      (graph.node target).incoming.filter (· != source) ++ [id] := by
  rw [detour, incoming_connect (by simpa using hTarget), outgoing_before_detour hSource hOther hBlank,
    if_pos ⟨rfl, List.not_mem_nil⟩, incoming_connect_of_ne hNew, incoming_disconnect, if_pos rfl]

omit hSource hOther in
include hId in
/-- The new node is entered from the source. -/
theorem mem_incoming_detour_source (hFresh : id ∉ (graph.node source).outgoing) (hNew : id ≠ target) :
    source ∈ ((graph.detour source id target).node id).incoming := by
  rw [detour, incoming_connect_of_ne hNew.symm, incoming_connect (by simpa using hId), outgoing_disconnect,
    if_pos rfl, if_pos ⟨rfl, fun hMember => hFresh (List.mem_filter.mp hMember).1⟩]
  exact List.mem_append_right _ (List.mem_singleton_self _)

include hSource hId hOther hBlank in
/-- Every edge afterwards was there before, or is one of the two of the new node. -/
theorem outgoing_detour_cases {other next : NodeId}
    (hNext : next ∈ ((graph.detour source id target).node other).outgoing) :
    (next ∈ (graph.node other).outgoing ∧ ¬(other = source ∧ next = target)) ∨
      (other = source ∧ next = id) ∨ (other = id ∧ next = target) := by
  by_cases hNew : other = id
  · subst hNew
    rw [outgoing_detour_new hSource hId hOther hBlank] at hNext
    exact .inr (.inr ⟨rfl, List.mem_singleton.mp hNext⟩)
  by_cases hFar : other = source
  · subst hFar
    rw [detour, outgoing_connect (by simpa using hId), if_neg fun hSame => hNew hSame.1.symm,
      outgoing_connect (by simpa using hSource), outgoing_disconnect, if_pos rfl] at hNext
    have hOld (hOld : next ∈ (graph.node other).outgoing.filter (· != target)) :
        next ∈ (graph.node other).outgoing ∧ ¬(other = other ∧ next = target) := by
      obtain ⟨hOld, hKept⟩ := List.mem_filter.mp hOld
      exact ⟨hOld, fun hSame => by simp [hSame.2] at hKept⟩
    split at hNext
    · exact (List.mem_append.mp hNext).imp hOld fun hLast => .inl ⟨rfl, List.mem_singleton.mp hLast⟩
    · exact .inl (hOld hNext)
  · rw [outgoing_detour_of_ne hSource hId hNew hFar] at hNext
    exact .inl ⟨hNext, fun hSame => hFar hSame.1⟩

end Blank

theorem backedges_moveMark_of_ne {wasBack : Bool} {other : NodeId} (hOther : target ≠ other) :
    ((graph.moveMark wasBack id target).node other).backedges = (graph.node other).backedges := by
  unfold moveMark
  split
  · rw [node_update_of_ne hOther]
  · rfl

/-- The mark comes to the end of those of the target. -/
theorem backedges_moveMark (hTarget : target < graph.nodes.size) :
    ((graph.moveMark true id target).node target).backedges = (graph.node target).backedges ++ [id] := by
  rw [moveMark, if_pos rfl, node_update_self hTarget]

/-- If a marked edge makes way for another marked one, the edges without a mark are the same. -/
theorem forward_replace {incoming backedges : List NodeId} (hBack : source ∈ backedges) (hFresh : id ∉ incoming) :
    (incoming.filter (· != source) ++ [id]).filter (fun previous =>
        !(backedges.filter (· != source) ++ [id]).contains previous) =
      incoming.filter fun previous => !backedges.contains previous := by
  rw [List.filter_append, List.filter_filter]
  have hLast : [id].filter (fun previous => !(backedges.filter (· != source) ++ [id]).contains previous) = [] := by
    simp
  rw [hLast, List.append_nil]
  refine List.filter_congr fun previous hPrevious => ?_
  have hNew : previous ≠ id := fun hSame => hFresh (hSame ▸ hPrevious)
  by_cases hSame : previous = source
  · simp [hSame, hBack]
  · simp [hSame, hNew]

theorem length_filter_ne_lt {items : List NodeId} {item : NodeId} (hItem : item ∈ items) :
    (items.filter (· != item)).length < items.length :=
  List.length_filter_lt_length_iff_exists.mpr ⟨item, hItem, by simp⟩

/-- The way of a connector into a graph where its node was inserted, blank and without edges. -/
theorem rerouted_detour (hSource : source < graph.nodes.size) {inserted : Graph}
    (hSize : inserted.nodes.size = graph.nodes.size + 1)
    (hFlow : ∀ id, (inserted.node id).flow = (graph.node id).flow) :
    Rerouted source target graph ((inserted.detour source graph.nodes.size target).moveMark
      ((inserted.node target).backedges.contains source) graph.nodes.size target) := by
  simp only [Node.flow, Prod.mk.injEq] at hFlow
  have same := sameBlocks_detour inserted source graph.nodes.size target
  have hSource' : source < inserted.nodes.size := hSize ▸ Nat.lt_succ_of_lt hSource
  have hId : graph.nodes.size < inserted.nodes.size := hSize ▸ Nat.lt_succ_self _
  have hOther : graph.nodes.size ≠ source := Nat.ne_of_gt hSource
  have hBlank : (inserted.node graph.nodes.size).outgoing = [] := by
    rw [(hFlow _).2.2.2.1, node_of_size_le (Nat.le_refl _)]
  have hFresh {target : NodeId} (hTarget : target < graph.nodes.size) : graph.nodes.size ≠ target :=
    Nat.ne_of_gt hTarget
  refine ⟨?_, fun id => ?_, fun id => ?_, ?_, fun hEdge id hInside => ?_, fun id next hNext hKept => ?_,
    fun id previous hPrevious hKept => ?_, fun id next hNext => ?_, fun hTarget => ?_, fun hTarget hNew => ?_,
    fun id hInside hFar => ?_, fun hBack hTarget hNew => ?_, fun id back hBack => ?_⟩
  · rw [size_moveMark, same.size, hSize]
  · rw [field_moveMark Node.visit fun _ _ => rfl, same.field Node.visit fun _ => rfl, (hFlow id).1]
  · rw [field_moveMark Node.additionalCalls fun _ _ => rfl, same.field Node.additionalCalls fun _ => rfl,
      (hFlow id).2.1]
  · rw [field_moveMark Node.outgoing fun _ _ => rfl, outgoing_detour_new hSource' hId hOther hBlank]
  · rw [field_moveMark Node.outgoing fun _ _ => rfl]
    by_cases hFar : id = source
    · subst hFar
      obtain ⟨-, hLength⟩ := outgoing_detour_source hSource' hId hOther
      rw [(hFlow id).2.2.2.1] at hLength
      exact hLength.trans (length_filter_ne_lt hEdge)
    · rw [outgoing_detour_of_ne hSource' hId (Nat.ne_of_lt hInside) hFar, (hFlow id).2.2.2.1]
  · have hInside : id < graph.nodes.size := by
      by_contra hOutside
      simp [node_of_size_le (Nat.not_lt.mp hOutside)] at hNext
    rw [field_moveMark Node.outgoing fun _ _ => rfl]
    by_cases hFar : id = source
    · subst hFar
      refine (outgoing_detour_source hSource' hId hOther).1.subset (List.mem_filter.mpr ⟨?_, ?_⟩)
      · rwa [(hFlow id).2.2.2.1]
      · simpa using hKept
    · rwa [outgoing_detour_of_ne hSource' hId (Nat.ne_of_lt hInside) hFar, (hFlow id).2.2.2.1]
  · rw [field_moveMark Node.incoming fun _ _ => rfl]
    exact mem_incoming_detour ((hFlow id).2.2.1 ▸ hPrevious) hKept
  · have hOutgoing : next ∈ ((inserted.detour source graph.nodes.size target).node id).outgoing :=
      field_moveMark Node.outgoing (fun _ _ => rfl) _ _ _ _ id ▸ hNext
    rw [← (hFlow id).2.2.2.1]
    exact outgoing_detour_cases hSource' hId hOther hBlank hOutgoing
  · rw [field_moveMark Node.incoming fun _ _ => rfl]
    exact mem_incoming_detour_new hSource' hOther hBlank (hSize ▸ Nat.lt_succ_of_lt hTarget)
  · rw [field_moveMark Node.incoming fun _ _ => rfl]
    exact mem_incoming_detour_source hId ((hFlow source).2.2.2.1 ▸ hNew) (hFresh hTarget)
  · rw [Node.forwardIncoming, Node.forwardIncoming, field_moveMark Node.incoming fun _ _ => rfl,
      backedges_moveMark_of_ne hFar.symm, incoming_detour_of_ne (hFresh hInside) hFar.symm, backedges_detour,
      if_neg hFar.symm, (hFlow id).2.2.1, (hFlow id).2.2.2.2]
  · have hMarked : (inserted.node target).backedges.contains source = true := by
      rw [(hFlow target).2.2.2.2]
      exact List.contains_iff_mem.mpr hBack
    have hTarget' : target < inserted.nodes.size := hSize ▸ Nat.lt_succ_of_lt hTarget
    rw [Node.forwardIncoming, field_moveMark Node.incoming fun _ _ => rfl, hMarked,
      backedges_moveMark (Nat.lt_of_lt_of_eq hTarget' same.size.symm),
      incoming_detour_target hSource' hOther hBlank hTarget' (hFresh hTarget), backedges_detour, if_pos rfl,
      (hFlow target).2.2.1, (hFlow target).2.2.2.2]
    exact forward_replace hBack hNew
  · rcases mem_backedges_moveMark hBack with hOld | ⟨hTarget, hNew, hWas⟩
    · rw [backedges_detour, (hFlow id).2.2.2.2] at hOld
      split at hOld
      · obtain ⟨hOld, hKept⟩ := List.mem_filter.mp hOld
        exact .inl ⟨hOld, fun hSame => by simp [hSame.2] at hKept⟩
      · rename_i hKept
        exact .inl ⟨hOld, fun hSame => hKept hSame.1.symm⟩
    · rw [(hFlow target).2.2.2.2] at hWas
      exact .inr ⟨hTarget, hNew, by simpa using hWas⟩

/-- What leaves the flow alone may follow. -/
theorem Rerouted.andThen (first : Rerouted source target graph middle) (second : SameFlow middle after) :
    Rerouted source target graph after where
  size := second.size.trans first.size
  visit id := (second.visit id).trans (first.visit id)
  additionalCalls id := (second.additionalCalls id).trans (first.additionalCalls id)
  outgoing_new := (second.outgoing _).trans first.outgoing_new
  outgoing_length hEdge id hId := second.outgoing id ▸ first.outgoing_length hEdge id hId
  outgoing_kept id next hNext hKept := second.outgoing id ▸ first.outgoing_kept id next hNext hKept
  incoming_kept id previous hPrevious hKept := second.incoming id ▸ first.incoming_kept id previous hPrevious hKept
  outgoing_cases id next hNext := first.outgoing_cases id next (second.outgoing id ▸ hNext)
  incoming_new hTarget := second.incoming target ▸ first.incoming_new hTarget
  incoming_source hTarget hNew := second.incoming _ ▸ first.incoming_source hTarget hNew
  forward_kept id hInside hFar := (second.forwardIncoming id).trans (first.forward_kept id hInside hFar)
  forward_target hBack hTarget hNew := (second.forwardIncoming target).trans (first.forward_target hBack hTarget hNew)
  backedges id back hBack := first.backedges id back (second.backedges id ▸ hBack)

/-- A connector is a new node in place of one edge, which takes over the mark of the edge. -/
theorem rerouted_createConnector (hSource : source < graph.nodes.size) (target : NodeId) :
    Rerouted source target graph (graph.createConnector source target).2 := by
  have hSize := size_insertAfter graph source
  have hFlow (id : NodeId) : ((graph.insertAfter source).2.node id).flow = (graph.node id).flow :=
    field_place Node.flow (fun _ _ _ => rfl) (fun _ => rfl) source
  simp only [createConnector]
  rw [show (graph.insertAfter source).1 = graph.nodes.size from rfl]
  generalize (graph.insertAfter source).2 = inserted at *
  have same := SameFlow.update inserted graph.nodes.size (fun node =>
    { node with name := (inserted.node source).name ++ "*" ++ (inserted.node target).name
                disposable := false }) fun _ => rfl
  have routed : Rerouted source target graph _ :=
    rerouted_detour hSource (same.size.trans hSize) fun id => (same.flow id).trans (hFlow id)
  rw [same.backedges] at routed
  exact (routed.andThen (.setDestination _ graph.nodes.size (.node target))).andThen (.update _ source _ fun _ => rfl)

end Graph

end Decompiler
