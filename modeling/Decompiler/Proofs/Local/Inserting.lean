import Decompiler.Local.Placement
import Decompiler.Proofs.Graph.Placement

/-!
What it takes to put a declaration in front of a node. A new node comes into the order, the forward predecessors lead
to it instead, and it leads to the node.
-/

namespace Decompiler.Placement

open Graph

variable {graph middle after : Graph} {before created : NodeId}

/-- The stack of a node after some nodes were redirected: those name the new node in the place of the old one. -/
def redirectedStack (sources : List NodeId) (before created : NodeId) (graph : Graph) (id : NodeId) : List Operand :=
  if id ∈ sources then (graph.node id).stack.map (Operand.retarget before (some created)) else (graph.node id).stack

/-- Where a node passes control after some nodes were redirected. -/
def redirectedDestination (sources : List NodeId) (before created : NodeId) (graph : Graph) (id : NodeId) :
    Option Destination :=
  if id ∈ sources ∧ (graph.node id).destination = some (.node before) then some (.node created)
  else (graph.node id).destination

/-- What declarations leave alone of a node: all but its stack, its edges, its destination, its neighbours and what is
remembered of its dominator. -/
def untouched (node : Node) : Node :=
  { node with
    stack := [], incoming := [], outgoing := [], backedges := [], destination := none, previous := none, next := none
    dominator := .unknown }

/-- Some nodes lead to the new node where they led to the old one before. -/
structure Redirected (sources : List NodeId) (before created : NodeId) (graph after : Graph) : Prop where
  order : after.order = graph.order
  size : after.nodes.size = graph.nodes.size
  mirrored : Mirrored after
  stack : ∀ id, (after.node id).stack = redirectedStack sources before created graph id
  edge : ∀ source target, after.Edge source target ↔
    (graph.Edge source target ∧ ¬(source ∈ sources ∧ target = before)) ∨ (source ∈ sources ∧ target = created)
  destination : ∀ id, (after.node id).destination = redirectedDestination sources before created graph id
  untouched : ∀ id, untouched (after.node id) = untouched (graph.node id)
  dominator : ∀ id, (after.node id).dominator = (graph.node id).dominator

theorem redirected_redirectTo (mirrored : Mirrored graph) {source : NodeId} (hSource : source < graph.nodes.size)
    (hCreated : created < graph.nodes.size) :
    Redirected [source] before created graph (redirectTo before created graph source) := by
  have same : SameBlocks graph ((graph.disconnect source before).connect source created) :=
    (sameBlocks_disconnect graph source before).trans (sameBlocks_connect _ source created)
  have hSize : (graph.disconnect source before).nodes.size = graph.nodes.size := size_disconnect _ _ _
  have hEdge (a b : NodeId) : ((graph.disconnect source before).connect source created).Edge a b ↔ _ :=
    edge_connect (hSize ▸ hSource)
  have hMirrored : Mirrored ((graph.disconnect source before).connect source created) :=
    (mirrored.disconnect source before).connect (hSize ▸ hSource) (hSize ▸ hCreated)
  unfold redirectTo
  generalize (graph.disconnect source before).connect source created = connected at same hEdge hMirrored ⊢
  have hStack := same.field Node.stack fun _ => rfl
  refine ⟨same.order, (size_update _ _ _).trans same.size, hMirrored.congr fun id => ⟨?_, ?_, ?_⟩, fun id => ?_,
    fun a b => ?_, fun id => ?_, fun id => ?_, fun id => ?_⟩
  · exact field_update Node.outgoing _ rfl
  · exact field_update Node.incoming _ rfl
  · exact field_update Node.backedges _ rfl
  · simp only [redirectedStack, List.mem_singleton]
    by_cases hSame : id = source
    · subst hSame
      rw [node_update_self (same.size ▸ hSource), if_pos rfl, hStack]
    · rw [node_update_of_ne (Ne.symm hSame), if_neg hSame, hStack]
  · rw [Edge, field_update Node.outgoing _ rfl, List.mem_singleton]
    exact (hEdge a b).trans (or_congr_left edge_disconnect)
  · have hDestination := same.field Node.destination fun _ => rfl
    simp only [redirectedDestination, List.mem_singleton]
    by_cases hSame : id = source
    · subst hSame
      simp [node_update_self (same.size ▸ hSource), hDestination]
    · simp [node_update_of_ne (Ne.symm hSame), hSame, hDestination]
  · exact (field_update Placement.untouched _ rfl).trans (same.field Placement.untouched (fun _ => rfl) id)
  · exact (field_update Node.dominator _ rfl).trans (same.field Node.dominator (fun _ => rfl) id)

namespace Redirected

variable {sources : List NodeId}

theorem refl (mirrored : Mirrored graph) : Redirected [] before created graph graph :=
  ⟨rfl, rfl, mirrored, fun _ => rfl, by simp, fun id => by simp [redirectedDestination], fun _ => rfl, fun _ => rfl⟩

/-- One more node is redirected first. -/
theorem cons {source : NodeId} (first : Redirected [source] before created graph middle)
    (rest : Redirected sources before created middle after) (hFresh : source ∉ sources) (hOther : created ≠ before) :
    Redirected (source :: sources) before created graph after where
  order := rest.order.trans first.order
  size := rest.size.trans first.size
  mirrored := rest.mirrored
  stack id := by
    rw [rest.stack, redirectedStack, first.stack, redirectedStack, redirectedStack]
    by_cases hSame : id = source
    · subst hSame
      simp [hFresh]
    · simp [hSame]
  edge a b := by
    rw [rest.edge, first.edge]
    simp only [List.mem_cons, List.not_mem_nil, or_false]
    by_cases hNew : b = created
    · subst hNew
      simp [hOther]
      tauto
    · simp [hNew]
      tauto
  destination id := by
    rw [rest.destination, redirectedDestination, first.destination, redirectedDestination, redirectedDestination]
    by_cases hSame : id = source
    · subst hSame
      simp [hFresh]
    · simp [hSame]
  untouched id := (rest.untouched id).trans (first.untouched id)
  dominator id := (rest.dominator id).trans (first.dominator id)

theorem foldl (mirrored : Mirrored graph) (hNodup : sources.Nodup)
    (hSources : ∀ source ∈ sources, source < graph.nodes.size) (hCreated : created < graph.nodes.size)
    (hOther : created ≠ before) :
    Redirected sources before created graph (sources.foldl (redirectTo before created) graph) := by
  induction sources generalizing graph with
  | nil => exact .refl mirrored
  | cons source sources ih =>
      obtain ⟨hFresh, hRest⟩ := List.nodup_cons.mp hNodup
      obtain ⟨hSource, hOthers⟩ := List.forall_mem_cons.mp hSources
      have first : Redirected [source] before created graph (redirectTo before created graph source) :=
        redirected_redirectTo mirrored hSource hCreated
      rw [List.foldl_cons]
      generalize redirectTo before created graph source = redirected at first ⊢
      exact first.cons (ih first.mirrored hRest (first.size ▸ hOthers) (first.size ▸ hCreated)) hFresh hOther

end Redirected

/-- There is one more node, without operands and edges, somewhere in the order. -/
structure Widened (graph after : Graph) : Prop where
  order : ∃ front back, graph.order = front ++ back ∧ after.order = front ++ graph.nodes.size :: back
  size : after.nodes.size = graph.nodes.size + 1
  stack : ∀ id, (after.node id).stack = (graph.node id).stack
  outgoing : ∀ id, (after.node id).outgoing = (graph.node id).outgoing
  incoming : ∀ id, (after.node id).incoming = (graph.node id).incoming
  backedges : ∀ id, (after.node id).backedges = (graph.node id).backedges
  destination : ∀ id, (after.node id).destination = (graph.node id).destination
  untouched : ∀ id ≠ graph.nodes.size, untouched (after.node id) = untouched (graph.node id)
  sources : ∀ id, (after.node id).handlerSources = (graph.node id).handlerSources
  dominator : ∀ id, (after.node id).dominator = (graph.node id).dominator

theorem widened_insertBefore (graph : Graph) (before : NodeId) : Widened graph (graph.insertBefore before).2 where
  order := order_insertBefore graph before
  size := size_insertBefore graph before
  stack _ := field_insertBefore Node.stack (fun _ _ _ => rfl) fun _ => rfl
  outgoing _ := field_insertBefore Node.outgoing (fun _ _ _ => rfl) fun _ => rfl
  incoming _ := field_insertBefore Node.incoming (fun _ _ _ => rfl) fun _ => rfl
  backedges _ := field_insertBefore Node.backedges (fun _ _ _ => rfl) fun _ => rfl
  destination _ := field_insertBefore Node.destination (fun _ _ _ => rfl) fun _ => rfl
  untouched _ := field_insertBefore_of_ne Placement.untouched fun _ _ _ => rfl
  sources _ := field_insertBefore Node.handlerSources (fun _ _ _ => rfl) fun _ => rfl
  dominator _ := field_insertBefore Node.dominator (fun _ _ _ => rfl) fun _ => rfl

/-- The supply of operands does not matter. -/
theorem Widened.supply (widened : Widened graph middle) (supply : Supply) : Widened graph { middle with supply } :=
  ⟨widened.order, widened.size, widened.stack, widened.outgoing, widened.incoming, widened.backedges,
    widened.destination, widened.untouched, widened.sources, widened.dominator⟩

/-- The declaration stands in a new node in front of a node. -/
structure Inserted (before : NodeId) (declaration : Operand) (graph after : Graph) : Prop where
  order : ∃ front back, graph.order = front ++ back ∧ after.order = front ++ graph.nodes.size :: back
  size : after.nodes.size = graph.nodes.size + 1
  mirrored : Mirrored after
  created : (after.node graph.nodes.size).stack = [declaration]
  stack : ∀ id ≠ graph.nodes.size,
    (after.node id).stack = redirectedStack (graph.forwardIncoming before) before graph.nodes.size graph id
  edge : ∀ source target, after.Edge source target ↔
    ((graph.Edge source target ∧ ¬(source ∈ graph.forwardIncoming before ∧ target = before)) ∨
      (source ∈ graph.forwardIncoming before ∧ target = graph.nodes.size)) ∨
      (source = graph.nodes.size ∧ target = before)
  destination : ∀ id ≠ graph.nodes.size,
    (after.node id).destination = redirectedDestination (graph.forwardIncoming before) before graph.nodes.size graph id
  untouched : ∀ id ≠ graph.nodes.size, untouched (after.node id) = untouched (graph.node id)
  sources : ∀ id, (after.node id).handlerSources = (graph.node id).handlerSources
  dominator : ∀ id, (after.node id).dominator = (graph.node id).dominator

/-- The new node is connected and gets the declaration. -/
theorem Widened.inserted (widened : Widened graph middle) (mirrored : Mirrored graph)
    (hBefore : before < graph.nodes.size) (declaration : Operand) :
    Inserted before declaration graph
      ((((middle.forwardIncoming before).foldl (redirectTo before graph.nodes.size) middle).connect graph.nodes.size
        before).update graph.nodes.size fun node =>
          { node with
            destination := some (.node before), disposable := false
            stack := node.stack ++ [declaration] }) := by
  have hForward : middle.forwardIncoming before = graph.forwardIncoming before := by
    simp only [forwardIncoming, Node.forwardIncoming, widened.incoming, widened.backedges]
  have hCreated : graph.nodes.size < middle.nodes.size := widened.size ▸ Nat.lt_succ_self _
  have hMirrored : Mirrored middle := mirrored.congr fun id =>
    ⟨widened.outgoing id, widened.incoming id, widened.backedges id⟩
  have hSources : ∀ source ∈ graph.forwardIncoming before, source < graph.nodes.size := fun source hSource =>
    (mirrored.edge_lt (mirrored.mem_incoming.mp (List.mem_filter.mp hSource).1)).1
  rw [hForward]
  have redirected : Redirected (graph.forwardIncoming before) before graph.nodes.size middle
      ((graph.forwardIncoming before).foldl (redirectTo before graph.nodes.size) middle) :=
    .foldl hMirrored ((mirrored.incoming_nodup before).filter _)
      (fun source hSource => Nat.lt_trans (hSources source hSource) hCreated) hCreated (Nat.ne_of_gt hBefore)
  generalize (graph.forwardIncoming before).foldl (redirectTo before graph.nodes.size) middle = routed at redirected ⊢
  have hRouted : graph.nodes.size < routed.nodes.size := redirected.size ▸ hCreated
  have same := sameBlocks_connect routed graph.nodes.size before
  have hEdge (source target : NodeId) : (routed.connect graph.nodes.size before).Edge source target ↔ _ :=
    edge_connect hRouted
  have hConnected : Mirrored (routed.connect graph.nodes.size before) :=
    redirected.mirrored.connect hRouted (Nat.lt_trans hBefore hRouted)
  generalize routed.connect graph.nodes.size before = connected at same hEdge hConnected ⊢
  have hStack (id : NodeId) : (connected.node id).stack =
      redirectedStack (graph.forwardIncoming before) before graph.nodes.size graph id := by
    rw [same.field Node.stack fun _ => rfl, redirected.stack, redirectedStack, redirectedStack, widened.stack]
  exact
  { order := by
      rw [order_update, same.order, redirected.order]
      exact widened.order
    size := by rw [size_update, same.size, redirected.size, widened.size]
    mirrored := hConnected.congr fun _ =>
      ⟨field_update Node.outgoing _ rfl, field_update Node.incoming _ rfl, field_update Node.backedges _ rfl⟩
    created := by
      have hNone : graph.nodes.size ∉ graph.forwardIncoming before := fun hSource =>
        Nat.lt_irrefl _ (hSources _ hSource)
      rw [node_update_self (same.size ▸ hRouted), hStack, redirectedStack, if_neg hNone,
        node_of_size_le (Nat.le_refl _)]
      rfl
    stack := fun id hOther => by rw [node_update_of_ne (Ne.symm hOther), hStack]
    edge := fun source target => by
      rw [Edge, field_update Node.outgoing _ rfl]
      refine (hEdge source target).trans (or_congr_left ((redirected.edge source target).trans ?_))
      rw [Edge, Edge, widened.outgoing]
    destination := fun id hOther => by
      rw [node_update_of_ne (Ne.symm hOther), same.field Node.destination fun _ => rfl, redirected.destination,
        redirectedDestination, redirectedDestination, widened.destination]
    untouched := fun id hOther => by
      rw [node_update_of_ne (Ne.symm hOther), same.field Placement.untouched fun _ => rfl, redirected.untouched,
        widened.untouched id hOther]
    sources := fun id => by
      rw [field_update Node.handlerSources _ rfl, same.field Node.handlerSources fun _ => rfl, ← widened.sources]
      have hSources := congrArg Node.handlerSources (redirected.untouched id)
      exact hSources
    dominator := fun id => by
      rw [field_update Node.dominator _ rfl, same.field Node.dominator fun _ => rfl, redirected.dominator,
        widened.dominator] }

theorem inserted_insertDeclaration (mirrored : Mirrored graph) (hBefore : before < graph.nodes.size)
    (id : VariableId) (type : TypeRef) : ∃ declaration : Operand, declaration.kind = .declaration id ∧
      Inserted before declaration graph ((insertDeclaration before id type).run graph).2 :=
  ⟨_, rfl, ((widened_insertBefore graph before).supply _).inserted mirrored hBefore _⟩

end Decompiler.Placement
