import Decompiler.Proofs.Graph.WellFormed

/-!
Any sequence of operations on an empty graph. The operations that are permitted in a graph are those whose
nodes exist and are live or placed as the operation expects. The representation survives all of them. An edge
to a disposed node can come from one place only: a split lets a new node lead where the split one led, and
nothing keeps a destination from naming a node that is gone.
-/

namespace Decompiler.Graph

inductive Operation where
  | label (name : Label)
  | anonymous
  | append (id : NodeId)
  | insertAfter (id : NodeId)
  | insertBefore (id : NodeId)
  | connector (source target : NodeId)
  | dispose (id : NodeId) (clearStack recursive : Bool)
  | merge (id : NodeId)
  | split (id : NodeId)
  | splitMixed (id : NodeId)
  | connect (source target : NodeId)
  | disconnect (source target : NodeId)
  | addHandlerEdge (start handler : NodeId)
  | setDestination (id : NodeId) (destination : Destination)
  | push (id : NodeId) (operand : Operand)
  | computeBackedges

/-- The node exists and is not disposed. -/
def IsLive (graph : Graph) (id : NodeId) : Prop :=
  id < graph.nodes.size ∧ (graph.node id).disposed = false

instance (graph : Graph) (id : NodeId) : Decidable (graph.IsLive id) := inferInstanceAs (Decidable (_ ∧ _))

namespace Operation

def apply (graph : Graph) : Operation → Graph
  | .label name => (graph.nodeOfLabel name).2
  | .anonymous => graph.createAnonymous.2
  | .append id => graph.append id
  | .insertAfter id => (graph.insertAfter id).2
  | .insertBefore id => (graph.insertBefore id).2
  | .connector source target => (graph.createConnector source target).2
  | .dispose id clearStack recursive => (graph.dispose id clearStack recursive).2
  | .merge id => ((Graph.merge id).run graph).2
  | .split id => ((graph.split? id).map Prod.snd).getD graph
  | .splitMixed id => (graph.splitMixed id).2
  | .connect source target => graph.connect source target
  | .disconnect source target => graph.disconnect source target
  | .addHandlerEdge start handler => graph.addHandlerEdge start handler
  | .setDestination id destination => graph.setDestination id destination
  | .push id operand => graph.push id operand
  | .computeBackedges => graph.computeBackedges

/-- What an operation asks of its nodes. A node that is live and has no place was never placed. -/
def Permitted (graph : Graph) : Operation → Prop
  | .label _ | .anonymous | .computeBackedges => True
  | .append id => graph.IsLive id ∧ id ∉ graph.order
  | .insertAfter id | .insertBefore id | .dispose id _ _ | .merge id | .split id | .splitMixed id =>
    id ∈ graph.order
  | .connector source target => source ∈ graph.order ∧ graph.IsLive target
  | .connect source target | .disconnect source target | .addHandlerEdge source target =>
    graph.IsLive source ∧ graph.IsLive target
  | .setDestination id destination =>
    id < graph.nodes.size ∧ ∀ target ∈ destination.node?, target < graph.nodes.size
  | .push id _ => id < graph.nodes.size

/-- A node is separated although it leads to a node that is disposed of. -/
def Strays (graph : Graph) : Operation → Prop
  | .split id | .splitMixed id => (graph.split? id).isSome ∧ ¬graph.LeadsToLive id
  | _ => False

instance (graph : Graph) : (operation : Operation) → Decidable (operation.Strays graph)
  | .split _ | .splitMixed _ => inferInstanceAs (Decidable (_ ∧ _))
  | .label _ | .anonymous | .append _ | .insertAfter _ | .insertBefore _ | .connector _ _ | .dispose _ _ _
  | .merge _ | .connect _ _ | .disconnect _ _ | .addHandlerEdge _ _ | .setDestination _ _ | .push _ _
  | .computeBackedges => inferInstanceAs (Decidable False)

instance (graph : Graph) : (operation : Operation) → Decidable (operation.Permitted graph)
  | .label _ | .anonymous | .computeBackedges => inferInstanceAs (Decidable True)
  | .append _ | .connector _ _ | .connect _ _ | .disconnect _ _ | .addHandlerEdge _ _ | .setDestination _ _ =>
    inferInstanceAs (Decidable (_ ∧ _))
  | .insertAfter id | .insertBefore id | .dispose id _ _ | .merge id | .split id | .splitMixed id =>
    inferInstanceAs (Decidable (id ∈ graph.order))
  | .push id _ => inferInstanceAs (Decidable (id < graph.nodes.size))

/-- One operation. -/
theorem apply_keeps {graph : Graph} (wellFormed : WellFormed graph) (operation : Operation)
    (hPermitted : operation.Permitted graph) :
    Keeps (¬operation.Strays graph) graph (operation.apply graph) := by
  cases operation with
  | label name => exact wellFormed.nodeOfLabel name
  | anonymous => exact wellFormed.allocate none _
  | append id => exact wellFormed.append hPermitted.1.1 hPermitted.2 hPermitted.1.2
  | insertAfter id => exact wellFormed.insertAfter hPermitted
  | insertBefore id => exact wellFormed.insertBefore hPermitted
  | connector source target => exact wellFormed.createConnector hPermitted.1 hPermitted.2.1 fun _ => hPermitted.2.2
  | dispose id clearStack recursive => exact wellFormed.dispose id clearStack recursive (.inl hPermitted)
  | merge id => exact wellFormed.mergeFrom _ (.inl hPermitted)
  | split id =>
      simp only [apply]
      cases hSplit : graph.split? id with
      | none => exact .refl wellFormed
      | some result =>
          obtain ⟨created, after⟩ := result
          have hKeeps := wellFormed.split? hPermitted hSplit
          refine ⟨hKeeps.wellFormed, fun hSafe => hKeeps.apart ?_, hKeeps.settled⟩
          simpa [Strays, hSplit] using hSafe
  | splitMixed id =>
      have hKeeps := wellFormed.splitFrom (graph.node id).stack.length hPermitted
      refine ⟨hKeeps.wellFormed, fun hSafe apart => ?_, hKeeps.settled⟩
      cases hSplit : graph.split? id with
      | none =>
          have hSame : (graph.splitFrom (graph.node id).stack.length id).2 = graph := by
            cases (graph.node id).stack.length <;> simp [Graph.splitFrom, hSplit]
          simpa only [apply, Graph.splitMixed, hSame] using apart
      | some result => exact hKeeps.apart (by simpa [Strays, hSplit] using hSafe) apart
  | connect source target =>
      exact wellFormed.connect hPermitted.1.1 hPermitted.2.1 fun _ => ⟨hPermitted.1.2, hPermitted.2.2⟩
  | disconnect source target => exact wellFormed.disconnect source target
  | addHandlerEdge start handler => exact wellFormed.addHandlerEdge start handler
  | setDestination id destination =>
      exact wellFormed.setDestination id destination fun target hTarget => hPermitted.2 target (hTarget ▸ rfl)
  | push id operand => exact wellFormed.mapStack id (· ++ [operand])
  | computeBackedges => exact wellFormed.computeBackedges

/-- The operations in turn. -/
def run (graph : Graph) (operations : List Operation) : Graph := operations.foldl apply graph

/-- Every operation is permitted when its turn comes. -/
def AllPermitted : Graph → List Operation → Prop
  | _, [] => True
  | graph, operation :: rest => operation.Permitted graph ∧ AllPermitted (operation.apply graph) rest

/-- Some operation strays when its turn comes. -/
def SomeStrays : Graph → List Operation → Prop
  | _, [] => False
  | graph, operation :: rest => operation.Strays graph ∨ SomeStrays (operation.apply graph) rest

instance : (graph : Graph) → (operations : List Operation) → Decidable (AllPermitted graph operations)
  | _, [] => inferInstanceAs (Decidable True)
  | graph, operation :: rest =>
    have := instDecidableAllPermitted (operation.apply graph) rest
    inferInstanceAs (Decidable (_ ∧ _))

instance : (graph : Graph) → (operations : List Operation) → Decidable (SomeStrays graph operations)
  | _, [] => inferInstanceAs (Decidable False)
  | graph, operation :: rest =>
    have := instDecidableSomeStrays (operation.apply graph) rest
    inferInstanceAs (Decidable (_ ∨ _))

theorem run_keeps {graph : Graph} (wellFormed : WellFormed graph) (operations : List Operation)
    (hPermitted : AllPermitted graph operations) :
    Keeps (¬SomeStrays graph operations) graph (run graph operations) := by
  induction operations generalizing graph with
  | nil => exact .refl wellFormed
  | cons operation rest ih =>
      have hFirst := apply_keeps wellFormed operation hPermitted.1
      have hRest := ih hFirst.wellFormed hPermitted.2
      refine ⟨hRest.wellFormed, fun hSafe apart => ?_, fun id => hRest.settled id ∘ hFirst.settled id⟩
      obtain ⟨hOperation, hOthers⟩ := not_or.mp hSafe
      exact hRest.apart hOthers (hFirst.apart hOperation apart)

end Operation

theorem WellFormed.empty : WellFormed {} := by
  have hBlank (id : NodeId) : Graph.node {} id = {} := node_of_size_le (Nat.zero_le id)
  refine ⟨⟨?_, ?_, ?_, ?_, ?_⟩, ⟨?_, ?_, ?_, ?_, ?_⟩, ?_⟩ <;> simp [hBlank, Chained]

theorem Apart.empty : Apart {} := fun id target hEdge => by
  have hBlank : Graph.node {} id = {} := node_of_size_le (Nat.zero_le id)
  simp [Edge, hBlank] at hEdge

/-- What a graph shows of its representation: edges recorded at both ends and once, marks on incoming edges,
an order of live nodes without repetition, and links that follow the order. -/
structure Consistent (graph : Graph) : Prop where
  mirror : ∀ source target,
    target ∈ (graph.node source).outgoing ↔ source ∈ (graph.node target).incoming
  edges_nodup : ∀ id, (graph.node id).outgoing.Nodup ∧ (graph.node id).incoming.Nodup
  marks : ∀ id, (graph.node id).backedges.Nodup ∧ (graph.node id).backedges ⊆ (graph.node id).incoming
  order_nodup : graph.order.Nodup
  order_live : ∀ id ∈ graph.order, graph.IsLive id
  neighbours : ∀ front a b back, graph.order = front ++ a :: b :: back →
    (graph.node a).next = some b ∧ (graph.node b).previous = some a
  first : ∀ id, graph.order.head? = some id → (graph.node id).previous = none
  last : ∀ id, graph.order.getLast? = some id → (graph.node id).next = none

theorem WellFormed.consistent {graph : Graph} (wellFormed : WellFormed graph) : Consistent graph where
  mirror := wellFormed.mirrored.mirror
  edges_nodup id := ⟨wellFormed.mirrored.outgoing_nodup id, wellFormed.mirrored.incoming_nodup id⟩
  marks id := ⟨wellFormed.mirrored.backedges_nodup id, wellFormed.mirrored.backedges_incoming id⟩
  order_nodup := wellFormed.linked.nodup
  order_live id hId := ⟨wellFormed.linked.lt id hId, wellFormed.linked.live id hId⟩
  neighbours front a b back hOrder := by
    constructor
    · simpa using (wellFormed.linked.previous_next hOrder).2
    · have hOrder' : graph.order = (front ++ [a]) ++ b :: back := by simpa using hOrder
      simpa using (wellFormed.linked.previous_next hOrder').1
  first id hFirst := by
    obtain ⟨back, hOrder⟩ := List.head?_eq_some_iff.mp hFirst
    have hOrder' : graph.order = [] ++ id :: back := hOrder
    exact (wellFormed.linked.previous_next hOrder').1
  last id hLast := by
    obtain ⟨front, hOrder⟩ := List.getLast?_eq_some_iff.mp hLast
    exact (wellFormed.linked.previous_next hOrder).2

namespace Operation

/-- After any permitted operations on an empty graph the representation is consistent. If none of them split
a node that led to a disposed one, disposed nodes have no edges left. -/
theorem run_consistent (operations : List Operation) (hPermitted : AllPermitted {} operations) :
    Consistent (run {} operations) ∧ (¬SomeStrays {} operations → ∀ id,
      ((run {} operations).node id).disposed = true →
        ((run {} operations).node id).outgoing = [] ∧ ((run {} operations).node id).incoming = []) := by
  have hKeeps := run_keeps .empty operations hPermitted
  exact ⟨hKeeps.wellFormed.consistent, fun hSafe _ =>
    (hKeeps.apart hSafe .empty).edges_nil hKeeps.wellFormed.mirrored⟩

section Fixed

def zero : Operand := { id := 1, type := .known .int, kind := .number (.int 0) }

/-- A jump to the given node. -/
def jumpTo (target : NodeId) : Operand :=
  { id := 2, type := .known .boolean
    kind := .condition
      { left := zero, operator := .eq, right := zero, onTrue := some target, onFalse := none, grouped := false } }

/-- A cycle of two nodes gets a connector on its back-edge; one node is split, one is disposed of. -/
def cycle : List Operation :=
  [.label 0, .append 0, .label 1, .append 1, .connect 0 1, .connect 1 0, .computeBackedges, .connector 1 0,
    .push 0 (jumpTo 1), .push 0 zero, .setDestination 0 (.node 1), .split 0, .dispose 1 false true, .merge 0]

theorem run_consistent_cycle : AllPermitted {} cycle ∧ ¬SomeStrays {} cycle ∧ Consistent (run {} cycle) ∧
    ((run {} cycle).node 1).disposed = true ∧ ((run {} cycle).node 1).incoming = [] :=
  ⟨by decide, by decide, (run_consistent cycle (by decide)).1, by decide,
    ((run_consistent cycle (by decide)).2 (by decide) 1 (by decide)).2⟩

/-- A node is made to lead to a second node before it has a place. The second node is disposed of, the first
is placed, and a split of it connects the new node to the second one. -/
def stray : List Operation :=
  [.anonymous, .anonymous, .append 1, .setDestination 0 (.node 1), .dispose 1 false false, .append 0,
    .push 0 (jumpTo 0), .push 0 zero, .split 0]

theorem disposed_edge : AllPermitted {} stray ∧ ((run {} stray).node 1).disposed = true ∧
    ((run {} stray).node 1).incoming = [2] := by
  decide

end Fixed

end Operation

end Decompiler.Graph
