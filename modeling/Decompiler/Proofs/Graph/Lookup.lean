import Decompiler.Graph.Disposal
import Decompiler.Graph.Split
import Mathlib.Data.List.Nodup

/-!
What the primitive changes of a graph do to the node with a given number. Later proofs go through these
equations and never through the arena itself.
-/

namespace Decompiler.Graph

variable {graph : Graph} {id other source target : NodeId}

/-- What lies on the stacks of the nodes in order of appearance, each from the bottom on. -/
def operands (graph : Graph) : List Operand := graph.order.flatMap fun id => (graph.node id).stack

/-- Past the end of the arena every node is blank. -/
theorem node_of_size_le (h : graph.nodes.size ≤ id) : graph.node id = {} := by
  simp [node, Array.getD_eq_getD_getElem?, h]

@[simp] theorem size_update (graph : Graph) (id : NodeId) (change : Node → Node) :
    (graph.update id change).nodes.size = graph.nodes.size := by
  simp [update]

@[simp] theorem order_update (graph : Graph) (id : NodeId) (change : Node → Node) :
    (graph.update id change).order = graph.order := rfl

@[simp] theorem labels_update (graph : Graph) (id : NodeId) (change : Node → Node) :
    (graph.update id change).labels = graph.labels := rfl

/-- A change reaches one node, and only if the arena has it. -/
theorem node_update (graph : Graph) (id other : NodeId) (change : Node → Node) :
    (graph.update id change).node other =
      if id = other ∧ other < graph.nodes.size then change (graph.node other) else graph.node other := by
  by_cases hSize : other < graph.nodes.size
  · by_cases hSame : id = other <;>
      simp [update, node, Array.getD_eq_getD_getElem?, Array.getElem_modify, hSize, hSame]
  · simp [update, node, Array.getD_eq_getD_getElem?, hSize]

/-- The node itself after its change. -/
theorem node_update_self (h : id < graph.nodes.size) (change : Node → Node) :
    (graph.update id change).node id = change (graph.node id) := by
  simp [node_update, h]

/-- Other nodes are not affected by a change. -/
theorem node_update_of_ne (h : id ≠ other) (change : Node → Node) :
    (graph.update id change).node other = graph.node other := by
  simp [node_update, h]

/-- A change that leaves a blank node blank needs no bound on the number of the node. -/
theorem node_update_of_blank (change : Node → Node) (hBlank : change {} = {}) :
    (graph.update id change).node other =
      if id = other then change (graph.node other) else graph.node other := by
  rw [node_update]
  by_cases hSize : other < graph.nodes.size
  · simp [hSize]
  · simp [hSize, node_of_size_le (Nat.not_lt.mp hSize), hBlank]

/-- Only what a change makes of the node itself matters. -/
theorem update_congr {change : Node → Node} (change' : Node → Node) (h : change (graph.node id) = change' (graph.node id)) :
    graph.update id change = graph.update id change' := by
  have hNodes : graph.nodes.modify id change = graph.nodes.modify id change' := by
    refine Array.ext (by simp) fun place hPlace _ => ?_
    simp only [Array.size_modify] at hPlace
    simp only [Array.getElem_modify]
    split
    · next hSame =>
        subst hSame
        simpa [node, Array.getD_eq_getD_getElem?, hPlace] using h
    · rfl
  rw [update, update, hNodes]

theorem update_id (graph : Graph) (id : NodeId) : (graph.update id fun node => node) = graph := by
  have hNodes : (graph.nodes.modify id fun node => node) = graph.nodes :=
    Array.ext (by simp) fun place _ _ => by simp [Array.getElem_modify]
  rw [update, hNodes]

/-- A field that a change of a node keeps is the same in every node. -/
theorem field_update {α : Type} (field : Node → α) (change : Node → Node)
    (hKeep : field (change (graph.node other)) = field (graph.node other)) :
    field ((graph.update id change).node other) = field (graph.node other) := by
  rw [node_update]
  split
  · exact hKeep
  · rfl

/-! ### Edges -/

/-- A new edge is put behind the edges of its source, one that is there is not put twice. -/
theorem outgoing_connect (hSource : source < graph.nodes.size) :
    ((graph.connect source target).node other).outgoing =
      if source = other ∧ target ∉ (graph.node source).outgoing then
        (graph.node other).outgoing ++ [target]
      else (graph.node other).outgoing := by
  by_cases hEdge : target ∈ (graph.node source).outgoing
  · simp [connect, hEdge]
  · simp only [connect, List.contains_eq_mem, hEdge, decide_false, Bool.false_eq_true, ↓reduceIte]
    change (((graph.update source _).update target _).node other).outgoing = _
    rw [field_update Node.outgoing _ rfl, node_update]
    by_cases hs : source = other
    · subst source
      simp [hSource]
    · simp [hs]

/-- A new edge is told to its target, one that is there is not told twice. -/
theorem incoming_connect (hTarget : target < graph.nodes.size) :
    ((graph.connect source target).node other).incoming =
      if target = other ∧ target ∉ (graph.node source).outgoing then
        (graph.node other).incoming ++ [source]
      else (graph.node other).incoming := by
  by_cases hEdge : target ∈ (graph.node source).outgoing
  · simp [connect, hEdge]
  · simp only [connect, List.contains_eq_mem, hEdge, decide_false, Bool.false_eq_true, ↓reduceIte]
    change (((graph.update source _).update target _).node other).incoming = _
    rw [node_update, size_update]
    by_cases ht : target = other
    · subst target
      simp only [hTarget, and_self, ↓reduceIte, not_false_eq_true]
      rw [field_update Node.incoming _ rfl]
    · simp only [ht, false_and, ↓reduceIte]
      rw [field_update Node.incoming _ rfl]

/-- A new edge has no mark. -/
theorem backedges_connect :
    ((graph.connect source target).node other).backedges = (graph.node other).backedges := by
  unfold connect
  split
  · rfl
  · change (((graph.update source _).update target _).node other).backedges = _
    rw [field_update Node.backedges _ rfl, field_update Node.backedges _ rfl]

/-- A removed edge is gone from its source. -/
theorem outgoing_disconnect :
    ((graph.disconnect source target).node other).outgoing =
      if source = other then (graph.node other).outgoing.filter (· != target)
      else (graph.node other).outgoing := by
  change (((graph.update source _).update target _).node other).outgoing = _
  rw [field_update Node.outgoing _ rfl, node_update_of_blank _ rfl]
  split <;> rfl

/-- A removed edge is gone from its target. -/
theorem incoming_disconnect :
    ((graph.disconnect source target).node other).incoming =
      if target = other then (graph.node other).incoming.filter (· != source)
      else (graph.node other).incoming := by
  change (((graph.update source _).update target _).node other).incoming = _
  rw [node_update_of_blank _ rfl]
  split <;> simp [field_update Node.incoming]

/-- With an edge its mark goes. -/
theorem backedges_disconnect :
    ((graph.disconnect source target).node other).backedges =
      if target = other then (graph.node other).backedges.filter (· != source)
      else (graph.node other).backedges := by
  change (((graph.update source _).update target _).node other).backedges = _
  rw [node_update_of_blank _ rfl]
  split <;> simp [field_update Node.backedges]

@[simp] theorem size_connect (graph : Graph) (source target : NodeId) :
    (graph.connect source target).nodes.size = graph.nodes.size := by
  unfold connect
  split
  · rfl
  · simp

@[simp] theorem order_connect (graph : Graph) (source target : NodeId) :
    (graph.connect source target).order = graph.order := by
  unfold connect
  split <;> rfl

@[simp] theorem size_disconnect (graph : Graph) (source target : NodeId) :
    (graph.disconnect source target).nodes.size = graph.nodes.size := by
  simp [disconnect]

@[simp] theorem order_disconnect (graph : Graph) (source target : NodeId) :
    (graph.disconnect source target).order = graph.order := rfl

@[simp] theorem size_addHandlerEdge (graph : Graph) (start handler : NodeId) :
    (graph.addHandlerEdge start handler).nodes.size = graph.nodes.size := by
  unfold addHandlerEdge
  split
  · rfl
  · exact size_update _ _ _

/-- An edge to a handler is told by the handler only. -/
theorem field_addHandlerEdge {α : Type} (field : Node → α)
    (hKeep : ∀ (node : Node) (sources : List NodeId), field { node with handlerSources := sources } = field node)
    (start handler : NodeId) : field ((graph.addHandlerEdge start handler).node other) = field (graph.node other) := by
  unfold addHandlerEdge
  split
  · rfl
  · exact field_update field _ (hKeep _ _)

/-! ### Appearance -/

@[simp] theorem size_link (graph : Graph) (previous next : Option NodeId) :
    (graph.link previous next).nodes.size = graph.nodes.size := by
  cases previous <;> cases next <;> simp [link]

@[simp] theorem order_link (graph : Graph) (previous next : Option NodeId) :
    (graph.link previous next).order = graph.order := by
  cases previous <;> cases next <;> rfl

@[simp] theorem labels_link (graph : Graph) (previous next : Option NodeId) :
    (graph.link previous next).labels = graph.labels := by
  cases previous <;> cases next <;> rfl

/-- Two neighbours learn of each other, and nothing else changes in them. -/
theorem node_link (graph : Graph) (previous next : Option NodeId) (other : NodeId)
    (hOther : other < graph.nodes.size) :
    (graph.link previous next).node other =
      { graph.node other with
        next := if previous = some other then next else (graph.node other).next
        previous := if next = some other then previous else (graph.node other).previous } := by
  cases previous with
  | none =>
      cases next with
      | none => simp [link]
      | some after => by_cases ha : after = other <;> simp [link, node_update, hOther, ha]
  | some before =>
      cases next with
      | none => by_cases hb : before = other <;> simp [link, node_update, hOther, hb]
      | some after =>
          by_cases hb : before = other <;> by_cases ha : after = other <;>
            simp [link, node_update, hOther, hb, ha]

end Decompiler.Graph
