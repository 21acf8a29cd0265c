import Decompiler.Execution.Run
import Decompiler.Proofs.Graph.Separation
import Decompiler.Proofs.Region.Copies

/-!
What the end of a unit leaves of the head of a switch. Empty nodes are dropped and mixed ones are split, each in its
turn. A head whose operands are no conditions comes out of it with its place, its switch, its edges and its operands, so
the selector stays on top. Where a condition stands below the selector the head is split, and the selector moves away.
-/

namespace Decompiler

/-- What a node shows of itself to the folding of a switch. -/
def Node.face (node : Node) : List Operand × List NodeId × Option SwitchId := (node.stack, node.outgoing, node.switch)

namespace Graph

variable {graph before now : Graph} {head id target : NodeId}

/-- A node that is never dropped for being empty, nor any node that it leads to, and whose operands are no conditions. -/
structure PlainHead (graph : Graph) (head : NodeId) : Prop where
  placed : head ∈ graph.order
  pinned : (graph.node head).disposable = false
  arms : ∀ arm, graph.Edge head arm → (graph.node arm).disposable = false
  plain : ∀ operand ∈ (graph.node head).stack, operand.isCondition = false

/-- The head is as it was before, while the graph around it is settled. -/
structure Standing (before : Graph) (head : NodeId) (now : Graph) : Prop where
  wellFormed : WellFormed now
  settled : ∀ id ∈ before.order, Settled now id
  shape : PlainHead now head
  switch : (now.node head).switch = (before.node head).switch
  edges : ∀ target, now.Edge head target ↔ before.Edge head target
  stack : List.Forall₂ Operand.Redirected (before.node head).stack (now.node head).stack

theorem Standing.start (wellFormed : WellFormed graph) (plain : PlainHead graph head) : Standing graph head graph :=
  ⟨wellFormed, fun _ => .inl, plain, rfl, fun _ => .rfl, List.forall₂_same.mpr fun operand _ => .refl operand⟩

/-- An empty node goes, and its edges run past it. The head is none of their ends. -/
theorem Standing.disposeOne (standing : Standing before head now) (hTarget : target ∈ now.order)
    (hDisposable : (now.node target).disposable = true) (hEmpty : (now.node target).stack = []) :
    Standing before head (now.disposeOne target false) := by
  obtain ⟨wellFormed, settled, ⟨placed, pinned, arms, plain⟩, switch, edges, stack⟩ := standing
  have linked := wellFormed.linked
  have hKeeps : Keeps True now (now.disposeOne target false) := wellFormed.disposeOne hTarget false
  have hField {α : Type} (read : Node → α) (hRetire : ∀ node, read (retire node) = read node)
      (hRedirect : ∀ node destination, read (redirectNode target destination node) = read node)
      (hOperands : ∀ node operands, read (addOperands operands node) = read node)
      (hLinks : LinkFree read) (hEdges : EdgeFree read) (id : NodeId) :
      read ((now.disposeOne target false).node id) = read (now.node id) :=
    (field_disposeOne linked hTarget false id read hRetire hRedirect hOperands).trans (field_rewired read hLinks hEdges)
  have hPinned := hField Node.disposable (fun _ => rfl) (fun _ _ => rfl) (fun _ _ => rfl) (fun _ _ _ => rfl) (fun _ => rfl)
  have hOther : head ≠ target := fun hSame => by
    rw [← hSame, pinned] at hDisposable
    cases hDisposable
  have hApart : ¬now.Edge head target := fun hEdge => by
    rw [arms target hEdge] at hDisposable
    cases hDisposable
  have hEdges (sink : NodeId) : (now.disposeOne target false).Edge head sink ↔ now.Edge head sink := by
    rw [edge_disposeOne linked hTarget false wellFormed.mirrored]
    constructor
    · rintro ⟨-, -, hEdge | ⟨hEdge, -⟩⟩
      · exact hEdge
      · exact absurd hEdge hApart
    · exact fun hEdge => ⟨hOther, fun hSame => hApart (hSame ▸ hEdge), .inl hEdge⟩
  have hStack : ((now.disposeOne target false).node head).stack =
      (now.node head).stack.map (Operand.redirect target (now.redirection target)) := by
    simp [stack_disposeOne linked hTarget, hOther, placed, hEmpty]
  refine ⟨hKeeps.wellFormed, fun id hId => hKeeps.settled id (settled id hId), ⟨?_, ?_, fun arm hArm => ?_, ?_⟩, ?_,
    fun sink => (hEdges sink).trans (edges sink), ?_⟩
  · rw [order_disposeOne]
    exact (List.mem_erase_of_ne hOther).mpr placed
  · rw [hPinned, pinned]
  · rw [hPinned]
    exact arms arm ((hEdges arm).mp hArm)
  · simpa [hStack, Operand.isCondition_redirect] using plain
  · rw [hField Node.switch (fun _ => rfl) (fun _ _ => rfl) (fun _ _ => rfl) (fun _ _ _ => rfl) (fun _ => rfl), switch]
  · rw [hStack, List.forall₂_map_right_iff]
    exact stack.imp fun _ _ redirected => redirected.redirect _ _

/-- The head itself is not mixed, and the splitting of another node does not concern it. -/
theorem Standing.splitMixed (standing : Standing before head now) (hId : id ∈ now.order) :
    Standing before head (now.splitMixed id).2 := by
  obtain ⟨wellFormed, settled, ⟨placed, pinned, arms, plain⟩, switch, edges, stack⟩ := standing
  by_cases hSame : id = head
  · subst hSame
    rw [Graph.splitMixed, splitFrom_plain plain]
    exact ⟨wellFormed, settled, ⟨placed, pinned, arms, plain⟩, switch, edges, stack⟩
  · have frame : SplitFrame now (now.splitMixed id).2 := frame_splitFrom now _ id
    have hHead := wellFormed.linked.lt head placed
    have hKeeps : Keeps (LeadsToLive now id) now (now.splitMixed id).2 := wellFormed.splitFrom _ hId
    have hFace : ((now.splitMixed id).2.node head).face = (now.node head).face :=
      field_splitFrom_of_ne (fun _ _ _ _ _ => rfl) _ (fun _ => rfl) hSame hHead
    simp only [Node.face, Prod.mk.injEq] at hFace
    have hEdges (sink : NodeId) : (now.splitMixed id).2.Edge head sink ↔ now.Edge head sink := by
      rw [Edge, hFace.2.1, Edge]
    refine ⟨hKeeps.wellFormed, fun id hId => hKeeps.settled id (settled id hId), ⟨?_, ?_, fun arm hArm => ?_, ?_⟩, ?_,
      fun sink => (hEdges sink).trans (edges sink), ?_⟩
    · exact (frame.order head hHead).mpr placed
    · rw [frame.disposable head hHead, pinned]
    · have hArm := (hEdges arm).mp hArm
      rw [frame.disposable arm (wellFormed.mirrored.edge_lt hArm).2]
      exact arms arm hArm
    · rwa [hFace.1]
    · rw [hFace.2.2, switch]
    · rwa [hFace.1]

theorem Standing.settleNode (standing : Standing before head now) (hId : id ∈ before.order) :
    Standing before head (Execution.settleNode id now) := by
  unfold Execution.settleNode
  dsimp only
  split
  · exact standing
  · next hLive =>
      rw [Bool.not_eq_true] at hLive
      have hPlaced : id ∈ now.order := (standing.settled id hId).resolve_right (by simp [hLive])
      split
      · next hDropped =>
          obtain ⟨hDisposable, hEmpty⟩ := Bool.and_eq_true_iff.mp hDropped
          rw [dispose_plain false hLive]
          exact standing.disposeOne hPlaced hDisposable (List.isEmpty_iff.mp hEmpty)
      · exact standing.splitMixed hPlaced

theorem Standing.foldl_settleNode (standing : Standing before head now) (ids : List NodeId)
    (hIds : ∀ id ∈ ids, id ∈ before.order) :
    Standing before head (ids.foldl (fun graph id => Execution.settleNode id graph) now) := by
  induction ids generalizing now with
  | nil => exact standing
  | cons id rest ih =>
      rw [List.forall_mem_cons] at hIds
      exact ih (standing.settleNode hIds.1) hIds.2

/-- The head of a switch comes out with its switch, with the selector on top and with the arms as its only successors.
Within the selector conditions may have got new targets. -/
theorem head_settle {table : SwitchTable} {switch : SwitchId} {selector : Operand} (wellFormed : WellFormed graph)
    (shape : PlainHead graph table.head) (hSwitch : (graph.node table.head).switch = some switch)
    (hSelector : (graph.node table.head).top? = some selector)
    (hArms : ∀ id, graph.Edge table.head id ↔ id ∈ table.arms) :
    table.head ∈ (Execution.settle graph).order ∧ ((Execution.settle graph).node table.head).switch = some switch ∧
      (∃ top, ((Execution.settle graph).node table.head).top? = some top ∧ Operand.Redirected selector top) ∧
      ∀ id, (Execution.settle graph).Edge table.head id ↔ id ∈ table.arms := by
  have standing : Standing graph table.head (Execution.settle graph) :=
    (Standing.start wellFormed shape).foldl_settleNode graph.order fun _ hId => hId
  refine ⟨standing.shape.placed, standing.switch.trans hSwitch, ?_, fun id => (standing.edges id).trans (hArms id)⟩
  obtain ⟨below, hStack⟩ := List.getLast?_eq_some_iff.mp hSelector
  have hReversed := List.forall₂_reverse_iff.mpr standing.stack
  rw [hStack, List.reverse_concat, List.forall₂_cons_left_iff] at hReversed
  obtain ⟨top, rest, redirected, -, hTop⟩ := hReversed
  refine ⟨top, ?_, redirected⟩
  rw [Node.top?, ← List.head?_reverse, hTop]
  rfl

section Fixed

/-- A switch over a local with one arm and a default target, and before it a conditional jump to the default target. -/
def jumping : Graph :=
  let read : Operand := { id := 0, type := .known .int, kind := .localVariable 0 false }
  let test : Condition :=
    { left := read, operator := .eq, right := read, onTrue := some 2, onFalse := none, grouped := false }
  let graph := Operation.run {} [.label 0, .append 0, .label 1, .append 1, .label 2, .append 2, .connect 0 2,
    .connect 0 1, .setDestination 0 (.node 2), .push 0 { read with kind := .condition test }, .push 0 read,
    .push 1 { read with kind := .returns none }, .push 2 { read with kind := .returns none }]
  graph.update 0 fun node => { node with switch := some 0, disposable := false }

/-- The head keeps the switch, but the selector and the edge to the arm belong to the new node. -/
example : ((Execution.settle jumping).node 0).switch = some 0 ∧
    ((Execution.settle jumping).node 0).top?.map Operand.isCondition = some true ∧
    ((Execution.settle jumping).node 0).outgoing = [2, 3] ∧ ((Execution.settle jumping).node 3).outgoing = [1, 2] := by
  decide +kernel

end Fixed

end Graph

end Decompiler
