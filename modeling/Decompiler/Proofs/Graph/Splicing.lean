import Decompiler.Proofs.Graph.Operation
import Decompiler.Proofs.Operand.Targets
import Mathlib.Data.List.Forall2
import Mathlib.Logic.Relation

/-!
Disposing of nodes splices them out. Between the nodes that stay there is a way along edges when there was one before,
and the operands that the nodes hold, read in the order of appearance, stay the same but for their targets.
-/

namespace Decompiler.Graph

open Relation

variable {graph middle after : Graph} {target u v : NodeId} {gone others : List NodeId}

/-- There is a way of at least one edge from the one node to the other. -/
def HasWay (graph : Graph) : NodeId → NodeId → Prop := TransGen graph.Edge

/-! ### Ways past one node -/

section Bypass

variable {edge bypassed : NodeId → NodeId → Prop}
  (hBypassed : ∀ a b, bypassed a b ↔ a ≠ target ∧ b ≠ target ∧ (edge a b ∨ edge a target ∧ edge target b))

include hBypassed

/-- A way from another node comes to any node past the target, and to the target itself from a node before it. A loop
at the target is passed over. -/
theorem bypassed_of_way (hStart : u ≠ target) (hWay : TransGen edge u v) :
    (v ≠ target → TransGen bypassed u v) ∧
      (v = target → ∃ before, before ≠ target ∧ ReflTransGen bypassed u before ∧ edge before target) := by
  induction hWay with
  | single hEdge =>
      refine ⟨fun hEnd => .single ((hBypassed _ _).mpr ⟨hStart, hEnd, .inl hEdge⟩), ?_⟩
      rintro rfl
      exact ⟨u, hStart, .refl, hEdge⟩
  | @tail last next _ hEdge ih =>
      by_cases hLast : last = target
      · obtain ⟨before, hBefore, hWay, hInto⟩ := ih.2 hLast
        subst hLast
        refine ⟨fun hEnd => TransGen.tail' hWay ((hBypassed _ _).mpr ⟨hBefore, hEnd, .inr ⟨hInto, hEdge⟩⟩), ?_⟩
        rintro rfl
        exact ⟨before, hBefore, hWay, hInto⟩
      · have hWay := ih.1 hLast
        refine ⟨fun hEnd => hWay.tail ((hBypassed _ _).mpr ⟨hLast, hEnd, .inl hEdge⟩), ?_⟩
        rintro rfl
        exact ⟨last, hLast, hWay.to_reflTransGen, hEdge⟩

theorem way_of_bypassed (hWay : TransGen bypassed u v) : TransGen edge u v := by
  refine hWay.lift' id fun a b hEdge => ?_
  rcases ((hBypassed a b).mp hEdge).2.2 with hOld | ⟨hInto, hFrom⟩
  · exact .single hOld
  · exact .tail (.single hInto) hFrom

end Bypass

/-! ### Splicing -/

/-- The nodes that are gone have lost their place, the others are connected as before. -/
structure Spliced (gone : List NodeId) (before after : Graph) : Prop where
  order : after.order = before.order.filter (· ∉ gone)
  ways : ∀ u v, u ∉ gone → v ∉ gone → (after.HasWay u v ↔ before.HasWay u v)

theorem Spliced.refl (graph : Graph) : Spliced [] graph graph :=
  ⟨by simp, fun _ _ _ _ => Iff.rfl⟩

/-- Nodes that lose their place in two goes lose it in one. -/
theorem filter_notMem_append (ids : List NodeId) :
    (ids.filter (· ∉ gone)).filter (· ∉ others) = ids.filter (· ∉ gone ++ others) := by
  rw [List.filter_filter]
  refine List.filter_congr fun id _ => ?_
  simp [Bool.and_comm]

theorem Spliced.trans (first : Spliced gone graph middle) (second : Spliced others middle after) :
    Spliced (gone ++ others) graph after where
  order := by rw [second.order, first.order, filter_notMem_append]
  ways u v hU hV := by
    rw [List.mem_append, not_or] at hU hV
    exact (second.ways u v hU.2 hV.2).trans (first.ways u v hU.1 hV.1)

theorem filter_disposeOne (linked : Linked graph) (target : NodeId) (clearStack : Bool) :
    (graph.disposeOne target clearStack).order = graph.order.filter (· ∉ [target]) := by
  rw [order_disposeOne, linked.nodup.erase_eq_filter]
  exact List.filter_congr fun id _ => by simp [bne, beq_eq_decide]

theorem spliced_disposeOne (mirrored : Mirrored graph) (linked : Linked graph) (hTarget : target ∈ graph.order)
    (clearStack : Bool) : Spliced [target] graph (graph.disposeOne target clearStack) where
  order := filter_disposeOne linked target clearStack
  ways u v hU hV := by
    rw [List.mem_singleton] at hU hV
    have hBypassed := fun a b => edge_disposeOne (a := a) (b := b) linked hTarget clearStack mirrored
    exact ⟨way_of_bypassed hBypassed, fun hWay => (bypassed_of_way hBypassed hU hWay).1 hV⟩

/-! ### Operands -/

/-- The same operands in the same order, up to targets that named nodes that are gone. -/
def SameOperands (gone : List NodeId) (before after : List Operand) : Prop :=
  List.Forall₂ (Operand.Retargeted gone) before after

namespace SameOperands

variable {first second third rest more : List Operand}

theorem refl (gone : List NodeId) (operands : List Operand) : SameOperands gone operands operands :=
  List.forall₂_same.mpr fun operand _ => .refl gone operand

theorem mono (same : SameOperands gone first second) (hGone : gone ⊆ others) : SameOperands others first second :=
  same.imp fun _ _ retargeted => retargeted.mono hGone

theorem trans (same : SameOperands gone first second) (next : SameOperands gone second third) :
    SameOperands gone first third := by
  induction same generalizing third with
  | nil => exact next
  | cons retargeted _ ih =>
      cases next with
      | cons retargeted' next => exact .cons (retargeted.trans retargeted') (ih next)

theorem append (same : SameOperands gone first second) (others : SameOperands gone rest more) :
    SameOperands gone (first ++ rest) (second ++ more) := List.rel_append same others

/-- Node by node. -/
theorem flatMap {ids : List NodeId} {before after : NodeId → List Operand}
    (hIds : ∀ id ∈ ids, SameOperands gone (before id) (after id)) :
    SameOperands gone (ids.flatMap before) (ids.flatMap after) := by
  induction ids with
  | nil => exact .nil
  | cons id ids ih =>
      exact (hIds id List.mem_cons_self).append (ih fun id hId => hIds id (List.mem_cons_of_mem _ hId))

theorem redirect (target : NodeId) (destination : Option NodeId) (operands : List Operand) :
    SameOperands [target] operands (operands.map (Operand.redirect target destination)) :=
  List.forall₂_map_right_iff.mpr (List.forall₂_same.mpr fun operand _ =>
    .redirect List.mem_cons_self destination operand)

end SameOperands

/-- A node that does not take the operands of the node disposed of keeps its own. -/
theorem sameOperands_other (linked : Linked graph) (hTarget : target ∈ graph.order) {id : NodeId}
    (hId : id ∈ graph.order) (hOther : id ≠ target) (hNot : (graph.node target).previous ≠ some id) :
    SameOperands [target] (graph.node id).stack ((graph.disposeOne target false).node id).stack := by
  rw [stack_disposeOne linked hTarget, if_neg hOther]
  simp only [hId, hNot, false_and, ↓reduceIte]
  exact .redirect target _ _

/-- If the node disposed of has no operands, every node keeps its own. -/
theorem sameOperands_disposeEmpty (linked : Linked graph) (hTarget : target ∈ graph.order)
    (hEmpty : (graph.node target).stack = []) (id : NodeId) :
    SameOperands [target] (graph.node id).stack ((graph.disposeOne target false).node id).stack := by
  rw [stack_disposeOne linked hTarget, hEmpty]
  simp only [List.append_nil, ite_self]
  split
  · next hSame => rw [hSame, hEmpty]; exact .nil
  · split
    · exact .redirect target _ _
    · exact .refl _ _

/-- The operands of a node go to the end of the node before it, right where they stood in the order. -/
theorem sameOperands_disposeOne (linked : Linked graph) (hTarget : target ∈ graph.order)
    (hRoom : (graph.node target).previous.isSome ∨ (graph.node target).stack = []) :
    SameOperands [target] graph.operands (graph.disposeOne target false).operands := by
  obtain ⟨front, back, hOrder⟩ := List.append_of_mem hTarget
  obtain ⟨hFrontNodup, hBackNodup, hDisjoint⟩ := List.nodup_append.mp (hOrder ▸ linked.nodup)
  have hFront : target ∉ front := fun hMember => hDisjoint target hMember target List.mem_cons_self rfl
  have hBack : target ∉ back := (List.nodup_cons.mp hBackNodup).1
  have hPrevious := (linked.previous_next hOrder).1
  have hAfter : (graph.disposeOne target false).order = front ++ back := by
    rw [order_disposeOne, hOrder, List.erase_append_right _ hFront, List.erase_cons_head]
  have hFrontOrder : ∀ id ∈ front, id ∈ graph.order := fun id hId => hOrder ▸ List.mem_append_left _ hId
  have hBackOperands : SameOperands [target] (back.flatMap fun id => (graph.node id).stack)
      (back.flatMap fun id => ((graph.disposeOne target false).node id).stack) := by
    refine .flatMap fun id hId => ?_
    have hMember : id ∈ target :: back := List.mem_cons_of_mem _ hId
    refine sameOperands_other linked hTarget (hOrder ▸ List.mem_append_right _ hMember) (fun h => hBack (h ▸ hId)) ?_
    rw [hPrevious]
    exact fun hLast => hDisjoint id (List.mem_of_getLast? hLast) id hMember rfl
  have hFrontOperands : SameOperands [target]
      ((front.flatMap fun id => (graph.node id).stack) ++ (graph.node target).stack)
      (front.flatMap fun id => ((graph.disposeOne target false).node id).stack) := by
    rcases List.eq_nil_or_concat front with rfl | ⟨start, before, rfl⟩
    · have hEmpty : (graph.node target).stack = [] := hRoom.resolve_left (by simp [hPrevious])
      simpa [hEmpty] using SameOperands.refl [target] []
    · rw [List.concat_eq_append] at *
      rw [List.getLast?_concat] at hPrevious
      have hBefore : before ≠ target := fun h => hFront (by simp [h])
      have hTaken : ((graph.disposeOne target false).node before).stack =
          (graph.node before).stack.map (Operand.redirect target (graph.redirection target)) ++
            (graph.node target).stack := by
        rw [stack_disposeOne linked hTarget, if_neg hBefore]
        simp [hPrevious, hFrontOrder before (by simp)]
      simp only [List.flatMap_append, List.flatMap_cons, List.flatMap_nil, List.append_nil, List.append_assoc, hTaken]
      refine .append (.flatMap fun id hId => ?_) (.append (.redirect target _ _) (.refl _ _))
      have hNot : before ≠ id := fun h => (List.nodup_append.mp hFrontNodup).2.2 id hId before List.mem_cons_self h.symm
      exact sameOperands_other linked hTarget (hFrontOrder id (by simp [hId])) (fun h => hFront (by simp [← h, hId]))
        (by simpa [hPrevious] using hNot)
  simp only [operands, hOrder, hAfter, List.flatMap_append, List.flatMap_cons, ← List.append_assoc]
  exact hFrontOperands.append hBackOperands

/-! ### Disposing -/

/-- The node before the one disposed of keeps its place. -/
theorem mem_order_disposeOne (linked : Linked graph) (hTarget : target ∈ graph.order) {before : NodeId}
    (hBefore : (graph.node target).previous = some before) (clearStack : Bool) :
    before ∈ (graph.disposeOne target clearStack).order := by
  rw [order_disposeOne, linked.nodup.mem_erase_iff]
  refine ⟨?_, linked.mem_of_previous hTarget hBefore⟩
  rintro rfl
  exact linked.previous_ne hTarget hBefore

/-- Disposing of a placed node, and of the nodes before it that are left empty. -/
theorem spliced_disposeFrom (mirrored : Mirrored graph) (linked : Linked graph) (fuel : Nat)
    (clearStack recursive : Bool) (hTarget : target ∈ graph.order) :
    Spliced (graph.disposeFrom fuel target clearStack recursive).1 graph
        (graph.disposeFrom fuel target clearStack recursive).2 ∧
      (clearStack = false → (graph.node target).previous.isSome ∨ (graph.node target).stack = [] →
        SameOperands (graph.disposeFrom fuel target clearStack recursive).1 graph.operands
          (graph.disposeFrom fuel target clearStack recursive).2.operands) := by
  induction fuel generalizing graph target with
  | zero => exact ⟨.refl graph, fun _ _ => .refl _ _⟩
  | succ fuel ih =>
      have hFirst := spliced_disposeOne mirrored linked hTarget clearStack
      have hOperands : clearStack = false →
          (graph.node target).previous.isSome ∨ (graph.node target).stack = [] →
          SameOperands [target] graph.operands (graph.disposeOne target clearStack).operands := by
        rintro rfl
        exact sameOperands_disposeOne linked hTarget
      simp only [disposeFrom, linked.live target hTarget, Bool.false_eq_true, ↓reduceIte]
      split
      · next before hBefore =>
          split
          · next hEmpty =>
              have hPlaced := mem_order_disposeOne linked hTarget hBefore clearStack
              have hStack : ((graph.disposeOne target clearStack).node before).stack = [] := by
                simpa using (Bool.and_eq_true_iff.mp (Bool.and_eq_true_iff.mp hEmpty).1).2
              obtain ⟨hRest, hRestOperands⟩ := ih (mirrored.disposeOne linked clearStack hTarget)
                (linked.disposeOne clearStack hTarget) hPlaced
              refine ⟨hFirst.trans hRest, fun hKept hRoom => ?_⟩
              exact ((hOperands hKept hRoom).mono (List.cons_subset_cons _ (List.nil_subset _))).trans
                ((hRestOperands hKept (.inr hStack)).mono (List.subset_cons_self _ _))
          · exact ⟨hFirst, hOperands⟩
      · exact ⟨hFirst, hOperands⟩

/-- Disposing of a placed node takes it and the nodes disposed of with it out of the order. Between all other nodes
there is a way along edges exactly when there was one before. If operands are kept, and the node has another one before
it or no operands, the live nodes hold the same operands in the same order, up to targets that named nodes that are
gone. -/
theorem dispose_splices (mirrored : Mirrored graph) (linked : Linked graph) (hTarget : target ∈ graph.order)
    (clearStack recursive : Bool) :
    target ∈ (graph.dispose target clearStack recursive).1 ∧
      Spliced (graph.dispose target clearStack recursive).1 graph (graph.dispose target clearStack recursive).2 ∧
      (clearStack = false → (graph.node target).previous.isSome ∨ (graph.node target).stack = [] →
        SameOperands (graph.dispose target clearStack recursive).1 graph.operands
          (graph.dispose target clearStack recursive).2.operands) := by
  refine ⟨?_, spliced_disposeFrom mirrored linked _ clearStack recursive hTarget⟩
  simp only [dispose, disposeFrom, linked.live target hTarget, Bool.false_eq_true, ↓reduceIte]
  split
  · split <;> exact List.mem_cons_self
  · exact List.mem_cons_self

/-- Two empty nodes between a jump past the first of them and the end; the second one leads to itself as well. -/
def emptyPair : Graph :=
  Operation.run {} [.label 0, .append 0, .label 1, .append 1, .label 2, .append 2, .label 3, .append 3, .connect 0 1,
    .connect 0 2, .connect 1 2, .connect 2 2, .connect 2 3, .setDestination 0 (.node 1), .setDestination 1 (.node 2),
    .setDestination 2 (.node 3), .push 0 (Operation.jumpTo 2), .push 3 Operation.zero]

theorem wellFormed_emptyPair : WellFormed emptyPair := (Operation.run_keeps .empty _ (by decide)).wellFormed

theorem dispose_splices_emptyPair : Mirrored emptyPair ∧ Linked emptyPair ∧ 2 ∈ emptyPair.order ∧
    (emptyPair.dispose 2 false true).1 = [2, 1] ∧ emptyPair.HasWay 0 3 ∧
    (emptyPair.dispose 2 false true).2.HasWay 0 3 ∧
    SameOperands [2, 1] emptyPair.operands (emptyPair.dispose 2 false true).2.operands := by
  have hGone : (emptyPair.dispose 2 false true).1 = [2, 1] := by decide
  have hWay : emptyPair.HasWay 0 3 :=
    .tail (.single (show 2 ∈ (emptyPair.node 0).outgoing by decide)) (show 3 ∈ (emptyPair.node 2).outgoing by decide)
  obtain ⟨-, spliced, hOperands⟩ := dispose_splices wellFormed_emptyPair.mirrored wellFormed_emptyPair.linked
    (show 2 ∈ emptyPair.order by decide) false true
  rw [hGone] at spliced hOperands
  exact ⟨wellFormed_emptyPair.mirrored, wellFormed_emptyPair.linked, by decide, hGone, hWay,
    (spliced.ways 0 3 (by decide) (by decide)).mpr hWay, hOperands rfl (.inl (by decide))⟩

end Decompiler.Graph
