import Decompiler.Proofs.Graph.Layout

/-!
Disposing of nodes trims the layout of a graph: nodes lose their place, and those that keep it stay in their order. Folding
conditions goes from a node backwards, so the last node stays when it starts at another one.
-/

namespace Decompiler.Graph

variable {graph middle after : Graph} {id target last before : NodeId} {front : List NodeId}

/-! ### The last node -/

/-- A node with another one after it is not the last. -/
theorem Linked.previous_ne_last (linked : Linked graph) (hId : id ∈ graph.order)
    (hBefore : (graph.node id).previous = some before) (hLast : graph.order.getLast? = some last) : before ≠ last := by
  rintro rfl
  obtain ⟨front, back, hOrder⟩ := List.append_of_mem hId
  rw [(linked.previous_next hOrder).1] at hBefore
  obtain ⟨start, rfl⟩ := List.getLast?_eq_some_iff.mp hBefore
  rw [List.append_assoc] at hOrder
  exact Chained.getLast?_ne hOrder linked.nodup hLast

/-- The node before the last one in the order is the one before it by its link. -/
theorem Linked.previous_last (linked : Linked graph) (hOrder : graph.order = front ++ [id]) :
    (graph.node id).previous = front.getLast? := (linked.previous_next hOrder).1

theorem getLast?_erase_of_ne (hLast : graph.order.getLast? = some last) (hOther : target ≠ last) :
    (graph.order.erase target).getLast? = some last := by
  obtain ⟨front, hOrder⟩ := List.getLast?_eq_some_iff.mp hLast
  rw [hOrder, List.erase_append]
  split
  · exact List.getLast?_concat
  · rw [List.erase_of_not_mem (by simpa using hOther), List.getLast?_concat]

theorem erase_concat (hNodup : (front ++ [id]).Nodup) : (front ++ [id]).erase id = front := by
  rw [List.erase_append_right _ fun hFront => ?_]
  · simp
  · exact (List.nodup_append.mp hNodup).2.2 id hFront id List.mem_cons_self rfl

/-! ### Trimming -/

/-- Some nodes were disposed of, and no node was made or placed. -/
structure Trims (before after : Graph) : Prop where
  linked : Linked after
  order : after.order.Sublist before.order
  size : after.nodes.size = before.nodes.size
  labels : after.labels = before.labels
  disposed : ∀ id, (after.node id).disposed = true ↔
    (before.node id).disposed = true ∨ id ∈ before.order ∧ id ∉ after.order

namespace Trims

theorem of_sameLayout (linked : Linked graph) (same : SameLayout graph after) : Trims graph after where
  linked := same.linked linked
  order := same.order ▸ List.Sublist.refl _
  size := same.size
  labels := same.labels
  disposed id := by
    rw [same.disposed, same.order]
    tauto

theorem refl (linked : Linked graph) : Trims graph graph := .of_sameLayout linked (.refl graph)

theorem trans (first : Trims graph middle) (second : Trims middle after) : Trims graph after where
  linked := second.linked
  order := second.order.trans first.order
  size := second.size.trans first.size
  labels := second.labels.trans first.labels
  disposed id := by
    have hMiddle : id ∈ middle.order → id ∈ graph.order := fun hId => first.order.subset hId
    have hAfter : id ∈ after.order → id ∈ middle.order := fun hId => second.order.subset hId
    rw [second.disposed, first.disposed]
    tauto

/-- A node that had its place has it still, or it was disposed of. -/
theorem settled (trims : Trims graph after) (hSettled : Settled graph id) : Settled after id := by
  by_cases hPlaced : id ∈ after.order
  · exact .inl hPlaced
  · exact .inr ((trims.disposed id).mpr (hSettled.symm.imp_right fun hId => ⟨hId, hPlaced⟩))

theorem disposeOne (linked : Linked graph) (hTarget : target ∈ graph.order) (clearStack : Bool) :
    Trims graph (graph.disposeOne target clearStack) where
  linked := linked.disposeOne clearStack hTarget
  order := order_disposeOne graph target clearStack ▸ List.erase_sublist
  size := size_disposeOne graph target clearStack
  labels := labels_disposeOne graph target clearStack
  disposed id := by
    rw [disposed_disposeOne linked hTarget, order_disposeOne, linked.nodup.mem_erase_iff, Bool.or_eq_true,
      decide_eq_true_eq]
    by_cases hSame : id = target
    · simp [hSame, hTarget]
    · simp only [hSame, false_or, ne_eq, not_false_eq_true, true_and]
      tauto

end Trims

/-- Disposing of a node that is not the last one, and of empty nodes before it, keeps the last one. -/
theorem trims_disposeFrom (linked : Linked graph) (fuel : Nat) (clearStack recursive : Bool)
    (hTarget : target ∈ graph.order) (hLast : graph.order.getLast? = some last) (hOther : target ≠ last) :
    Trims graph (graph.disposeFrom fuel target clearStack recursive).2 ∧
      (graph.disposeFrom fuel target clearStack recursive).2.order.getLast? = some last ∧
      last ∉ (graph.disposeFrom fuel target clearStack recursive).1 := by
  induction fuel generalizing graph target with
  | zero => exact ⟨.refl linked, hLast, List.not_mem_nil⟩
  | succ fuel ih =>
      have hFirst := Trims.disposeOne linked hTarget clearStack
      have hStays : (graph.disposeOne target clearStack).order.getLast? = some last :=
        order_disposeOne graph target clearStack ▸ getLast?_erase_of_ne hLast hOther
      have hSingle : last ∉ [target] := by simpa using hOther.symm
      simp only [disposeFrom, linked.live target hTarget, Bool.false_eq_true, ↓reduceIte]
      split
      · next before hBefore =>
          have hPlaced : before ∈ (graph.disposeOne target clearStack).order := by
            rw [order_disposeOne, linked.nodup.mem_erase_iff]
            refine ⟨?_, linked.mem_of_previous hTarget hBefore⟩
            rintro rfl
            exact linked.previous_ne hTarget hBefore
          split
          · obtain ⟨hRest, hRestLast, hRestOthers⟩ :=
              ih hFirst.linked hPlaced hStays (linked.previous_ne_last hTarget hBefore hLast)
            exact ⟨hFirst.trans hRest, hRestLast, List.not_mem_cons_of_ne_of_not_mem hOther.symm hRestOthers⟩
          · exact ⟨hFirst, hStays, hSingle⟩
      · exact ⟨hFirst, hStays, hSingle⟩

/-- Folding conditions from a node on that is not the last one keeps the last one. -/
theorem trims_mergeFrom (linked : Linked graph) (fuel : Nat) (hId : Settled graph id)
    (hLast : graph.order.getLast? = some last) (hOther : id ≠ last) :
    Trims graph (graph.mergeFrom fuel id).2 ∧ (graph.mergeFrom fuel id).2.order.getLast? = some last ∧
      last ∉ (graph.mergeFrom fuel id).1 := by
  induction fuel generalizing graph id with
  | zero => exact ⟨.refl linked, hLast, List.not_mem_nil⟩
  | succ fuel ih =>
      simp only [mergeFrom]
      rcases joinTop_cases graph id with hNone | ⟨hLive, fold, supply, top, rest, -, hJoin, hPrevious⟩
      · rw [hNone]
        exact ⟨.refl linked, hLast, List.not_mem_nil⟩
      · rw [hJoin]
        have hSame : SameLayout graph
            (({ graph with supply } : Graph).mapStack id fun _ => graph.joinedStack id top rest) :=
          (SameLayout.supply graph supply).trans (.mapStack _ id _)
        have hJoined := Trims.of_sameLayout linked hSame
        cases fold with
        | none => exact ⟨hJoined, hSame.order ▸ hLast, List.not_mem_nil⟩
        | some previous =>
            have hPlaced : id ∈ graph.order := hId.resolve_right (by simp [hLive])
            have hBefore := hPrevious previous rfl
            obtain ⟨hGone, hGoneLast, hGoneOthers⟩ := trims_disposeFrom hJoined.linked _ false true
              (hSame.order ▸ hPlaced) (hSame.order ▸ hLast) hOther
            have hSettled : Settled graph previous := .inl (linked.mem_of_previous hPlaced hBefore)
            obtain ⟨hRest, hRestLast, hRestOthers⟩ := ih hGone.linked ((hJoined.trans hGone).settled hSettled) hGoneLast
              (linked.previous_ne_last hPlaced hBefore hLast)
            refine ⟨(hJoined.trans hGone).trans hRest, hRestLast, fun hMember => ?_⟩
            rcases List.mem_append.mp hMember with hGoneMember | hRestMember
            · exact hGoneOthers hGoneMember
            · exact hRestOthers hRestMember

end Decompiler.Graph
