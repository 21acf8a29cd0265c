import Decompiler.Proofs.Graph.Splicing
import Decompiler.Proofs.Operand.Redirecting

/-!
What names a node after it has been disposed of. No edge, mark, destination or link of a placed node does. The operands
that the node held itself are handed to the node before it after all others have been redirected, so a condition among
them that jumps to its own node goes on naming it, and nothing else does.
-/

namespace Decompiler

namespace Operand

variable {operand before after : Operand} {old node : NodeId} {new : Option NodeId}

theorem mentionsTarget_iff : operand.mentionsTarget node = true ↔ ∃ inner ∈ operand.walk, inner.Names node := by
  rw [mentionsTarget, List.any_eq_true]
  constructor
  · rintro ⟨inner, hInner, hTargets⟩
    by_contra hNone
    have hFalse : inner.targets node = false := targets_eq_false fun nested hNested hNames =>
      hNone ⟨nested, mem_walk_trans hNested hInner, hNames⟩
    rw [hFalse] at hTargets
    cases hTargets
  · rintro ⟨inner, hInner, test, hTest, hNamed⟩
    refine ⟨inner, hInner, ?_⟩
    rw [targets_condition (condition?_eq_some hTest)]
    rcases hNamed with hTrue | hFalse
    · simp [hTrue]
    · simp [hFalse]

/-- Replacing a target brings in no other one than the new one. -/
theorem Replaced.names (replaced : Replaced old new before after) (hNew : new ≠ some node) :
    ∀ inner ∈ after.walk, inner.Names node → ∃ origin ∈ before.walk, origin.Names node := by
  induction replaced with
  | @condition operand test left right hKind _ _ ihLeft ihRight =>
      intro inner hInner hNames
      rw [walk_condition rfl, List.mem_cons, List.mem_append] at hInner
      rw [walk_condition hKind]
      rcases hInner with rfl | hLeft | hRight
      · obtain ⟨_, ⟨⟩, hNamed⟩ := hNames
        have hKept (target : Option NodeId) (hTarget : (if target = some old then new else target) = some node) :
            target = some node := by
          split at hTarget
          · exact absurd hTarget hNew
          · exact hTarget
        exact ⟨operand, List.mem_cons_self, test, by rw [condition?, hKind], hNamed.imp (hKept _) (hKept _)⟩
      · obtain ⟨origin, hOrigin, hNames⟩ := ihLeft inner hLeft hNames
        exact ⟨origin, List.mem_cons_of_mem _ (List.mem_append_left _ hOrigin), hNames⟩
      · obtain ⟨origin, hOrigin, hNames⟩ := ihRight inner hRight hNames
        exact ⟨origin, List.mem_cons_of_mem _ (List.mem_append_right _ hOrigin), hNames⟩
  | other hTest change _ ih =>
      intro inner hInner hNames
      rw [walk_eq, List.mem_cons, mem_walkParts, children_mapParts] at hInner
      rcases hInner with rfl | ⟨part, hPart, hInner⟩
      · obtain ⟨test, hMapped, -⟩ := hNames
        rw [condition?_mapParts hTest] at hMapped
        cases hMapped
      · obtain ⟨before, hBefore, rfl⟩ := List.mem_pmap.mp hPart
        obtain ⟨origin, hOrigin, hNames⟩ := ih before hBefore inner hInner hNames
        exact ⟨origin, mem_walk_of_child hBefore hOrigin, hNames⟩

/-- A redirected operand names the node that was replaced no more, and no other one that it did not name before. -/
theorem mentionsTarget_redirect (hNew : new ≠ some node)
    (hBefore : node = old ∨ operand.mentionsTarget node = false) : (operand.redirect old new).mentionsTarget node = false := by
  rw [← Bool.not_eq_true, mentionsTarget_iff]
  rintro ⟨inner, hInner, hNames⟩
  have hReplaced := replaced_redirect old new operand
  rcases hBefore with rfl | hBefore
  · exact hReplaced.not_names hNew inner hInner hNames
  · rw [mentionsTarget_iff.mpr (hReplaced.names hNew inner hInner hNames)] at hBefore
    cases hBefore

end Operand

namespace Graph

variable {graph : Graph} {target gone : NodeId}

/-! ### Nodes that nothing leads to -/

/-- The node has lost its place and its edges, and no placed node has it as its destination or as the start of a region
whose exceptions it handles. -/
structure Dropped (graph : Graph) (gone : NodeId) : Prop where
  order : gone ∉ graph.order
  edges : ∀ id, ¬graph.Edge id gone ∧ ¬graph.Edge gone id
  destination : ∀ id ∈ graph.order, (graph.node id).destination ≠ some (.node gone)
  handlerSources : ∀ id ∈ graph.order, gone ∉ (graph.node id).handlerSources

/-- Some operand of a placed node names the node. -/
def Mentioned (graph : Graph) (gone : NodeId) : Prop :=
  ∃ operand ∈ graph.operands, operand.mentionsTarget gone = true

namespace Dropped

/-- Only operands can refer to such a node. -/
theorem isReferenced_iff (dropped : Dropped graph gone) (mirrored : Mirrored graph) :
    graph.isReferenced gone = true ↔ graph.Mentioned gone := by
  have hIncoming (id : NodeId) : gone ∉ (graph.node id).incoming := fun hIncoming =>
    (dropped.edges id).2 (mirrored.mem_incoming.mp hIncoming)
  have hOutgoing (id : NodeId) : gone ∉ (graph.node id).outgoing := (dropped.edges id).1
  simp only [isReferenced, Mentioned, operands, List.any_eq_true, List.mem_flatMap]
  constructor
  · rintro ⟨id, hId, hNamed⟩
    obtain ⟨operand, hOperand, hMentions⟩ : ∃ operand ∈ (graph.node id).stack, operand.mentionsTarget gone = true := by
      simpa [hIncoming, hOutgoing, dropped.destination id hId] using hNamed
    exact ⟨operand, ⟨id, hId, hOperand⟩, hMentions⟩
  · rintro ⟨operand, ⟨id, hId, hOperand⟩, hMentions⟩
    exact ⟨id, hId, by simpa [hIncoming, hOutgoing, dropped.destination id hId] using ⟨operand, hOperand, hMentions⟩⟩

theorem not_backedge (dropped : Dropped graph gone) (mirrored : Mirrored graph) (id : NodeId) :
    gone ∉ (graph.node id).backedges := fun hBack =>
  (dropped.edges id).2 (mirrored.mem_incoming.mp (mirrored.backedges_incoming id gone hBack))

/-- The links of placed nodes lead to placed nodes. -/
theorem not_linked (dropped : Dropped graph gone) (linked : Linked graph) {id : NodeId} (hId : id ∈ graph.order) :
    (graph.node id).previous ≠ some gone ∧ (graph.node id).next ≠ some gone :=
  ⟨fun hPrevious => dropped.order (linked.mem_of_previous hId hPrevious),
    fun hNext => dropped.order (linked.mem_of_next hId hNext)⟩

end Dropped

/-! ### Disposing of one node -/

/-- References to a node lead neither to the node itself nor to one that nothing leads to. -/
theorem redirection_ne (linked : Linked graph) (hTarget : target ∈ graph.order)
    (hGone : gone = target ∨ Dropped graph gone) : graph.redirection target ≠ some gone := by
  intro hSome
  obtain ⟨hResolved, hOther⟩ := Option.filter_eq_some_iff.mp hSome
  obtain dropped := hGone.resolve_left (by simpa using hOther)
  have hNext : (graph.node target).next ≠ some gone := (dropped.not_linked linked hTarget).2
  simp only [resolvedDestination?] at hResolved
  split at hResolved
  · next hDestination =>
      obtain rfl := Option.some.inj hResolved
      exact dropped.destination target hTarget hDestination
  · exact hNext hResolved
  · rw [Option.orElse_eq_orElse, Option.orElse_eq_or, Option.or_eq_some_iff] at hResolved
    rcases hResolved with hHead | ⟨-, hResolved⟩
    · exact (dropped.edges target).1 (List.mem_of_head? hHead)
    · exact hNext hResolved

theorem handlerSources_disposeOne (linked : Linked graph) (hTarget : target ∈ graph.order) (clearStack : Bool)
    {id : NodeId} (hId : id ∈ graph.order) (hOther : id ≠ target) :
    ((graph.disposeOne target clearStack).node id).handlerSources =
      (graph.node id).handlerSources.filter (· != target) := by
  have hKept : ((graph.rewired target).node id).handlerSources = (graph.node id).handlerSources :=
    field_rewired Node.handlerSources (fun _ _ _ => rfl) (fun _ => rfl)
  rw [node_disposeOne linked hTarget, if_neg hOther, if_pos hId]
  split <;> simp [addOperands, redirectNode, hKept]

theorem dropped_disposeOne (mirrored : Mirrored graph) (linked : Linked graph) (hTarget : target ∈ graph.order)
    (clearStack : Bool) (hGone : gone = target ∨ Dropped graph gone) :
    Dropped (graph.disposeOne target clearStack) gone := by
  have hPlaced {id : NodeId} : id ∈ (graph.disposeOne target clearStack).order ↔ id ≠ target ∧ id ∈ graph.order := by
    rw [order_disposeOne, linked.nodup.mem_erase_iff]
  refine ⟨?_, fun id => ?_, fun id hId => ?_, fun id hId => ?_⟩
  · rw [hPlaced]
    rintro ⟨hOther, hOrder⟩
    exact (hGone.resolve_left hOther).order hOrder
  · rw [edge_disposeOne linked hTarget clearStack mirrored, edge_disposeOne linked hTarget clearStack mirrored]
    rcases hGone with rfl | dropped
    · simp
    · simp [dropped.edges]
  · rw [destination_disposeOne linked hTarget]
    split
    · intro hMoved
      obtain ⟨moved, hMoved, ⟨⟩⟩ := Option.map_eq_some_iff.mp hMoved
      exact redirection_ne linked hTarget hGone hMoved
    · next hKept =>
        rintro hDestination
        rcases hGone with rfl | dropped
        · exact hKept ⟨(hPlaced.mp hId).2, (hPlaced.mp hId).1, hDestination⟩
        · exact dropped.destination id (hPlaced.mp hId).2 hDestination
  · rw [handlerSources_disposeOne linked hTarget clearStack (hPlaced.mp hId).2 (hPlaced.mp hId).1, List.mem_filter]
    rintro ⟨hSource, hOther⟩
    exact (hGone.resolve_left (by simpa using hOther)).handlerSources id (hPlaced.mp hId).2 hSource

/-- Every placed node keeps its operands, redirected. The one before the node disposed of takes the operands of that
node over, and those are not redirected. -/
theorem mem_operands_disposeOne (linked : Linked graph) (hTarget : target ∈ graph.order) (clearStack : Bool)
    {operand : Operand} :
    operand ∈ (graph.disposeOne target clearStack).operands ↔
      (∃ id ∈ graph.order, id ≠ target ∧ ∃ origin ∈ (graph.node id).stack,
          origin.redirect target (graph.redirection target) = operand) ∨
        (clearStack = false ∧ (graph.node target).previous.isSome ∧ operand ∈ (graph.node target).stack) := by
  have hStack {id : NodeId} (hId : id ∈ graph.order) (hOther : id ≠ target) :
      operand ∈ ((graph.disposeOne target clearStack).node id).stack ↔
        (∃ origin ∈ (graph.node id).stack, origin.redirect target (graph.redirection target) = operand) ∨
          ((graph.node target).previous = some id ∧ clearStack = false ∧ operand ∈ (graph.node target).stack) := by
    rw [stack_disposeOne linked hTarget, if_neg hOther]
    simp only [hId, ↓reduceIte]
    split
    · next hTakes => simp [hTakes]
    · next hKeeps =>
        rw [List.mem_map, ← and_assoc]
        simp [hKeeps]
  simp only [operands, List.mem_flatMap, order_disposeOne, linked.nodup.mem_erase_iff]
  constructor
  · rintro ⟨id, ⟨hOther, hId⟩, hOperand⟩
    rcases (hStack hId hOther).mp hOperand with hKept | ⟨hPrevious, hTaken⟩
    · exact .inl ⟨id, hId, hOther, hKept⟩
    · exact .inr ⟨hTaken.1, by simp [hPrevious], hTaken.2⟩
  · rintro (⟨id, hId, hOther, hKept⟩ | ⟨hClear, hSome, hOperand⟩)
    · exact ⟨id, ⟨hOther, hId⟩, (hStack hId hOther).mpr (.inl hKept)⟩
    · obtain ⟨before, hBefore⟩ := Option.isSome_iff_exists.mp hSome
      have hOther : before ≠ target := fun hSame => linked.previous_ne hTarget (hSame ▸ hBefore)
      have hId := linked.mem_of_previous hTarget hBefore
      exact ⟨before, ⟨hOther, hId⟩, (hStack hId hOther).mpr (.inr ⟨hBefore, hClear, hOperand⟩)⟩

/-- The node hands over an operand that names it. -/
def HandsOverMention (graph : Graph) (target : NodeId) (clearStack : Bool) : Prop :=
  clearStack = false ∧ (graph.node target).previous.isSome ∧
    ∃ operand ∈ (graph.node target).stack, operand.mentionsTarget target = true

theorem mentioned_disposeOne_self (linked : Linked graph) (hTarget : target ∈ graph.order) (clearStack : Bool) :
    (graph.disposeOne target clearStack).Mentioned target ↔ graph.HandsOverMention target clearStack := by
  simp only [Mentioned, mem_operands_disposeOne linked hTarget, HandsOverMention]
  constructor
  · rintro ⟨operand, ⟨id, hId, hOther, origin, hOrigin, rfl⟩ | ⟨hClear, hSome, hOperand⟩, hMentions⟩
    · rw [Operand.mentionsTarget_redirect (redirection_ne linked hTarget (.inl rfl)) (.inl rfl)] at hMentions
      cases hMentions
    · exact ⟨hClear, hSome, operand, hOperand, hMentions⟩
  · rintro ⟨hClear, hSome, operand, hOperand, hMentions⟩
    exact ⟨operand, .inr ⟨hClear, hSome, hOperand⟩, hMentions⟩

theorem not_mentioned_disposeOne (linked : Linked graph) (hTarget : target ∈ graph.order) (clearStack : Bool)
    (dropped : Dropped graph gone) (hNot : ¬graph.Mentioned gone) :
    ¬(graph.disposeOne target clearStack).Mentioned gone := by
  have hBefore {id : NodeId} (hId : id ∈ graph.order) {operand : Operand} (hOperand : operand ∈ (graph.node id).stack) :
      operand.mentionsTarget gone = false := by
    rw [← Bool.not_eq_true]
    exact fun hMentions => hNot ⟨operand, List.mem_flatMap.mpr ⟨id, hId, hOperand⟩, hMentions⟩
  rintro ⟨operand, hOperand, hMentions⟩
  rw [mem_operands_disposeOne linked hTarget] at hOperand
  rcases hOperand with ⟨id, hId, -, origin, hOrigin, rfl⟩ | ⟨-, -, hOperand⟩
  · rw [Operand.mentionsTarget_redirect (redirection_ne linked hTarget (.inr dropped)) (.inr (hBefore hId hOrigin))]
      at hMentions
    cases hMentions
  · rw [hBefore hTarget hOperand] at hMentions
    cases hMentions

/-! ### Disposing -/

/-- A node that is left empty has taken over no operand. -/
theorem not_handsOver_of_isEmpty (linked : Linked graph) (hTarget : target ∈ graph.order) {clearStack : Bool}
    {before : NodeId} (hBefore : (graph.node target).previous = some before)
    (hEmpty : ((graph.disposeOne target clearStack).node before).stack = []) :
    ¬graph.HandsOverMention target clearStack := by
  rintro ⟨hClear, -, operand, hOperand, -⟩
  have hOther : before ≠ target := fun hSame => linked.previous_ne hTarget (hSame ▸ hBefore)
  rw [stack_disposeOne linked hTarget, if_neg hOther] at hEmpty
  simp only [hBefore, hClear, and_self, ↓reduceIte, List.append_eq_nil_iff] at hEmpty
  exact List.not_mem_nil (hEmpty.2 ▸ hOperand)

/-- The first node disposed of is named as long as it hands over an operand that names it. The others are named by
nothing, and so is every node that was so before. -/
theorem dropped_disposeFrom (mirrored : Mirrored graph) (linked : Linked graph) (fuel : Nat)
    (clearStack recursive : Bool) (hTarget : target ∈ graph.order) :
    let disposed := (graph.disposeFrom fuel target clearStack recursive).1
    let after := (graph.disposeFrom fuel target clearStack recursive).2
    Mirrored after ∧ Linked after ∧
      (∀ gone ∈ disposed, Dropped after gone ∧
        (after.Mentioned gone ↔ gone = target ∧ graph.HandsOverMention target clearStack)) ∧
      ∀ gone, Dropped graph gone → ¬graph.Mentioned gone → Dropped after gone ∧ ¬after.Mentioned gone := by
  induction fuel generalizing graph target with
  | zero => exact ⟨mirrored, linked, by simp [disposeFrom], fun gone dropped hNot => ⟨dropped, hNot⟩⟩
  | succ fuel ih =>
      have mirrored' := mirrored.disposeOne linked clearStack hTarget
      have linked' := linked.disposeOne clearStack hTarget
      have hFirst := dropped_disposeOne mirrored linked hTarget clearStack (.inl rfl)
      have hMentioned := mentioned_disposeOne_self linked hTarget clearStack
      have hOlder (gone : NodeId) (dropped : Dropped graph gone) (hNot : ¬graph.Mentioned gone) :=
        And.intro (dropped_disposeOne mirrored linked hTarget clearStack (.inr dropped))
          (not_mentioned_disposeOne linked hTarget clearStack dropped hNot)
      have hAlone : ∀ gone ∈ [target], Dropped (graph.disposeOne target clearStack) gone ∧
          ((graph.disposeOne target clearStack).Mentioned gone ↔
            gone = target ∧ graph.HandsOverMention target clearStack) := by
        intro gone hGone
        obtain rfl := List.mem_singleton.mp hGone
        exact ⟨hFirst, by simpa using hMentioned⟩
      simp only [disposeFrom, linked.live target hTarget, Bool.false_eq_true, ↓reduceIte]
      split
      · next before hBefore =>
          split
          · next hGoesOn =>
              have hEmpty : ((graph.disposeOne target clearStack).node before).stack = [] := by
                simpa using (Bool.and_eq_true_iff.mp (Bool.and_eq_true_iff.mp hGoesOn).1).2
              have hKeeps := not_handsOver_of_isEmpty linked hTarget hBefore hEmpty
              obtain ⟨mirrored'', linked'', hRest, hStays⟩ :=
                ih mirrored' linked' (mem_order_disposeOne linked hTarget hBefore clearStack)
              refine ⟨mirrored'', linked'', fun gone hGone => ?_, fun gone dropped hNot =>
                hStays gone (hOlder gone dropped hNot).1 (hOlder gone dropped hNot).2⟩
              rcases List.mem_cons.mp hGone with rfl | hGone
              · obtain ⟨dropped, hNot⟩ := hStays _ hFirst (mt hMentioned.mp hKeeps)
                exact ⟨dropped, iff_of_false hNot fun h => hKeeps h.2⟩
              · obtain ⟨dropped, hNames⟩ := hRest gone hGone
                refine ⟨dropped, iff_of_false (fun hMentions => ?_) fun h => hKeeps h.2⟩
                obtain ⟨rfl, -, -, operand, hOperand, -⟩ := hNames.mp hMentions
                exact List.not_mem_nil (hEmpty ▸ hOperand)
          · exact ⟨mirrored', linked', hAlone, hOlder⟩
      · exact ⟨mirrored', linked', hAlone, hOlder⟩

/-- Once nodes have been disposed of, nothing of a placed node names one of them, whatever they held and whatever led to
them, with one exception: a node that hands its operands to the node before it is still the target of those that named
it. If operands are cleared there is no exception. -/
theorem isReferenced_dispose (mirrored : Mirrored graph) (linked : Linked graph) (hTarget : target ∈ graph.order)
    (clearStack recursive : Bool) (hGone : gone ∈ (graph.dispose target clearStack recursive).1) :
    let after := (graph.dispose target clearStack recursive).2
    (after.isReferenced gone = true ↔ gone = target ∧ graph.HandsOverMention target clearStack) ∧
      ∀ id ∈ after.order, gone ∉ (after.node id).backedges ∧ gone ∉ (after.node id).handlerSources ∧
        (after.node id).previous ≠ some gone ∧ (after.node id).next ≠ some gone := by
  obtain ⟨mirrored', linked', hDisposed, -⟩ :=
    dropped_disposeFrom mirrored linked (graph.nodes.size + 1) clearStack recursive hTarget
  obtain ⟨dropped, hMentioned⟩ := hDisposed gone hGone
  exact ⟨(dropped.isReferenced_iff mirrored').trans hMentioned, fun id hId =>
    ⟨dropped.not_backedge mirrored' id, dropped.handlerSources id hId, dropped.not_linked linked' hId⟩⟩

/-- A loop of one node, whose condition jumps to the node itself. -/
def ownLoop : Graph :=
  Operation.run {} [.label 0, .append 0, .label 1, .append 1, .label 2, .append 2, .connect 0 1, .connect 1 1,
    .connect 1 2, .setDestination 0 (.node 1), .setDestination 1 (.node 2), .push 1 (Operation.jumpTo 1)]

example : (ownLoop.dispose 1 false false).2.isReferenced 1 = true ∧
    (ownLoop.dispose 1 true false).2.isReferenced 1 = false := by decide

end Graph

end Decompiler
