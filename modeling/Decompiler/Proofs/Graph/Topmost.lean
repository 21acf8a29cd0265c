import Decompiler.Proofs.Dominance.Query
import Decompiler.Proofs.Graph.FlatStack
import Decompiler.Proofs.Graph.Splicing

/-!
The top of the stack at the last node. What an instruction takes there is the last of all operands, whichever node holds
it; the node that held it keeps the rest, and no other node changes.
-/

namespace Decompiler.Graph

variable {graph : Graph} {here holder : NodeId} {ids others : List NodeId} {operand : Operand}
  {rest : List (NodeId × Operand)}

/-- What some nodes hold, each from the top on, with the nodes that hold it. -/
def held (graph : Graph) (ids : List NodeId) : List (NodeId × Operand) :=
  ids.flatMap fun id => (graph.node id).stack.reverse.map (id, ·)

/-- The nodes hold their operands one after the other. -/
theorem held_cons (graph : Graph) (id : NodeId) (ids : List NodeId) :
    graph.held (id :: ids) = (graph.node id).stack.reverse.map (id, ·) ++ graph.held ids := List.flatMap_cons

theorem held_append (graph : Graph) (ids others : List NodeId) :
    graph.held (ids ++ others) = graph.held ids ++ graph.held others := List.flatMap_append

/-- Only the stacks of the nodes matter. -/
theorem held_congr {after : Graph} (hSame : ∀ id ∈ ids, (after.node id).stack = (graph.node id).stack) :
    after.held ids = graph.held ids :=
  List.flatMap_congr fun id hId => by rw [hSame id hId]

/-- Without the nodes this is the flat stack. -/
theorem map_snd_held (graph : Graph) (ids : List NodeId) : (graph.held ids).map Prod.snd = graph.stacked ids := by
  rw [held, stacked, List.map_flatMap]
  exact List.flatMap_congr fun id _ => by rw [List.map_map]; exact List.map_id _

theorem length_held (graph : Graph) (ids : List NodeId) : (graph.held ids).length = (graph.stacked ids).length := by
  rw [← map_snd_held, List.length_map]

/-- An entry that is located is held by the node where it lies. -/
theorem StackNodes.getElem?_held (nodes : graph.StackNodes here ids) (hBound : ids.length ≤ graph.nodes.size + 1)
    {depth : Nat} (hFound : (graph.locate? here depth).map Prod.fst = some holder) :
    ∃ operand, (graph.held ids)[depth]? = some (holder, operand) ∧ graph.peek? here depth = some operand := by
  have hLocate : graph.locate? here depth = graph.locateFrom ids.length here depth := nodes.locateFrom_eq hBound depth
  by_cases hDepth : depth < (graph.stacked ids).length
  · obtain ⟨front, found, back, lower, entry, upper, rfl, hStack, hPlace, hEntry⟩ := nodes.locateFrom_some hDepth
    rw [hLocate, hEntry] at hFound
    obtain rfl : found = holder := Option.some.inj hFound
    refine ⟨entry, ?_, by rw [peek?, hLocate, hEntry]; simp [hStack]⟩
    rw [held_append, held_cons, hStack, List.reverse_append, List.reverse_cons, List.append_assoc, List.map_append,
      ← hPlace, ← length_held, List.append_assoc, List.getElem?_append_right (Nat.le_add_right _ _),
      Nat.add_sub_cancel_left, List.getElem?_append_right (by simp)]
    simp
  · rw [hLocate, nodes.locateFrom_none (Nat.not_lt.mp hDepth)] at hFound
    cases hFound

/-- The node whose operand is the first one held has it on its top. It is taken there; whatever comes in its place is
held first. -/
theorem StackNodes.top (nodes : graph.StackNodes here ids) (hNodup : ids.Nodup)
    (hBound : ids.length ≤ graph.nodes.size + 1) (hHeld : graph.held ids = (holder, operand) :: rest) :
    ∃ lower, (graph.node holder).stack = lower ++ [operand] ∧
      graph.take? here 0 = some (operand, graph.mapStack holder fun _ => lower) ∧
      ∀ middle, (graph.mapStack holder fun _ => lower ++ middle).held ids = middle.reverse.map (holder, ·) ++ rest := by
  have hDepth : 0 < (graph.stacked ids).length := by rw [← length_held, hHeld]; exact Nat.succ_pos _
  obtain ⟨front, found, back, lower, entry, upper, rfl, hStack, hPlace, hEntry⟩ := nodes.locateFrom_some hDepth
  obtain ⟨hFront, hUpper⟩ := Nat.eq_zero_of_add_eq_zero hPlace
  obtain rfl := List.length_eq_zero_iff.mp hUpper
  have hLocate : graph.locate? here 0 = some (found, lower.length) := (nodes.locateFrom_eq hBound 0).trans hEntry
  have hNothing : graph.held front = [] := List.length_eq_zero_iff.mp ((length_held graph front).trans hFront)
  rw [held_append, hNothing, held_cons, hStack, List.reverse_concat] at hHeld
  obtain ⟨hTop, hRest⟩ := List.cons.inj hHeld
  obtain ⟨rfl, rfl⟩ := Prod.mk.inj hTop
  refine ⟨lower, hStack, ?_, fun middle => ?_⟩
  · have hErased : (graph.mapStack found fun stack => stack.eraseIdx lower.length) =
        graph.mapStack found fun _ => lower :=
      update_congr _ (by simp [hStack, List.eraseIdx_append_of_length_le])
    rw [take?, hLocate, ← hErased]
    simp [hStack]
  · obtain ⟨_, hOnce, hDisjoint⟩ := List.nodup_append.mp hNodup
    have hNot (id : NodeId) (hId : id ∈ front) : found ≠ id := (hDisjoint id hId found List.mem_cons_self).symm
    have hBack (id : NodeId) (hId : id ∈ back) : found ≠ id := fun hSame => (List.nodup_cons.mp hOnce).1 (hSame ▸ hId)
    rw [held_append, held_cons, held_congr fun id hId => stack_mapStack_of_ne (hNot id hId) _, hNothing,
      held_congr fun id hId => stack_mapStack_of_ne (hBack id hId) _, stack_mapStack (by simp [hStack]), ← hRest]
    simp

/-! ### The last node -/

/-- The flat stack of the last node lies in the given nodes. The others come before them in the order of appearance. -/
structure LastStack (graph : Graph) (here : NodeId) (ids others : List NodeId) : Prop where
  nodes : graph.StackNodes here ids
  order : graph.order.reverse = ids ++ others
  nodup : (ids ++ others).Nodup
  bound : ids.length ≤ graph.nodes.size + 1

/-- The last of all operands is the topmost one of its node. -/
structure Top (graph : Graph) (here holder : NodeId) (operand : Operand) (lower : List Operand) : Prop where
  stack : (graph.node holder).stack = lower ++ [operand]
  take : graph.take? here 0 = some (operand, graph.mapStack holder fun _ => lower)
  operands : graph.operands = (graph.mapStack holder fun _ => lower).operands ++ [operand]
  put : ∀ middle, (graph.mapStack holder fun _ => lower ++ middle).operands =
    (graph.mapStack holder fun _ => lower).operands ++ middle

/-- What is pushed on what is left of a node comes at the end of it. -/
theorem push_mapStack (graph : Graph) (holder : NodeId) (lower : List Operand) (joined : Operand) :
    (graph.mapStack holder fun _ => lower).push holder joined = graph.mapStack holder fun _ => lower ++ [joined] := by
  have hNodes : (graph.nodes.modify holder fun node => { node with stack := lower }).modify holder (fun node =>
      { node with stack := node.stack ++ [joined] }) = graph.nodes.modify holder fun node =>
        { node with stack := lower ++ [joined] } :=
    Array.ext (by simp) fun place _ _ => by
      simp only [Array.getElem_modify]
      split <;> rfl
  exact congrArg (fun nodes => { graph with nodes }) hNodes

namespace Top

variable {lower : List Operand} (top : Top graph here holder operand lower)

include top

/-- What comes in place of the topmost operand changes its holder only. -/
theorem stack_put (middle : List Operand) (id : NodeId) :
    ((graph.mapStack holder fun _ => lower ++ middle).node id).stack =
      if id = holder then lower ++ middle else (graph.node id).stack := by
  split
  · next hSame => rw [hSame, stack_mapStack (by simp [top.stack])]
  · next hOther => exact stack_mapStack_of_ne (Ne.symm hOther) _

/-- What is taken is missing at its holder only. -/
theorem stack_taken (id : NodeId) :
    ((graph.mapStack holder fun _ => lower).node id).stack = if id = holder then lower else (graph.node id).stack := by
  simpa only [List.append_nil] using top.stack_put [] id

/-- A node keeps what it held, but for the operand on its top. -/
theorem starts (id : NodeId) : ((graph.mapStack holder fun _ => lower).node id).stack <+: (graph.node id).stack := by
  rw [top.stack_taken]
  split
  · next hSame => exact hSame ▸ top.stack ▸ List.prefix_append _ _
  · exact List.prefix_refl _

end Top

namespace LastStack

/-- The flat stack of the last node is an end of the order. -/
theorem exists_of_last (linked : Linked graph) (hLast : graph.order.getLast? = some here) :
    ∃ ids others, LastStack graph here ids others := by
  obtain ⟨front, hOrder⟩ := List.getLast?_eq_some_iff.mp hLast
  obtain ⟨ids, nodes, others, hIds⟩ := linked.stackNodes_placed front hOrder
  have hReverse : graph.order.reverse = ids ++ others := by rw [hOrder, List.reverse_concat, hIds]
  have hNodup : (ids ++ others).Nodup := hReverse ▸ List.nodup_reverse.mpr linked.nodup
  refine ⟨ids, others, nodes, hReverse, hNodup, Nat.le_succ_of_le ?_⟩
  refine linked.length_le (List.nodup_append.mp hNodup).1 fun id hId => ?_
  rw [← List.mem_reverse, hReverse]
  exact List.mem_append_left _ hId

variable (last : LastStack graph here ids others)

include last

theorem mapStack (holder : NodeId) (change : List Operand → List Operand) :
    LastStack (graph.mapStack holder change) here ids others :=
  ⟨last.nodes.congr fun _ => stackBelow?_mapStack _ _ _ _, last.order, last.nodup,
    (size_update graph holder _).symm ▸ last.bound⟩

/-- All operands are those that the nodes of the flat stack hold and those of the nodes before. -/
theorem operands_reverse :
    graph.operands.reverse = (graph.held ids).map Prod.snd ++ graph.stacked others := by
  rw [map_snd_held, ← stacked_append, ← last.order, operands, stacked, List.reverse_flatMap]
  rfl

/-- The operand that is held first is the last one of all. -/
theorem exists_top (hHeld : graph.held ids = (holder, operand) :: rest) :
    ∃ lower, Top graph here holder operand lower ∧ (graph.mapStack holder fun _ => lower).held ids = rest := by
  obtain ⟨hNodup, -, hDisjoint⟩ := List.nodup_append.mp last.nodup
  obtain ⟨lower, hStack, hTake, hPut⟩ := last.nodes.top hNodup last.bound hHeld
  have hHolder : holder ∈ ids := by
    obtain ⟨id, hId, hEntry⟩ := List.mem_flatMap.mp (hHeld ▸ List.mem_cons_self : (holder, operand) ∈ graph.held ids)
    obtain ⟨_, -, hSame⟩ := List.mem_map.mp hEntry
    exact (Prod.mk.inj hSame).1 ▸ hId
  have hOperands (middle : List Operand) : (graph.mapStack holder fun _ => lower ++ middle).operands =
      (rest.map Prod.snd ++ graph.stacked others).reverse ++ middle := by
    have hOthers : (graph.mapStack holder fun _ => lower ++ middle).stacked others = graph.stacked others :=
      stacked_congr fun id hId => stack_mapStack_of_ne (hDisjoint holder hHolder id hId) _
    rw [← List.reverse_inj, (last.mapStack holder _).operands_reverse, hPut middle, hOthers]
    simp [Function.comp_def]
  have hLower := hPut []
  have hBase := hOperands []
  simp only [List.append_nil, List.reverse_nil, List.map_nil, List.nil_append] at hLower hBase
  refine ⟨lower, ⟨hStack, hTake, ?_, fun middle => by rw [hOperands, hBase]⟩, hLower⟩
  rw [hBase, ← List.reverse_inj, last.operands_reverse, hHeld]
  simp

end LastStack

/-! ### Queries for dominators -/

namespace SameFacts

variable {before after : Graph} (same : SameFacts before after)

include same

/-- Where an entry lies is told by the stacks and the links. -/
theorem locateFrom_eq (fuel : Nat) (id : NodeId) (depth : Nat) :
    after.locateFrom fuel id depth = before.locateFrom fuel id depth := by
  have hStack (id : NodeId) : (after.node id).stack = (before.node id).stack := same.field Node.stack (fun _ => rfl) id
  have hBelow (id : NodeId) : after.stackBelow? id = before.stackBelow? id := by
    rw [stackBelow?, stackBelow?, same.field Node.incoming (fun _ => rfl), same.field Node.previous fun _ => rfl]
  induction fuel generalizing id depth with
  | zero => rfl
  | succ fuel ih => simp only [locateFrom, hStack, hBelow, ih]

theorem locate?_eq (id : NodeId) (depth : Nat) : after.locate? id depth = before.locate? id depth := by
  rw [locate?, locate?, same.size, same.locateFrom_eq]

theorem peek?_eq (id : NodeId) (depth : Nat) : after.peek? id depth = before.peek? id depth := by
  simp only [peek?, same.locate?_eq, same.field Node.stack fun _ => rfl]

/-- The same nodes hold the same operands. -/
theorem operands_eq : after.operands = before.operands := by
  rw [operands, operands, same.order]
  exact List.flatMap_congr fun id _ => same.field Node.stack (fun _ => rfl) id

end SameFacts

end Decompiler.Graph
