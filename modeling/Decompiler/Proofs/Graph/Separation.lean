import Decompiler.Proofs.Graph.Operation
import Decompiler.Proofs.Operand.Targets

/-!
Splitting a node separates its conditions from its other operands. What a node jumps to and where it leads may be the
same node, so one edge may serve the lower part, the upper part and the way out at once. No edge is lost and none is new
but those between the parts.
-/

namespace Decompiler

/-- What a node holds and where control goes from it. -/
def Node.outlook (node : Node) : List Operand × List NodeId × Option Destination :=
  (node.stack, node.outgoing, node.destination)

namespace Graph

variable {graph before middle after : Graph} {id other created source target a b : NodeId} {lower upper : List Operand}
  {kept moved sinks : List NodeId}

/-! ### The nodes beside a split -/

/-- A split makes one node. -/
theorem size_split? (hSplit : graph.split? id = some (created, after)) :
    created = graph.nodes.size ∧ after.nodes.size = graph.nodes.size + 1 := by
  obtain ⟨hCreated, lower, upper, kept, -, rfl⟩ := split?_eq_some hSplit
  obtain ⟨hNew, hSize, -⟩ := insertAfter_frame graph id
  have hLife := (SameLife.separate (graph.insertAfter id).2 id created lower upper kept
    (graph.node id).outgoing).trans (.takeOver _ created (graph.node id))
  exact ⟨hCreated.trans hNew, hLife.size.trans hSize⟩

/-- A field of a node that neither its neighbours nor the edges that enter it concern. -/
def Outward {α : Type} (read : Node → α) : Prop :=
  ∀ (node : Node) (incoming backedges : List NodeId) (previous next : Option NodeId),
    read { node with incoming, backedges, previous, next } = read node

theorem outward_outlook : Outward Node.outlook := fun _ _ _ _ _ => rfl

section

variable {α : Type} {read : Node → α} (hOutward : Outward read)

include hOutward

theorem Outward.linkFree : LinkFree read := fun node previous next =>
  hOutward node node.incoming node.backedges previous next

/-- An edge is outward where it begins only. -/
theorem field_connect_of_ne (hSource : source ≠ other) :
    read ((graph.connect source target).node other) = read (graph.node other) := by
  unfold connect
  split
  · rfl
  · refine (field_update read _ (hOutward _ _ _ _ _)).trans ?_
    rw [node_update_of_ne hSource]

theorem field_disconnect_of_ne (hSource : source ≠ other) :
    read ((graph.disconnect source target).node other) = read (graph.node other) := by
  refine (field_update read _ (hOutward _ _ _ _ _)).trans ?_
  rw [node_update_of_ne hSource]

theorem field_moveEdges_of_ne (hId : id ≠ other) (hCreated : created ≠ other) (kept moved sinks : List NodeId) :
    read ((sinks.foldl (moveEdge id created kept moved) graph).node other) = read (graph.node other) := by
  induction sinks generalizing graph with
  | nil => rfl
  | cons sink sinks ih =>
      refine ih.trans ?_
      unfold moveEdge
      split
      · exact (field_connect_of_ne hOutward hCreated).trans (field_disconnect_of_ne hOutward hId)
      · split
        · exact field_connect_of_ne hOutward hCreated
        · rfl

/-- Apart from the two parts, separating a block shows only where edges enter. -/
theorem field_separate_of_ne (hId : id ≠ other) (hCreated : created ≠ other) (lower upper : List Operand)
    (kept sinks : List NodeId) :
    read ((graph.separate id created lower upper kept sinks).node other) = read (graph.node other) := by
  have hShared : read ((graph.shareStack id created lower upper).node other) = read (graph.node other) := by
    rw [shareStack, mapStack, mapStack, node_update_of_ne hId, node_update_of_ne hCreated]
  rw [separate, setDestination, node_update_of_ne hId, field_connect_of_ne hOutward hId, failInto, mapStack,
    node_update_of_ne hId, field_moveEdges_of_ne hOutward hId hCreated, hShared]

theorem field_takeOver_of_ne (hCreated : created ≠ other) (node : Node) :
    read ((graph.takeOver created node).node other) = read (graph.node other) := by
  unfold takeOver
  split
  · rw [node_update_of_ne hCreated, field_connect_of_ne hOutward hCreated]
  · rw [node_update_of_ne hCreated]

theorem field_split?_of_ne (hBlank : ∀ name, read { name } = read {})
    (hSplit : graph.split? id = some (created, after)) (hOther : id ≠ other) (hApart : created ≠ other) :
    read (after.node other) = read (graph.node other) := by
  obtain ⟨-, lower, upper, kept, -, rfl⟩ := split?_eq_some hSplit
  rw [field_takeOver_of_ne hOutward hApart, field_separate_of_ne hOutward hOther hApart,
    field_insertAfter read hOutward.linkFree hBlank]

/-- Splitting concerns the edges that enter the other nodes and their neighbours only. -/
theorem field_splitFrom_of_ne (fuel : Nat) (hBlank : ∀ name, read { name } = read {}) (hOther : id ≠ other)
    (hOld : other < graph.nodes.size) :
    read ((graph.splitFrom fuel id).2.node other) = read (graph.node other) := by
  induction fuel generalizing graph id with
  | zero => rfl
  | succ fuel ih =>
      simp only [splitFrom]
      split
      · next created after hSplit =>
          obtain ⟨hCreated, hSize⟩ := size_split? hSplit
          have hApart : created ≠ other := hCreated ▸ Nat.ne_of_gt hOld
          have hFirst := field_split?_of_ne hOutward hBlank hSplit hOther hApart
          exact (ih hApart (hSize ▸ Nat.lt_succ_of_lt hOld)).trans hFirst
      · rfl

end

theorem disposable_separate (lower upper : List Operand) (kept sinks : List NodeId) :
    ((graph.separate id created lower upper kept sinks).node other).disposable = (graph.node other).disposable := by
  have hMoved (middle : Graph) := (SameBlocks.foldl (moveEdge id created kept (jumpTargets upper)) sinks
    (fun _ _ _ => sameBlocks_moveEdge _ _ _ _ _ _) middle).field Node.disposable (fun _ => rfl) other
  have hStack (graph : Graph) (place : NodeId) (change : List Operand → List Operand) :
      ((graph.mapStack place change).node other).disposable = (graph.node other).disposable :=
    field_update Node.disposable _ rfl
  refine (field_update Node.disposable _ rfl).trans ?_
  refine ((sameBlocks_connect _ id created).field Node.disposable (fun _ => rfl) other).trans ?_
  exact (hStack _ id _).trans ((hMoved _).trans ((hStack _ id _).trans (hStack _ created _)))

/-- No node that was there before is moved, disposed of or made disposable. -/
structure SplitFrame (graph after : Graph) : Prop where
  size : graph.nodes.size ≤ after.nodes.size
  order : ∀ other < graph.nodes.size, other ∈ after.order ↔ other ∈ graph.order
  disposed : ∀ other, (after.node other).disposed = (graph.node other).disposed
  disposable : ∀ other < graph.nodes.size, (after.node other).disposable = (graph.node other).disposable

theorem SplitFrame.refl (graph : Graph) : SplitFrame graph graph :=
  ⟨Nat.le_refl _, fun _ _ => .rfl, fun _ => rfl, fun _ _ => rfl⟩

theorem SplitFrame.trans (first : SplitFrame graph middle) (second : SplitFrame middle after) :
    SplitFrame graph after where
  size := first.size.trans second.size
  order other hOld := (second.order other (hOld.trans_le first.size)).trans (first.order other hOld)
  disposed other := (second.disposed other).trans (first.disposed other)
  disposable other hOld := (second.disposable other (hOld.trans_le first.size)).trans (first.disposable other hOld)

theorem frame_split? (hSplit : graph.split? id = some (created, after)) : SplitFrame graph after := by
  obtain ⟨rfl, hSize⟩ := size_split? hSplit
  obtain ⟨-, lower, upper, kept, -, rfl⟩ := split?_eq_some hSplit
  obtain ⟨-, -, hOrder⟩ := insertAfter_frame graph id
  have hLife := (SameLife.separate (graph.insertAfter id).2 id graph.nodes.size lower upper kept
    (graph.node id).outgoing).trans (.takeOver _ graph.nodes.size (graph.node id))
  refine ⟨hSize ▸ Nat.le_succ _, fun other hOld => ?_, fun other => ?_, fun other hOld => ?_⟩
  · rw [hLife.order, hOrder, or_iff_right (Nat.ne_of_lt hOld)]
  · rw [hLife.disposed, field_insertAfter Node.disposed (fun _ _ _ => rfl) (fun _ => rfl)]
  · have hOutward : Outward Node.disposable := fun _ _ _ _ _ => rfl
    rw [field_takeOver_of_ne hOutward (Nat.ne_of_gt hOld), disposable_separate,
      field_insertAfter Node.disposable (fun _ _ _ => rfl) (fun _ => rfl)]

/-- By induction on the splits that one node goes through. -/
theorem frame_splitFrom (graph : Graph) (fuel : Nat) (id : NodeId) : SplitFrame graph (graph.splitFrom fuel id).2 := by
  induction fuel generalizing graph id with
  | zero => exact .refl graph
  | succ fuel ih =>
      simp only [splitFrom]
      split
      · next created after hSplit => exact (frame_split? hSplit).trans (ih after created)
      · exact .refl graph

/-! ### Edges -/

/-- What becomes of one edge of the lower part. -/
theorem edge_moveEdge (hCreated : created < graph.nodes.size) {sink : NodeId} :
    (moveEdge id created kept moved graph sink).Edge a b ↔
      graph.Edge a b ∧ ¬(a = id ∧ b = sink ∧ sink ∉ kept) ∨ a = created ∧ b = sink ∧ (sink ∉ kept ∨ sink ∈ moved) := by
  unfold moveEdge
  by_cases hKept : sink ∈ kept
  · by_cases hMoved : sink ∈ moved
    · simp [hKept, hMoved, edge_connect hCreated]
    · simp [hKept, hMoved]
  · simp [hKept, edge_connect (size_disconnect graph id sink ▸ hCreated), edge_disconnect]

/-- An edge that the lower part does not keep moves to the upper one, and one that both need is there twice. -/
theorem edge_moveEdges (hCreated : created < graph.nodes.size) (hApart : id ≠ created)
    (kept moved sinks : List NodeId) :
    (sinks.foldl (moveEdge id created kept moved) graph).Edge a b ↔
      graph.Edge a b ∧ ¬(a = id ∧ b ∈ sinks ∧ b ∉ kept) ∨ a = created ∧ b ∈ sinks ∧ (b ∉ kept ∨ b ∈ moved) := by
  induction sinks generalizing graph with
  | nil => simp
  | cons sink sinks ih =>
      have hSize := (sameBlocks_moveEdge graph id created kept moved sink).size
      rw [List.foldl_cons, ih (hSize ▸ hCreated), edge_moveEdge hCreated, List.mem_cons]
      by_cases hSink : b = sink
      · subst hSink
        by_cases hId : a = id
        · subst hId
          simp [hApart]
          tauto
        · simp [hId]
          tauto
      · simp [hSink]

/-! ### One split -/

/-- The last operand of a run fails into a node if it is a condition. -/
def failing (next : NodeId) (run : List Operand) : List Operand :=
  run.modify (run.length - 1) (Operand.mapCondition fun test => { test with onFalse := some next })

/-- The lower part goes on with the upper one. -/
theorem destination_separate (hId : id < graph.nodes.size) (created : NodeId) (lower upper : List Operand)
    (kept sinks : List NodeId) :
    ((graph.separate id created lower upper kept sinks).node id).destination = some (.node created) := by
  have hLife := ((SameLife.shareStack graph id created lower upper).trans
    (.moveEdges _ id created kept (jumpTargets upper) sinks)).trans (.failInto _ id created)
  rw [separate, setDestination, node_update_self]
  rw [size_connect, hLife.size]
  exact hId

section

variable (hId : id < graph.nodes.size) (hCreated : created < graph.nodes.size) (hApart : id ≠ created)
  (lower upper : List Operand) (kept sinks : List NodeId)

include hId hCreated hApart

/-- The upper part gets the upper operands, and a condition at the end of the lower ones fails into it. -/
theorem stack_separate :
    ((graph.separate id created lower upper kept sinks).node id).stack = failing created lower ∧
      ((graph.separate id created lower upper kept sinks).node created).stack = upper := by
  have hShared (other : NodeId) := (SameBlocks.foldl (moveEdge id created kept (jumpTargets upper)) sinks
    (fun _ _ _ => sameBlocks_moveEdge _ _ _ _ _ _) (graph.shareStack id created lower upper)).field Node.stack
      (fun _ => rfl) other
  have hLife := (SameLife.shareStack graph id created lower upper).trans
    (.moveEdges _ id created kept (jumpTargets upper) sinks)
  have hConnected (middle : Graph) (other : NodeId) :
      (((middle.connect id created).setDestination id (.node created)).node other).stack = (middle.node other).stack :=
    (field_update Node.stack _ rfl).trans ((sameBlocks_connect middle id created).field Node.stack (fun _ => rfl) other)
  constructor
  · rw [separate, hConnected, failInto, mapStack, node_update_self (hLife.size ▸ hId)]
    simp only [hShared]
    rw [shareStack, mapStack, node_update_self (by simpa [mapStack] using hId)]
    rfl
  · rw [separate, hConnected, failInto, mapStack, node_update_of_ne hApart, hShared, shareStack, mapStack,
      node_update_of_ne hApart, mapStack, node_update_self hCreated]

theorem edge_separate :
    (graph.separate id created lower upper kept sinks).Edge a b ↔
      (graph.Edge a b ∧ ¬(a = id ∧ b ∈ sinks ∧ b ∉ kept) ∨
        a = created ∧ b ∈ sinks ∧ (b ∉ kept ∨ b ∈ jumpTargets upper)) ∨ a = id ∧ b = created := by
  have hShared := SameLife.shareStack graph id created lower upper
  have hLife := (hShared.trans (.moveEdges _ id created kept (jumpTargets upper) sinks)).trans (.failInto _ id created)
  have hStack (middle : Graph) (place : NodeId) (change : List Operand → List Operand) :
      (middle.mapStack place change).Edge a b ↔ middle.Edge a b := by
    rw [Edge, mapStack, field_update Node.outgoing _ rfl, Edge]
  rw [separate, Edge, setDestination, field_update Node.outgoing _ rfl, ← Edge, edge_connect (hLife.size ▸ hId),
    failInto, hStack, edge_moveEdges (hShared.size ▸ hCreated) hApart, shareStack, hStack, hStack]

end

theorem edge_takeOver (hCreated : created < graph.nodes.size) (node : Node) :
    (graph.takeOver created node).Edge a b ↔ graph.Edge a b ∨ a = created ∧ node.destination = some (.node b) := by
  unfold takeOver
  split
  · next target hDestination =>
      rw [Edge, field_update Node.outgoing _ rfl, ← Edge, edge_connect hCreated, hDestination]
      simp [eq_comm]
  · next hNone =>
      have hNowhere : ¬(a = created ∧ node.destination = some (.node b)) := fun hTarget => hNone b hTarget.2
      rw [Edge, field_update Node.outgoing _ rfl, ← Edge, or_iff_left hNowhere]

theorem stack_takeOver (graph : Graph) (created : NodeId) (node : Node) (other : NodeId) :
    ((graph.takeOver created node).node other).stack = (graph.node other).stack := by
  unfold takeOver
  split
  · exact (field_update Node.stack _ rfl).trans ((sameBlocks_connect _ _ _).field Node.stack (fun _ => rfl) other)
  · exact field_update Node.stack _ rfl

/-- A node comes apart into a lower part and a new node after it with the upper part. -/
def splitAt (graph : Graph) (id : NodeId) (lower upper : List Operand) : Graph :=
  ((graph.insertAfter id).2.separate id graph.nodes.size lower upper (jumpTargets lower)
    (graph.node id).outgoing).takeOver graph.nodes.size (graph.node id)

section

variable (hId : id < graph.nodes.size) (lower upper : List Operand)

include hId

theorem lt_insertAfter : id < (graph.insertAfter id).2.nodes.size ∧
    graph.nodes.size < (graph.insertAfter id).2.nodes.size ∧ id ≠ graph.nodes.size := by
  rw [(insertAfter_frame graph id).2.1]
  exact ⟨Nat.lt_succ_of_lt hId, Nat.lt_succ_self _, Nat.ne_of_lt hId⟩

theorem stack_splitAt :
    ((graph.splitAt id lower upper).node id).stack = failing graph.nodes.size lower ∧
      ((graph.splitAt id lower upper).node graph.nodes.size).stack = upper := by
  obtain ⟨hIdLt, hNewLt, hApart⟩ := lt_insertAfter hId
  rw [splitAt, stack_takeOver, stack_takeOver]
  exact stack_separate hIdLt hNewLt hApart lower upper _ _

theorem destination_splitAt :
    ((graph.splitAt id lower upper).node id).destination = some (.node graph.nodes.size) ∧
      ((graph.splitAt id lower upper).node graph.nodes.size).destination = (graph.node id).destination := by
  obtain ⟨hIdLt, hNewLt, hApart⟩ := lt_insertAfter hId
  have hOutward : Outward Node.destination := fun _ _ _ _ _ => rfl
  have hSize := (SameLife.separate (graph.insertAfter id).2 id graph.nodes.size lower upper (jumpTargets lower)
    (graph.node id).outgoing).size
  rw [splitAt, field_takeOver_of_ne hOutward hApart.symm, destination_separate hIdLt]
  exact ⟨rfl, destination_takeOver _ (Nat.lt_of_lt_of_eq hNewLt hSize.symm) _⟩

/-- The lower part keeps the edges that it jumps along. The upper part has the others, those that it jumps along too, and
the one to where the node led. -/
theorem edge_splitAt (mirrored : Mirrored graph) (target : NodeId) :
    ((graph.splitAt id lower upper).Edge id target ↔
      graph.Edge id target ∧ target ∈ jumpTargets lower ∨ target = graph.nodes.size) ∧
    ((graph.splitAt id lower upper).Edge graph.nodes.size target ↔
      graph.Edge id target ∧ (target ∉ jumpTargets lower ∨ target ∈ jumpTargets upper) ∨
        (graph.node id).destination = some (.node target)) := by
  obtain ⟨hIdLt, hNewLt, hApart⟩ := lt_insertAfter hId
  have hInserted (a b : NodeId) : (graph.insertAfter id).2.Edge a b ↔ graph.Edge a b := by
    rw [Edge, field_insertAfter Node.outgoing (fun _ _ _ => rfl) (fun _ => rfl), Edge]
  have hNone : ¬graph.Edge graph.nodes.size target := fun hEdge =>
    Nat.lt_irrefl _ (mirrored.edge_lt hEdge).1
  have hSize := (SameLife.separate (graph.insertAfter id).2 id graph.nodes.size lower upper (jumpTargets lower)
    (graph.node id).outgoing).size
  have hEdges (a : NodeId) : (graph.splitAt id lower upper).Edge a target ↔
      ((graph.Edge a target ∧ ¬(a = id ∧ graph.Edge id target ∧ target ∉ jumpTargets lower) ∨
        a = graph.nodes.size ∧ graph.Edge id target ∧ (target ∉ jumpTargets lower ∨ target ∈ jumpTargets upper)) ∨
          a = id ∧ target = graph.nodes.size) ∨
        a = graph.nodes.size ∧ (graph.node id).destination = some (.node target) := by
    rw [splitAt, edge_takeOver (Nat.lt_of_lt_of_eq hNewLt hSize.symm), edge_separate hIdLt hNewLt hApart, hInserted]
    rfl
  constructor
  · rw [hEdges]
    simp only [hApart, false_and, or_false, true_and]
    exact or_congr_left (and_congr_right fun hOld => by simp [hOld])
  · rw [hEdges]
    simp [hApart.symm, hNone]

end

/-- The operands are conditions, or none of them is. -/
def Uniform (operands : List Operand) : Prop :=
  (∀ operand ∈ operands, operand.isCondition = true) ∨ ∀ operand ∈ operands, operand.isCondition = false

/-- A node has come apart into its lower part, which is not mixed, and a new node with the upper part. -/
structure Parted (before after : Graph) (id created : NodeId) (lower upper : List Operand) : Prop where
  stack : lower ++ upper = (before.node id).stack
  nonempty : lower ≠ []
  uniform : Uniform lower
  fresh : created = before.nodes.size
  size : after.nodes.size = before.nodes.size + 1
  order : ∀ front back, before.order = front ++ id :: back → after.order = front ++ id :: created :: back
  operands : (after.node id).stack = failing created lower ∧ (after.node created).stack = upper
  destinations : (after.node id).destination = some (.node created) ∧
    (after.node created).destination = (before.node id).destination
  lowerEdge : ∀ target, after.Edge id target ↔ before.Edge id target ∧ target ∈ jumpTargets lower ∨ target = created
  upperEdge : ∀ target, after.Edge created target ↔
    before.Edge id target ∧ (target ∉ jumpTargets lower ∨ target ∈ jumpTargets upper) ∨
      (before.node id).destination = some (.node target)

/-- A split separates the operands below the lowest boundary from those above it. -/
theorem split?_splitAt (hSplit : graph.split? id = some (created, after)) : id < graph.nodes.size ∧
    created = graph.nodes.size ∧ ∃ lower upper, lower ++ upper = (graph.node id).stack ∧ lower ≠ [] ∧ Uniform lower ∧
      after = graph.splitAt id lower upper := by
  obtain ⟨rfl, -⟩ := size_split? hSplit
  obtain ⟨lower, upper, test, hStack, hSome, hLower, -, hAfter⟩ := split?_parts hSplit
  have hId : id < graph.nodes.size := by
    by_contra hOutside
    rw [node_of_size_le (Nat.not_lt.mp hOutside)] at hStack
    exact hSome (List.append_eq_nil_iff.mp hStack).1
  refine ⟨hId, rfl, lower, upper, hStack, hSome, ?_, hAfter⟩
  cases test with
  | true => exact .inl hLower
  | false => exact .inr hLower

theorem parted_split? (wellFormed : WellFormed graph) (hSplit : graph.split? id = some (created, after)) :
    ∃ lower upper, Parted graph after id created lower upper := by
  have hSize := (size_split? hSplit).2
  obtain ⟨hIdLt, rfl, lower, upper, hStack, hSome, uniform, rfl⟩ := split?_splitAt hSplit
  refine ⟨lower, upper, hStack, hSome, uniform, rfl, hSize, fun front back hOrder => ?_,
    stack_splitAt hIdLt lower upper, destination_splitAt hIdLt lower upper,
    fun target => (edge_splitAt hIdLt lower upper wellFormed.mirrored target).1,
    fun target => (edge_splitAt hIdLt lower upper wellFormed.mirrored target).2⟩
  have hLife := (SameLife.separate (graph.insertAfter id).2 id graph.nodes.size lower upper (jumpTargets lower)
    (graph.node id).outgoing).trans (.takeOver _ graph.nodes.size (graph.node id))
  rw [splitAt, hLife.order, insertAfter_eq wellFormed.linked hOrder, order_between, List.append_assoc]
  rfl

/-! ### Runs -/

/-- What a change of one item keeps in it is kept in every item. -/
theorem map_modify {α β : Type} {change : α → α} {read : α → β} (hKeep : ∀ item, read (change item) = read item)
    (items : List α) (place : Nat) : (items.modify place change).map read = items.map read := by
  induction items generalizing place with
  | nil => simp
  | cons item items ih =>
      cases place with
      | zero => simp [hKeep]
      | succ place => simp [ih]

/-- An operand that fails elsewhere still jumps where it did. -/
theorem jumpTargets_failing (next : NodeId) (run : List Operand) :
    jumpTargets (failing next run) = jumpTargets run := by
  have hJump : (failing next run).map (fun operand => operand.condition?.bind Condition.onTrue) =
      run.map fun operand => operand.condition?.bind Condition.onTrue := by
    refine map_modify (fun operand => ?_) run _
    rw [Operand.condition?_mapCondition]
    cases operand.condition? <;> rfl
  simpa [jumpTargets, List.filterMap_map, Function.comp_def] using congrArg (List.filterMap id) hJump

theorem uniform_congr {operands others : List Operand}
    (hSame : operands.map Operand.isCondition = others.map Operand.isCondition) : Uniform operands ↔ Uniform others := by
  unfold Uniform
  rw [← List.forall_mem_map (P := (· = true)), ← List.forall_mem_map (P := (· = false)), hSame, List.forall_mem_map,
    List.forall_mem_map]

theorem uniform_failing (next : NodeId) {run : List Operand} (uniform : Uniform run) : Uniform (failing next run) :=
  (uniform_congr (map_modify (Operand.isCondition_mapCondition _) run _)).mpr uniform

/-- A block that is not split is not mixed. -/
theorem uniform_of_split? (hSplit : graph.split? id = none) : Uniform (graph.node id).stack := by
  unfold split? at hSplit
  simp only at hSplit
  split at hSplit
  · next hStack => exact .inl (by simp [hStack])
  · next bottom rest hStack =>
      split at hSplit
      · next hUpper =>
          have hSame := List.dropWhile_eq_nil_iff.mp (List.isEmpty_iff.mp hUpper)
          cases hBottom : bottom.isCondition with
          | true => exact .inl (by simpa [hBottom] using hSame)
          | false => exact .inr (by simpa [hBottom] using hSame)
      · cases hSplit

/-! ### Splitting as often as it is mixed -/

/-- Splitting a node as often as it is mixed leaves it uniform, and the other nodes as uniform as they were. -/
theorem uniform_splitFrom (fuel : Nat) (hFuel : (graph.node id).stack.length ≤ fuel)
    (hOther : other = id ∨ Uniform (graph.node other).stack) :
    Uniform ((graph.splitFrom fuel id).2.node other).stack := by
  induction fuel generalizing graph id with
  | zero =>
      rcases hOther with rfl | uniform
      · exact .inl (by simp [splitFrom, List.length_eq_zero_iff.mp (Nat.le_zero.mp hFuel)])
      · exact uniform
  | succ fuel ih =>
      simp only [splitFrom]
      split
      · next created after hSplit =>
          obtain ⟨hId, hCreated, lower, upper, hStack, hSome, uniform, hAfter⟩ := split?_splitAt hSplit
          obtain ⟨hLower, hUpper⟩ := hCreated ▸ hAfter ▸ stack_splitAt hId lower upper
          have hLength : 0 < lower.length := List.length_pos_iff.mpr hSome
          refine ih ?_ ?_
          · rw [hUpper]
            rw [← hStack, List.length_append] at hFuel
            omega
          by_cases hNew : other = created
          · exact .inl hNew
          by_cases hSame : other = id
          · rw [hSame, hLower]
            exact .inr (uniform_failing created uniform)
          · have hOutward : Outward Node.stack := fun _ _ _ _ _ => rfl
            rw [field_split?_of_ne hOutward (fun _ => rfl) hSplit (Ne.symm hSame) (Ne.symm hNew)]
            exact hOther.imp_left fun hEqual => absurd hEqual hSame
      · next hSplit =>
          rcases hOther with rfl | uniform
          · exact uniform_of_split? hSplit
          · exact uniform

/-- The runs with the last operand of each one failing into the node of the next one. -/
def failingInTurn : List (List Operand) → List NodeId → List (List Operand)
  | run :: runs, next :: rest => failing next run :: failingInTurn runs rest
  | runs, _ => runs

/-- Edges lead from the node to where it leads and to where its conditions jump. -/
structure Routed (graph : Graph) (id : NodeId) : Prop where
  destination : ∀ target, (graph.node id).destination = some (.node target) → graph.Edge id target
  jumps : ∀ target ∈ jumpTargets (graph.node id).stack, graph.Edge id target

/-- A node has come apart into itself and new nodes after it, each with a run of its operands. -/
structure Separated (before after : Graph) (id : NodeId) (created : List NodeId) : Prop where
  fresh : ∀ part ∈ created, before.nodes.size ≤ part
  uniform : ∀ part ∈ id :: created, Uniform (after.node part).stack
  operands : ∃ runs : List (List Operand), runs.flatten = (before.node id).stack ∧
    (id :: created).map (fun part => (after.node part).stack) = failingInTurn runs created
  order : ∀ front back, before.order = front ++ id :: back → after.order = front ++ id :: (created ++ back)
  chained : (id :: created).IsChain fun part next =>
    after.Edge part next ∧ (after.node part).destination = some (.node next)
  destination : ∀ part ∈ (id :: created).getLast?, (after.node part).destination = (before.node id).destination
  jumps : ∀ part ∈ id :: created, ∀ target ∈ jumpTargets (after.node part).stack, after.Edge part target
  edges : ∀ target, (target ∉ created ∧ ∃ part ∈ id :: created, after.Edge part target) ↔ before.Edge id target

section

variable {created : List NodeId} {part : NodeId}

/-- A node that is not mixed stays whole. -/
theorem Separated.whole (uniform : Uniform (graph.node id).stack) (routed : Routed graph id) :
    Separated graph graph id [] where
  fresh := nofun
  uniform := by simpa using uniform
  operands := ⟨[(graph.node id).stack], by simp, rfl⟩
  order _ _ hOrder := hOrder
  chained := .singleton id
  destination := by simp
  jumps := by simpa using routed.jumps
  edges := by simp

/-- The upper part needs the edges that it gets. -/
theorem Parted.routed (parted : Parted before middle id part lower upper) (routed : Routed before id) :
    Routed middle part where
  destination target hTarget := by
    rw [parted.destinations.2] at hTarget
    exact (parted.upperEdge target).mpr (.inr hTarget)
  jumps target hTarget := by
    rw [parted.operands.2] at hTarget
    refine (parted.upperEdge target).mpr (.inl ⟨routed.jumps target ?_, .inr hTarget⟩)
    rw [← parted.stack, jumpTargets, List.filterMap_append]
    exact List.mem_append_right _ hTarget

/-- A node comes apart, and then its upper part does. -/
theorem Parted.separated (parted : Parted before middle id part lower upper) (routed : Routed before id)
    (hEdges : ∀ target, before.Edge id target → target < before.nodes.size)
    (rest : Separated middle after part created) (hStays : (after.node id).outlook = (middle.node id).outlook) :
    Separated before after id (part :: created) := by
  obtain ⟨hSameStack, hSameEdges, hSameDestination⟩ := by simpa [Node.outlook] using hStays
  have hStack : (after.node id).stack = failing part lower := hSameStack.trans parted.operands.1
  have hEdge (target : NodeId) :
      after.Edge id target ↔ before.Edge id target ∧ target ∈ jumpTargets lower ∨ target = part := by
    rw [Edge, hSameEdges, ← Edge, parted.lowerEdge]
  have hFresh : ∀ other ∈ part :: created, before.nodes.size ≤ other := by
    refine List.forall_mem_cons.mpr ⟨Nat.le_of_eq parted.fresh.symm, fun other hOther => ?_⟩
    exact Nat.le_trans (parted.size ▸ Nat.le_succ _) (rest.fresh other hOther)
  refine ⟨hFresh, ?_, ?_, fun front back hOrder => ?_, ?_, ?_, ?_, fun target => ?_⟩
  · rw [List.forall_mem_cons, hStack]
    exact ⟨uniform_failing part parted.uniform, rest.uniform⟩
  · obtain ⟨runs, hRuns, hStacks⟩ := rest.operands
    refine ⟨lower :: runs, ?_, ?_⟩
    · rw [List.flatten_cons, hRuns, parted.operands.2, parted.stack]
    · rw [List.map_cons, hStacks, hStack, failingInTurn]
  · have hMiddle : middle.order = (front ++ [id]) ++ part :: back := by simpa using parted.order front back hOrder
    simpa using rest.order _ _ hMiddle
  · have hNext : (after.node id).destination = some (.node part) := hSameDestination.trans parted.destinations.1
    exact List.isChain_cons_cons.mpr ⟨⟨(hEdge part).mpr (.inr rfl), hNext⟩, rest.chained⟩
  · rw [List.getLast?_cons_cons, ← parted.destinations.2]
    exact rest.destination
  · refine List.forall_mem_cons.mpr ⟨fun target hTarget => (hEdge target).mpr (.inl ?_), rest.jumps⟩
    rw [hStack, jumpTargets_failing] at hTarget
    refine ⟨routed.jumps target ?_, hTarget⟩
    rw [← parted.stack, jumpTargets, List.filterMap_append]
    exact List.mem_append_left _ hTarget
  · constructor
    · rintro ⟨hOld, other, hOther, hTarget⟩
      obtain ⟨hPart, hCreated⟩ := not_or.mp (mt List.mem_cons.mpr hOld)
      rcases List.mem_cons.mp hOther with rfl | hOther
      · exact (((hEdge target).mp hTarget).resolve_right hPart).1
      · have hUpper := (rest.edges target).mp ⟨hCreated, other, hOther, hTarget⟩
        rcases (parted.upperEdge target).mp hUpper with hMoved | hEnd
        · exact hMoved.1
        · exact routed.destination target hEnd
    · intro hOld
      have hNew : target ∉ part :: created := fun hNew => Nat.not_lt.mpr (hFresh target hNew) (hEdges target hOld)
      refine ⟨hNew, ?_⟩
      by_cases hKept : target ∈ jumpTargets lower
      · exact ⟨id, List.mem_cons_self, (hEdge target).mpr (.inl ⟨hOld, hKept⟩)⟩
      · have hUpper := (parted.upperEdge target).mpr (.inl ⟨hOld, .inl hKept⟩)
        obtain ⟨-, other, hOther, hTarget⟩ := (rest.edges target).mpr hUpper
        exact ⟨other, List.mem_cons_of_mem _ hOther, hTarget⟩

end

/-- A node comes apart into its runs, however many they are. -/
theorem separated_splitFrom (wellFormed : WellFormed graph) (hId : id ∈ graph.order) (routed : Routed graph id)
    (fuel : Nat) (hFuel : (graph.node id).stack.length ≤ fuel) :
    Separated graph (graph.splitFrom fuel id).2 id (graph.splitFrom fuel id).1 := by
  induction fuel generalizing graph id with
  | zero =>
      refine .whole (.inl ?_) routed
      simp [List.length_eq_zero_iff.mp (Nat.le_zero.mp hFuel)]
  | succ fuel ih =>
      simp only [splitFrom]
      split
      · next created after hSplit =>
          obtain ⟨lower, upper, parted⟩ := parted_split? wellFormed hSplit
          have hFirst := wellFormed.split? hId hSplit
          have hPlaced := (placed_split hSplit).1
          have hLower : 0 < lower.length := List.length_pos_iff.mpr parted.nonempty
          have hUpper : (after.node created).stack.length ≤ fuel := by
            rw [parted.operands.2]
            rw [← parted.stack, List.length_append] at hFuel
            omega
          have hIdLt := wellFormed.linked.lt id hId
          have hApart : created ≠ id := parted.fresh ▸ Nat.ne_of_gt hIdLt
          have hOld : id < after.nodes.size := parted.size ▸ Nat.lt_succ_of_lt hIdLt
          have rest := ih hFirst.wellFormed hPlaced (parted.routed routed) hUpper
          exact parted.separated routed (fun target hEdge => (wellFormed.mirrored.edge_lt hEdge).2) rest
            (field_splitFrom_of_ne outward_outlook fuel (fun _ => rfl) hApart hOld)
      · next hSplit => exact .whole (uniform_of_split? hSplit) routed

/-- A node that has edges to where it leads and to where its conditions jump comes apart into its runs. The new nodes follow
it in a row, each run still jumps along edges, and no successor is lost or new. -/
theorem separated_splitMixed (wellFormed : WellFormed graph) (hId : id ∈ graph.order) (routed : Routed graph id) :
    Separated graph (graph.splitMixed id).2 id (graph.splitMixed id).1 :=
  separated_splitFrom wellFormed hId routed _ (Nat.le_refl _)

section Fixed

/-- A statement between two conditions. The lower condition jumps where control goes after the node. -/
def mixed : Graph :=
  Operation.run {} [.label 0, .append 0, .label 1, .append 1, .label 2, .append 2, .connect 0 1, .connect 0 2,
    .setDestination 0 (.node 2), .push 0 (Operation.jumpTo 2), .push 0 Operation.zero, .push 0 (Operation.jumpTo 1)]

theorem separated_splitMixed_mixed : WellFormed mixed ∧ 0 ∈ mixed.order ∧ Routed mixed 0 ∧
    Separated mixed (mixed.splitMixed 0).2 0 [3, 4] ∧ ((mixed.splitMixed 0).2.node 0).outgoing = [2, 3] ∧
    ((mixed.splitMixed 0).2.node 4).outgoing = [1, 2] := by
  have wellFormed : WellFormed mixed := (Operation.run_keeps .empty _ (by decide)).wellFormed
  have routed : Routed mixed 0 := by
    refine ⟨fun target hTarget => ?_, ?_⟩
    · obtain rfl : target = 2 := Destination.node.inj (Option.some.inj (hTarget.symm.trans (by decide)))
      unfold Edge
      decide
    · unfold Edge
      decide
  exact ⟨wellFormed, by decide, routed, separated_splitMixed wellFormed (by decide) routed, by decide, by decide⟩

end Fixed

end Graph

end Decompiler
