import Decompiler.Proofs.Arithmetic.Effect
import Decompiler.Proofs.Execution.Straight
import Decompiler.Proofs.Graph.Placement
import Decompiler.Proofs.Operand.Targets

/-!
Declarations of locals in a unit that is a single block. A local is declared by its first assignment or in a node of its
own in front of the block; neither changes what the statements return.
-/

namespace Decompiler.Arithmetic

open Placement

variable {graph after : Graph} {stack rest : List Operand} {operand declaration : Operand} {id : VariableId}
  {done : List VariableId} {slots : VariableId → UInt16} {locals : Locals}

/-! ### Statements that declare -/

/-- The statements return the same, whatever the locals are. -/
def ReturnSame (stack other : List Operand) : Prop :=
  ∀ slots locals, returnedBy? slots stack locals = returnedBy? slots other locals

theorem ReturnSame.cons {other : List Operand} (same : ReturnSame stack other) (operand : Operand) :
    ReturnSame (operand :: stack) (operand :: other) := by
  intro slots locals
  have hRest : returnedBy? slots stack = returnedBy? slots other := funext (same slots)
  rw [returnedBy?, returnedBy?, hRest]

/-- A declaration does nothing. -/
theorem returnedBy?_declaration (hKind : operand.kind = .declaration id) (rest : List Operand) :
    ReturnSame (operand :: rest) rest := by
  intro slots locals
  rw [returnedBy?, hKind]
  split <;> rfl

/-- An assignment that declares its target assigns the same. -/
theorem returnSame_declaring? (hDeclaring : declaring? id operand = some declaration) :
    declaration.isCondition = false ∧ ∀ rest, ReturnSame (declaration :: rest) (operand :: rest) := by
  unfold declaring? at hDeclaring
  split at hDeclaring
  · next target value hKind =>
      split at hDeclaring
      · next assigned declares hTarget =>
          split at hDeclaring
          · obtain rfl := Option.some.inj hDeclaring
            refine ⟨rfl, fun rest slots locals => ?_⟩
            obtain ⟨_, _, _, _, _, _⟩ := operand
            obtain ⟨_, _, _, _, _, _⟩ := target
            obtain rfl := hKind
            obtain rfl := hTarget
            rfl
          · cases hDeclaring
      · cases hDeclaring
  · cases hDeclaring

/-- No operand on the stack is a condition. -/
def NoConditions (stack : List Operand) : Prop := ∀ operand ∈ stack, operand.isCondition = false

/-- Declaring a variable at its first assignment changes nothing else. -/
theorem returnSame_declareFirst? (hDeclare : declareFirst? id stack = some rest) (hPlain : NoConditions stack) :
    ReturnSame rest stack ∧ NoConditions rest := by
  induction stack generalizing rest with
  | nil => cases hDeclare
  | cons operand stack ih =>
      obtain ⟨hOperand, hStack⟩ := List.forall_mem_cons.mp hPlain
      rw [declareFirst?] at hDeclare
      split at hDeclare
      · next declaration hDeclaring =>
          cases hDeclare
          obtain ⟨hCondition, hSame⟩ := returnSame_declaring? hDeclaring
          exact ⟨hSame stack, List.forall_mem_cons.mpr ⟨hCondition, hStack⟩⟩
      · split at hDeclare
        · cases hDeclare
        · obtain ⟨rest', hRest, rfl⟩ := Option.map_eq_some_iff.mp hDeclare
          obtain ⟨hSame, hConditions⟩ := ih hRest hStack
          exact ⟨hSame.cons operand, List.forall_mem_cons.mpr ⟨hOperand, hConditions⟩⟩

/-! ### Graphs with the same stacks -/

/-- Two graphs differ in edges, destinations and what is remembered of dominance at most. -/
structure SameStacks (before after : Graph) : Prop where
  order : after.order = before.order
  size : after.nodes.size = before.nodes.size
  node : ∀ id, (after.node id).stack = (before.node id).stack ∧
    (after.node id).yieldConvergence = (before.node id).yieldConvergence ∧
    (after.node id).disposed = (before.node id).disposed ∧
    (after.node id).previous = (before.node id).previous ∧ (after.node id).next = (before.node id).next

namespace SameStacks

variable {before middle : Graph}

theorem refl (graph : Graph) : SameStacks graph graph := ⟨rfl, rfl, fun _ => ⟨rfl, rfl, rfl, rfl, rfl⟩⟩

theorem trans (first : SameStacks before middle) (second : SameStacks middle after) : SameStacks before after := by
  refine ⟨second.order.trans first.order, second.size.trans first.size, fun id => ?_⟩
  obtain ⟨hStack, hYields, hDisposed, hPrevious, hNext⟩ := second.node id
  rw [hStack, hYields, hDisposed, hPrevious, hNext]
  exact first.node id

theorem ofSameBlocks (same : Graph.SameBlocks before after) : SameStacks before after := by
  refine ⟨same.order, same.size, fun id => ⟨?_, ?_, ?_, ?_, ?_⟩⟩
  · exact same.field Node.stack (fun _ => rfl) id
  · exact same.field Node.yieldConvergence (fun _ => rfl) id
  · exact same.field Node.disposed (fun _ => rfl) id
  · exact same.field Node.previous (fun _ => rfl) id
  · exact same.field Node.next (fun _ => rfl) id

theorem linked (same : SameStacks before after) (linked : Graph.Linked before) : Graph.Linked after :=
  linked.congr same.order same.size (fun id => (same.node id).2.2.1) (fun id => (same.node id).2.2.2.1)
    (fun id => (same.node id).2.2.2.2)

end SameStacks

/-- Operands without conditions name no node, so redirecting leaves them alone. -/
theorem sameStacks_redirectTo {source before created : NodeId} (hPlain : NoConditions (graph.node source).stack) :
    SameStacks graph (redirectTo before created graph source) := by
  have edges : SameStacks graph ((graph.disconnect source before).connect source created) :=
    (SameStacks.ofSameBlocks (Graph.sameBlocks_disconnect graph source before)).trans
      (.ofSameBlocks (Graph.sameBlocks_connect _ source created))
  unfold redirectTo
  generalize (graph.disconnect source before).connect source created = connected at edges ⊢
  refine edges.trans ⟨Graph.order_update _ _ _, Graph.size_update _ _ _, fun id => ?_⟩
  rw [Graph.node_update]
  split
  · next hSource =>
      obtain ⟨rfl, -⟩ := hSource
      refine ⟨?_, rfl, rfl, rfl, rfl⟩
      rw [(edges.node source).1]
      refine (List.map_congr_left fun operand hOperand => ?_).trans (List.map_id' _)
      have hTest := Option.not_isSome_iff_eq_none.mp (Bool.not_eq_true _ ▸ hPlain operand hOperand)
      exact Operand.retarget_eq_self hTest _ _
  · exact ⟨rfl, rfl, rfl, rfl, rfl⟩

/-- By induction on the sources. -/
theorem sameStacks_redirect {before created : NodeId} (sources : List NodeId)
    (hPlain : ∀ node, NoConditions (graph.node node).stack) :
    SameStacks graph (sources.foldl (redirectTo before created) graph) := by
  induction sources generalizing graph with
  | nil => exact .refl graph
  | cons source sources ih =>
      have first : SameStacks graph (redirectTo before created graph source) := sameStacks_redirectTo (hPlain source)
      rw [List.foldl_cons]
      generalize redirectTo before created graph source = redirected at first ⊢
      apply first.trans
      apply ih
      intro node
      rw [(first.node node).1]
      exact hPlain node

/-! ### One declaration -/

/-- The graph of a block for some variables of which declarations have been placed. The nodes in front of the block hold
declarations of them. -/
structure Placed (stack : List Operand) (done : List VariableId) (graph : Graph) : Prop where
  linked : Graph.Linked graph
  order : ∃ front, graph.order = front ++ [0]
  declarations : ∀ node ≠ 0, ∀ operand ∈ (graph.node node).stack, ∃ id ∈ done, operand.kind = .declaration id
  plain : NoConditions (graph.node 0).stack
  merges : (graph.node 0).yieldConvergence = false
  same : ReturnSame (graph.node 0).stack stack

namespace Placed

theorem noConditions (placed : Placed stack done graph) (node : NodeId) : NoConditions (graph.node node).stack := by
  by_cases hNode : node = 0
  · rw [hNode]
    exact placed.plain
  · intro operand hOperand
    obtain ⟨id, -, hKind⟩ := placed.declarations node hNode operand hOperand
    rw [Operand.isCondition, Operand.condition?, hKind]
    rfl

/-- More locals may have been declared. -/
theorem mono (placed : Placed stack done graph) (id : VariableId) : Placed stack (id :: done) graph :=
  { placed with
    declarations := fun node hNode operand hOperand => by
      obtain ⟨id', hId, hKind⟩ := placed.declarations node hNode operand hOperand
      exact ⟨id', List.mem_cons_of_mem _ hId, hKind⟩ }

/-- A declaration mentions its own variable only. -/
theorem users_eq (placed : Placed stack done graph) (hId : id ∉ done) :
    users graph id = if (graph.node 0).stack.any (·.references id) then [0] else [] := by
  obtain ⟨front, hOrder⟩ := placed.order
  have hFront : ∀ node ∈ front, ¬(graph.node node).stack.any (·.references id) = true := by
    intro node hNode hAny
    have hOther : node ≠ 0 := by
      rintro rfl
      have hNodup := placed.linked.nodup
      rw [hOrder] at hNodup
      exact (List.nodup_append.mp hNodup).2.2 0 hNode 0 (List.mem_singleton_self 0) rfl
    obtain ⟨operand, hOperand, hReferences⟩ := List.any_eq_true.mp hAny
    obtain ⟨id', hDone, hKind⟩ := placed.declarations node hOther operand hOperand
    obtain ⟨_, _, _, _, _, _⟩ := operand
    obtain rfl := hKind
    have hSame : id' = id := by
      simpa [Operand.references, Operand.walk, OperandKind.walkParts, Operand.mentions] using hReferences
    exact hId (hSame ▸ hDone)
  rw [users, hOrder, List.filter_append, List.filter_eq_nil_iff.mpr hFront, List.nil_append, List.filter_singleton,
    cond_eq_ite]

/-- A declaration in the first assignment changes nothing that is returned. -/
theorem declareIn? (placed : Placed stack done graph) (hDeclare : Placement.declareIn? graph 0 id = some after) :
    Placed stack done after := by
  obtain ⟨stack', hStack, rfl⟩ := Option.map_eq_some_iff.mp hDeclare
  obtain ⟨hSame, hPlain⟩ := returnSame_declareFirst? hStack placed.plain
  obtain ⟨front, hOrder⟩ := placed.order
  have hSize : 0 < graph.nodes.size := placed.linked.lt 0 (by rw [hOrder]; simp)
  have hNode : (graph.update 0 fun entry => { entry with stack := stack' }).node 0 =
      { graph.node 0 with stack := stack' } := Graph.node_update_self hSize _
  refine ⟨?_, ⟨front, hOrder⟩, ?_, ?_, ?_, ?_⟩
  · refine placed.linked.congr rfl (Graph.size_update _ _ _) (fun other => ?_) (fun other => ?_) (fun other => ?_)
    · exact Graph.field_update Node.disposed _ rfl
    · exact Graph.field_update Node.previous _ rfl
    · exact Graph.field_update Node.next _ rfl
  · intro node hNot
    rw [Graph.node_update_of_ne (Ne.symm hNot)]
    exact placed.declarations node hNot
  · rw [hNode]
    exact hPlain
  · rw [hNode]
    exact placed.merges
  · rw [hNode]
    exact fun slots locals => (hSame slots locals).trans (placed.same slots locals)

/-- The graph with the edges of a new node that is to declare a variable. -/
def leadThrough (before created : NodeId) (declaration : OperandKind) (type : TypeRef) (inserted : Graph) : Graph :=
  let supplied := { inserted with supply := ((Operand.make declaration type).run inserted.supply).2 }
  ((supplied.forwardIncoming before).foldl (redirectTo before created) supplied).connect created before

theorem sameStacks_leadThrough {before created : NodeId} {declaration : OperandKind} {type : TypeRef} {inserted : Graph}
    (hPlain : ∀ node, NoConditions (inserted.node node).stack) :
    SameStacks inserted (leadThrough before created declaration type inserted) := by
  let supplied := { inserted with supply := ((Operand.make declaration type).run inserted.supply).2 }
  have first : SameStacks inserted supplied := ⟨rfl, rfl, fun _ => ⟨rfl, rfl, rfl, rfl, rfl⟩⟩
  have second : SameStacks supplied ((supplied.forwardIncoming before).foldl (redirectTo before created) supplied) :=
    sameStacks_redirect _ hPlain
  exact (first.trans second).trans (.ofSameBlocks (Graph.sameBlocks_connect _ _ _))

/-- A node with the declaration is put before the block. -/
theorem run_insertDeclaration (before : NodeId) (id : VariableId) (type : TypeRef) (graph : Graph) :
    ((Placement.insertDeclaration before id type).run graph).2 =
      (leadThrough before (graph.insertBefore before).1 (.declaration id) type (graph.insertBefore before).2).update
        (graph.insertBefore before).1 fun node =>
          { node with
            destination := some (.node before), disposable := false
            stack := node.stack ++ [Operand.asStatement
              ((Operand.make (.declaration id) type).run (graph.insertBefore before).2.supply).1] } :=
  rfl

/-- A new node without operands was put right before the block. -/
structure InFront (graph inserted : Graph) : Prop where
  linked : Graph.Linked inserted
  order : ∀ front, graph.order = front ++ [0] → inserted.order = front ++ [graph.nodes.size] ++ [0]
  size : graph.nodes.size < inserted.nodes.size
  stack : ∀ node, (inserted.node node).stack = (graph.node node).stack
  merges : (inserted.node 0).yieldConvergence = (graph.node 0).yieldConvergence

/-- The new node is the next one of the arena, right before the block. -/
theorem inFront (placed : Placed stack done graph) :
    ∃ inserted, graph.insertBefore 0 = (graph.nodes.size, inserted) ∧ InFront graph inserted := by
  obtain ⟨front, hOrder⟩ := placed.order
  have hField {α : Type} (read : Node → α) (hLinks : Graph.LinkFree read) (hRead : ∀ name, read { name } = read {})
      (node : NodeId) :
      read ((graph.createAnonymous.2.between front graph.nodes.size [0]).node node) = read (graph.node node) :=
    (Graph.field_between read hLinks).trans (Graph.field_createAnonymous read hRead)
  refine ⟨_, Graph.insertBefore_eq placed.linked hOrder, ?_, ?_, ?_, ?_, ?_⟩
  · exact placed.linked.create hOrder
  · intro front' hOrder'
    obtain ⟨rfl, -⟩ := List.append_inj' (hOrder.symm.trans hOrder') rfl
    rw [Graph.order_between, List.append_assoc, List.singleton_append]
  · rw [Graph.size_between, Graph.createAnonymous, Graph.size_allocate]
    exact Nat.lt_succ_self _
  · exact hField Node.stack (fun _ _ _ => rfl) fun _ => rfl
  · exact hField Node.yieldConvergence (fun _ _ _ => rfl) (fun _ => rfl) 0

/-- A node for the declaration is put in front of the block. -/
theorem insertDeclaration (placed : Placed stack done graph) (id : VariableId) (type : TypeRef) :
    Placed stack (id :: done) ((Placement.insertDeclaration 0 id type).run graph).2 := by
  obtain ⟨inserted, hInsert, inFront⟩ := placed.inFront
  obtain ⟨front, hOrder⟩ := placed.order
  rw [run_insertDeclaration, hInsert]
  have same : SameStacks inserted (leadThrough 0 graph.nodes.size (.declaration id) type inserted) :=
    sameStacks_leadThrough fun node => by
      rw [inFront.stack]
      exact placed.noConditions node
  generalize leadThrough 0 graph.nodes.size (.declaration id) type inserted = connected at same ⊢
  have hSize : graph.nodes.size < connected.nodes.size := by
    rw [same.size]
    exact inFront.size
  have hZero : graph.nodes.size ≠ 0 := Nat.ne_of_gt (placed.linked.lt 0 (by simp [hOrder]))
  refine ⟨?_, ⟨front ++ [graph.nodes.size], ?_⟩, ?_, ?_, ?_, ?_⟩
  · refine (same.linked inFront.linked).congr rfl (Graph.size_update _ _ _) ?_ ?_ ?_
    · exact fun node => Graph.field_update Node.disposed _ rfl
    · exact fun node => Graph.field_update Node.previous _ rfl
    · exact fun node => Graph.field_update Node.next _ rfl
  · rw [Graph.order_update, same.order, inFront.order front hOrder]
  · intro node hNot operand hOperand
    by_cases hCreated : node = graph.nodes.size
    · subst hCreated
      rw [Graph.node_update_self hSize, (same.node _).1, inFront.stack, Graph.node_of_size_le (Nat.le_refl _),
        List.nil_append, List.mem_singleton] at hOperand
      rw [hOperand]
      exact ⟨id, List.mem_cons_self, rfl⟩
    · rw [Graph.node_update_of_ne (Ne.symm hCreated), (same.node node).1, inFront.stack] at hOperand
      obtain ⟨other, hOther, hKind⟩ := placed.declarations node hNot operand hOperand
      exact ⟨other, List.mem_cons_of_mem _ hOther, hKind⟩
  · rw [Graph.node_update_of_ne hZero, (same.node 0).1, inFront.stack]
    exact placed.plain
  · rw [Graph.node_update_of_ne hZero, (same.node 0).2.1, inFront.merges]
    exact placed.merges
  · rw [Graph.node_update_of_ne hZero, (same.node 0).1, inFront.stack]
    exact placed.same

/-- A variable that shares its slot with no other one is declared. -/
theorem placeOne (placed : Placed stack done graph) {table : LocalVariables} {progress : Progress} (hId : id ∉ done)
    (hSiblings : table.slotSiblings id = []) (hPending : progress.pending = []) :
    ∃ progress' after, (Placement.placeOne table [] progress id).run graph = (progress', after) ∧
      progress'.pending = [] ∧ Placed stack (id :: done) after := by
  have hUsers := placed.users_eq hId
  cases hAny : (graph.node 0).stack.any (·.references id) with
  | false =>
      simp only [hAny, Bool.false_eq_true, ↓reduceIte] at hUsers
      have hNone : (Graph.lowestCommonDominator []).run graph = pure (none, graph) := rfl
      refine ⟨progress, graph, ?_, hPending, placed.mono id⟩
      simp only [Placement.placeOne, StateT.run_bind, StateT.run_get, pure_bind, hUsers, hNone]
      rfl
  | true =>
      simp only [hAny, ↓reduceIte] at hUsers
      have hSome : (Graph.lowestCommonDominator [0]).run graph = pure (some 0, graph) := rfl
      cases hDeclare : Placement.declareIn? graph 0 id with
      | some after =>
          refine ⟨{ progress with anchors := (id, 0) :: progress.anchors }, after, ?_, hPending,
            (placed.declareIn? hDeclare).mono id⟩
          simp only [Placement.placeOne, StateT.run_bind, StateT.run_get, pure_bind, hUsers, hSome, List.contains_cons,
            beq_self_eq_true, Bool.true_or, ↓reduceIte, hDeclare]
          rfl
      | none =>
          have hLive : (graph.node 0).disposed = false := by
            obtain ⟨front, hOrder⟩ := placed.order
            exact placed.linked.live 0 (by simp [hOrder])
          have hClash : (clashes table progress id 0).run graph = pure (false, graph) := by
            rw [clashes, hSiblings]
            rfl
          refine ⟨{ progress with anchors := (id, 0) :: progress.anchors }, _, ?_, hPending,
            placed.insertDeclaration id (table.get id).type⟩
          simp only [Placement.placeOne, StateT.run_bind, StateT.run_get, pure_bind, hUsers, hSome, List.contains_cons,
            beq_self_eq_true, Bool.true_or, ↓reduceIte, hDeclare, hClash, hLive, placed.merges, List.contains_nil,
            Bool.or_self, Bool.false_eq_true]
          rfl

/-- By induction on the locals: each is declared once, in one way or the other. -/
theorem placeAll {table : LocalVariables} (ids : List VariableId) {progress : Progress}
    (placed : Placed stack done graph) (hNodup : ids.Nodup) (hFresh : ∀ id ∈ ids, id ∉ done)
    (hSiblings : ∀ id ∈ ids, table.slotSiblings id = [])
    (hPending : progress.pending = []) :
    ∃ progress' done' after, (ids.foldlM (Placement.placeOne table []) progress).run graph = (progress', after) ∧
      progress'.pending = [] ∧ Placed stack done' after := by
  induction ids generalizing progress done graph with
  | nil => exact ⟨progress, done, graph, rfl, hPending, placed⟩
  | cons id ids ih =>
      obtain ⟨hId, hRest⟩ := List.nodup_cons.mp hNodup
      obtain ⟨progress', after, hOne, hPending', placed'⟩ :=
        placed.placeOne (hFresh id List.mem_cons_self) (hSiblings id List.mem_cons_self) hPending
      have hFresh' : ∀ other ∈ ids, other ∉ id :: done := by
        intro other hOther
        rw [List.mem_cons, not_or]
        exact ⟨fun hSame => hId (hSame ▸ hOther), hFresh other (List.mem_cons_of_mem _ hOther)⟩
      obtain ⟨progress'', done', after', hRun, hPending'', placed''⟩ := ih placed' hRest hFresh'
        (fun other hOther => hSiblings other (List.mem_cons_of_mem _ hOther)) hPending'
      refine ⟨progress'', done', after', ?_, hPending'', placed''⟩
      rw [List.foldlM_cons, StateT.run_bind, hOne]
      exact hRun

/-- The declarations in front of the block do nothing. -/
theorem returnSame (placed : Placed stack done graph) : ReturnSame graph.operands stack := by
  obtain ⟨front, hOrder⟩ := placed.order
  have hNodup := placed.linked.nodup
  rw [hOrder] at hNodup
  have hFront : ∀ node ∈ front, node ≠ 0 := fun node hNode hZero =>
    (List.nodup_append.mp hNodup).2.2 node hNode 0 (List.mem_singleton_self 0) hZero
  have hDeclarations : ∀ operand ∈ front.flatMap fun id => (graph.node id).stack,
      ∃ id, operand.kind = .declaration id := by
    intro operand hOperand
    obtain ⟨node, hNode, hStack⟩ := List.mem_flatMap.mp hOperand
    obtain ⟨id, -, hKind⟩ := placed.declarations node (hFront node hNode) operand hStack
    exact ⟨id, hKind⟩
  rw [Graph.operands, hOrder, List.flatMap_append, List.flatMap_singleton]
  generalize front.flatMap (fun id => (graph.node id).stack) = declarations at hDeclarations
  intro slots locals
  induction declarations with
  | nil => exact placed.same slots locals
  | cons declaration declarations ih =>
      obtain ⟨⟨id, hKind⟩, hRest⟩ := List.forall_mem_cons.mp hDeclarations
      exact (returnedBy?_declaration hKind _ slots locals).trans (ih hRest)

end Placed

/-! ### The finished block -/

/-- Before the first declaration the block is all there is. -/
theorem placed_settled {block : Block} (hPlain : NoConditions block.stack) : Placed block.stack [] block.settled := by
  have hOther (node : NodeId) (hNode : node ≠ 0) : block.settled.node node = {} :=
    Graph.node_of_size_le (Nat.one_le_iff_ne_zero.mpr hNode)
  refine ⟨⟨List.nodup_singleton 0, ?_, ?_, ?_, ?_⟩, ⟨[], rfl⟩, ?_, hPlain, rfl, fun _ _ => rfl⟩
  · intro id hId
    rw [List.mem_singleton.mp hId]
    exact Nat.one_pos
  · intro id hId
    rw [List.mem_singleton.mp hId]
    rfl
  · intro before id after hOrder
    cases before with
    | nil =>
        obtain ⟨rfl, rfl⟩ := List.cons.inj hOrder
        exact ⟨rfl, rfl⟩
    | cons first before => simp [Block.settled, Block.graph] at hOrder
  · intro id hId _
    rw [hOther id fun hZero => hId (hZero ▸ List.mem_singleton_self 0)]
    exact ⟨rfl, rfl⟩
  · intro node hNode operand hOperand
    rw [hOther node hNode] at hOperand
    cases hOperand

/-- Finishing the block changes nothing of what its statements return. -/
theorem returnSame_finished {block : Block} (hPlain : NoConditions block.stack)
    (hOwn : ∀ id < block.locals.list.length, (block.locals.get id).parameter = false →
      block.locals.slotSiblings id = [])
    (options : Options) : ReturnSame (block.finished options).operands block.stack := by
  rw [Block.finished]
  split
  · let ids := (List.range block.locals.list.length).filter fun id =>
      !(block.locals.get id).parameter && !(Regions.catchVariables {}).contains id
    have hIds : ∀ id ∈ ids, block.locals.slotSiblings id = [] := by
      intro id hId
      obtain ⟨hLength, hParameter⟩ := List.mem_filter.mp hId
      rw [Bool.and_eq_true, Bool.not_eq_true'] at hParameter
      exact hOwn id (List.mem_range.mp hLength) hParameter.1
    obtain ⟨progress, done, after, hRun, hPending, placed⟩ :=
      (placed_settled hPlain).placeAll ids (List.nodup_range.filter _) (fun _ _ => List.not_mem_nil) hIds
        (rfl : ({} : Progress).pending = [])
    have hPlace : (Placement.place block.locals {} []).run block.settled = ((), after) := by
      have hStep : (Placement.place block.locals {} []).run block.settled =
          (ids.foldlM (Placement.placeOne block.locals []) {} >>= fun progress =>
            progress.pending.forM (placePending block.locals)).run block.settled := rfl
      rw [hStep, StateT.run_bind, hRun]
      change (progress.pending.forM (placePending block.locals)).run after = _
      rw [hPending]
      rfl
    rw [hPlace]
    exact placed.returnSame
  · exact (placed_settled hPlain).returnSame

end Decompiler.Arithmetic
