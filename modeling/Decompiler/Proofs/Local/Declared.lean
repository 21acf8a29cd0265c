import Decompiler.Proofs.Dominance.Inside
import Decompiler.Proofs.Local.Erasing

/-!
Which variables a graph declares, and how often. Each of the three ways to declare a variable declares it once, declares
no other one, and is undone by the erasure of declarations.
-/

namespace Decompiler.Placement

open Graph Operand

variable {origin graph after : Graph} {declared : VariableId → Prop} {id other : VariableId} {node : NodeId}

/-! ### Counting declarations -/

/-- How often operands declare a variable, at any depth. -/
def declarationsAmong (operands : List Operand) (id : VariableId) : Nat :=
  (operands.flatMap walk).countP (·.declares id)

/-- How often the live operands declare a variable. -/
def declarationsIn (graph : Graph) (id : VariableId) : Nat := declarationsAmong graph.operands id

theorem declarationsAmong_nil (id : VariableId) : declarationsAmong [] id = 0 := rfl

theorem declarationsAmong_cons (operand : Operand) (operands : List Operand) (id : VariableId) :
    declarationsAmong (operand :: operands) id = operand.declarations id + declarationsAmong operands id := by
  rw [declarationsAmong, List.flatMap_cons, List.countP_append]
  rfl

theorem declarationsAmong_append (front back : List Operand) (id : VariableId) :
    declarationsAmong (front ++ back) id = declarationsAmong front id + declarationsAmong back id := by
  rw [declarationsAmong, List.flatMap_append, List.countP_append]
  rfl

theorem declarationsAmong_eq_zero {operands : List Operand} :
    declarationsAmong operands id = 0 ↔ ∀ operand ∈ operands, operand.declarations id = 0 := by
  induction operands with
  | nil => simp [declarationsAmong_nil]
  | cons operand operands ih => rw [declarationsAmong_cons, Nat.add_eq_zero_iff, ih, List.forall_mem_cons]

theorem declarationsAmong_map {change : Operand → Operand}
    (hSame : ∀ operand, (change operand).declarations id = operand.declarations id) (operands : List Operand) :
    declarationsAmong (operands.map change) id = declarationsAmong operands id := by
  induction operands with
  | nil => rfl
  | cons operand operands ih => rw [List.map_cons, declarationsAmong_cons, declarationsAmong_cons, hSame, ih]

/-- Nodes whose stacks declare a variable as often as before do so together. -/
theorem declarationsAmong_congr {nodes : List NodeId}
    (hSame : ∀ node ∈ nodes,
      declarationsAmong (after.node node).stack id = declarationsAmong (graph.node node).stack id) :
    declarationsAmong (nodes.flatMap fun node => (after.node node).stack) id =
      declarationsAmong (nodes.flatMap fun node => (graph.node node).stack) id := by
  induction nodes with
  | nil => rfl
  | cons node nodes ih =>
      obtain ⟨hNode, hNodes⟩ := List.forall_mem_cons.mp hSame
      rw [List.flatMap_cons, List.flatMap_cons, declarationsAmong_append, declarationsAmong_append, hNode, ih hNodes]

/-- One stack declares a variable more often than before. -/
theorem declarationsIn_eq_add {more : Nat} (hNodup : graph.order.Nodup) (hNode : node ∈ graph.order)
    (hOrder : after.order = graph.order)
    (hMore : declarationsAmong (after.node node).stack id = declarationsAmong (graph.node node).stack id + more)
    (hSame : ∀ other ≠ node, (after.node other).stack = (graph.node other).stack) :
    declarationsIn after id = declarationsIn graph id + more := by
  obtain ⟨front, back, hMiddle⟩ := List.append_of_mem hNode
  rw [hMiddle, List.nodup_middle, List.nodup_cons, List.mem_append, not_or] at hNodup
  have hPart {part : List NodeId} (hOther : node ∉ part) :
      declarationsAmong (part.flatMap fun node => (after.node node).stack) id =
        declarationsAmong (part.flatMap fun node => (graph.node node).stack) id :=
    declarationsAmong_congr fun other hMember => by rw [hSame other fun hEq => hOther (hEq ▸ hMember)]
  simp only [declarationsIn, operands, hOrder, hMiddle, List.flatMap_append, List.flatMap_cons,
    declarationsAmong_append, hPart hNodup.1.1, hPart hNodup.1.2, hMore]
  omega

/-- The variables with the property are declared once, the others nowhere. What declares a variable is a statement of
its own. -/
structure Declares (declared : VariableId → Prop) (graph : Graph) : Prop where
  once : ∀ id, declared id → declarationsIn graph id = 1
  none : ∀ id, ¬declared id → declarationsIn graph id = 0
  whole : ∀ operand ∈ graph.operands, operand.DeclaresWhole

/-- One more variable is declared. -/
theorem Declares.more (declares : Declares declared graph) (hNew : ¬declared id)
    (hCount : ∀ other, declarationsIn after other = declarationsIn graph other + if other = id then 1 else 0)
    (hWhole : ∀ operand ∈ after.operands, operand.DeclaresWhole) :
    Declares (fun other => declared other ∨ other = id) after where
  once other hDeclared := by
    rw [hCount]
    by_cases hSame : other = id
    · rw [if_pos hSame, hSame, declares.none id hNew]
    · rw [if_neg hSame, declares.once other (hDeclared.resolve_right hSame)]
  none other hDeclared := by
    rw [not_or] at hDeclared
    rw [hCount, if_neg hDeclared.2, declares.none other hDeclared.1]
  whole := hWhole

theorem declarationsAmong_redirectedStack (sources : List NodeId) (before created : NodeId) (graph : Graph)
    (node : NodeId) (id : VariableId) : declarationsAmong (redirectedStack sources before created graph node) id =
      declarationsAmong (graph.node node).stack id := by
  rw [redirectedStack]
  split
  · exact declarationsAmong_map (declarations_retarget before created · id) _
  · rfl

/-- The declaration in a node of its own is counted too. -/
theorem declarationsIn_inserted {before : NodeId} {declaration : Operand}
    (inserted : Inserted before declaration graph after) (hLt : ∀ node ∈ graph.order, node < graph.nodes.size)
    (id : VariableId) : declarationsIn after id = declarationsIn graph id + declaration.declarations id := by
  obtain ⟨front, back, hOrder, hAfter⟩ := inserted.order
  have hFresh : graph.nodes.size ∉ front ++ back := fun hMember => Nat.lt_irrefl _ (hLt _ (hOrder ▸ hMember))
  rw [List.mem_append, not_or] at hFresh
  have hPart {part : List NodeId} (hOther : graph.nodes.size ∉ part) :
      declarationsAmong (part.flatMap fun node => (after.node node).stack) id =
        declarationsAmong (part.flatMap fun node => (graph.node node).stack) id :=
    declarationsAmong_congr fun node hNode => by
      rw [inserted.stack node fun hSame => hOther (hSame ▸ hNode), declarationsAmong_redirectedStack]
  simp only [declarationsIn, operands, hAfter, hOrder, List.flatMap_append, List.flatMap_cons, declarationsAmong_append,
    hPart hFresh.1, hPart hFresh.2, inserted.created, declarationsAmong_cons, declarationsAmong_nil]
  omega

/-- The sources of a node lie in the arena if those of its incoming edges and of the regions that it handles do. -/
theorem inside_of_mirrored (mirrored : Mirrored graph)
    (hSources : ∀ id, ∀ source ∈ (graph.node id).handlerSources, source < graph.nodes.size)
    (hRemembered : ∀ id found, (graph.node id).dominator = .known (some found) → found < graph.nodes.size) :
    Inside (· < graph.nodes.size) graph where
  sources id source hSource := by
    rcases mem_dominanceSources.mp hSource with ⟨hIncoming, -⟩ | hHandled
    · exact (mirrored.edge_lt (mirrored.mem_incoming.mp hIncoming)).1
    · exact hSources id source hHandled
  remembered := hRemembered

/-- The variable occurs in a live operand. -/
def Occurs (graph : Graph) (id : VariableId) : Prop := ∃ operand ∈ graph.operands, operand.references id = true

instance (graph : Graph) (id : VariableId) : Decidable (Occurs graph id) := inferInstanceAs (Decidable (∃ _ ∈ _, _))

/-! ### Graphs with some declarations -/

/-- Declarations of the variables with the property have been placed, and nothing else was changed. -/
structure Placing (origin : Graph) (declared : VariableId → Prop) (graph : Graph) : Prop where
  erases : Erases origin graph
  declares : Declares declared graph
  inside : Inside (· < graph.nodes.size) graph

namespace Placing

variable (placing : Placing origin declared graph)

include placing

theorem congrDeclared {others : VariableId → Prop} (hSame : ∀ id, others id ↔ declared id) :
    Placing origin others graph := by
  rwa [show others = declared from funext fun id => propext (hSame id)]

theorem declarations_eq_zero (hNew : ¬declared id) {operand : Operand} (hOperand : operand ∈ graph.operands) :
    operand.declarations id = 0 :=
  declarationsAmong_eq_zero.mp (placing.declares.none id hNew) operand hOperand

/-- Queries for dominators change neither stacks nor edges. -/
theorem sameFacts (same : SameFacts graph after) (inside : Inside (· < graph.nodes.size) after) :
    Placing origin declared after := by
  have hStack := same.field Node.stack fun _ => rfl
  have hOperands : after.operands = graph.operands := by simp only [operands, same.order, hStack]
  have hMirrored : Mirrored after := placing.erases.mirrored.congr fun id =>
    ⟨same.field Node.outgoing (fun _ => rfl) id, same.field Node.incoming (fun _ => rfl) id,
      same.field Node.backedges (fun _ => rfl) id⟩
  have hCount (id : VariableId) : declarationsIn after id = declarationsIn graph id := by
    rw [declarationsIn, declarationsIn, hOperands]
  exact
  { erases := placing.erases.congr same.order same.size hMirrored (same.field Node.outgoing fun _ => rfl)
      (same.field Node.destination fun _ => rfl) (same.field untouched fun _ => rfl) (fun id _ => hStack id)
      fun id _ stand => by rw [hStack]
    declares :=
    { once := fun id hDeclared => (hCount id).trans (placing.declares.once id hDeclared)
      none := fun id hNone => (hCount id).trans (placing.declares.none id hNone)
      whole := hOperands ▸ placing.declares.whole }
    inside := same.size ▸ inside }

/-- New operands change the supply only. -/
theorem supply (supply : Supply) : Placing origin declared { graph with supply } :=
  placing.sameFacts ⟨rfl, rfl, rfl, fun _ => rfl⟩ ⟨placing.inside.sources, placing.inside.remembered⟩

/-- A node with an operand that is no declaration was there before. -/
theorem mem_order_of_mem_stack (hNode : node ∈ graph.order) {operand : Operand}
    (hOperand : operand ∈ (graph.node node).stack) (hKind : operand.isDeclaration = false) : node ∈ origin.order := by
  rw [← placing.erases.order, List.mem_filter]
  refine ⟨hNode, decide_eq_true (Nat.lt_of_not_le fun hNew => ?_)⟩
  obtain ⟨-, ⟨declaration, hDeclaration, hStack⟩, -⟩ := placing.erases.made node ⟨hNew, placing.erases.lt node hNode⟩
  rw [hStack, List.mem_singleton] at hOperand
  simp [hOperand, hDeclaration] at hKind

/-- The stack of a node of before gets a declaration that the erasure undoes. -/
theorem restack (hNode : node ∈ origin.order) (hNew : ¬declared id) {stack : List Operand}
    (hErase : ∀ stand, eraseAll stand stack = eraseAll stand (graph.node node).stack)
    (hCount : ∀ other, declarationsAmong stack other =
      declarationsAmong (graph.node node).stack other + if other = id then 1 else 0)
    (hWhole : ∀ operand ∈ stack, operand.DeclaresWhole) :
    Placing origin (fun other => declared other ∨ other = id)
      (graph.update node fun entry => { entry with stack }) := by
  have hOrder : node ∈ graph.order := (List.mem_filter.mp (placing.erases.order ▸ hNode)).1
  have hSize := placing.erases.lt node hOrder
  have hSame : ((graph.update node fun entry => { entry with stack }).node node).stack = stack := by
    rw [node_update_self hSize]
  have hOther (other : NodeId) (hOther : other ≠ node) :
      ((graph.update node fun entry => { entry with stack }).node other).stack = (graph.node other).stack := by
    rw [node_update_of_ne (Ne.symm hOther)]
  have hMirrored : Mirrored (graph.update node fun entry => { entry with stack }) :=
    placing.erases.mirrored.congr fun _ =>
      ⟨field_update Node.outgoing _ rfl, field_update Node.incoming _ rfl, field_update Node.backedges _ rfl⟩
  exact
  { erases := by
      refine placing.erases.congr rfl (size_update _ _ _) hMirrored (fun _ => field_update Node.outgoing _ rfl)
        (fun _ => field_update Node.destination _ rfl) (fun _ => field_update untouched _ rfl)
        (fun other hMade => hOther other ?_) fun other _ stand => ?_
      · rintro rfl
        have hOld := (List.mem_filter.mp (placing.erases.order.symm ▸ hNode)).2
        exact Nat.not_lt.mpr hMade.1 (of_decide_eq_true hOld)
      · by_cases hChanged : other = node
        · rw [hChanged, hSame, hErase]
        · rw [hOther other hChanged]
    declares := by
      refine placing.declares.more hNew (fun other => ?_) fun operand hOperand => ?_
      · refine declarationsIn_eq_add placing.erases.nodup hOrder (order_update _ _ _) ?_ hOther
        rw [hSame, hCount]
      · obtain ⟨other, hMember, hStack⟩ := mem_operands.mp hOperand
        by_cases hChanged : other = node
        · exact hWhole operand (hSame ▸ hChanged ▸ hStack)
        · exact placing.declares.whole operand (mem_operands.mpr ⟨other, hMember, hOther other hChanged ▸ hStack⟩)
    inside :=
    { sources := fun other source hSource => by
        rw [size_update]
        refine placing.inside.sources other source ?_
        rwa [dominanceSources, field_update Node.handlerSources _ rfl,
          field_update Node.forwardIncoming _ rfl] at hSource
      remembered := fun other found hKnown => by
        rw [field_update Node.dominator _ rfl] at hKnown
        exact size_update graph node _ ▸ placing.inside.remembered other found hKnown } }

/-! ### The three ways to declare -/

/-- A variable is declared by an assignment. -/
theorem declareIn? (hNode : node ∈ graph.order) (hNew : ¬declared id)
    (hDeclare : Placement.declareIn? graph node id = some after) :
    Placing origin (fun other => declared other ∨ other = id) after := by
  obtain ⟨stack, hFirst, rfl⟩ := Option.map_eq_some_iff.mp hDeclare
  obtain ⟨front, operand, declaration, back, hStack, hDeclaring, rfl⟩ := declareFirst?_eq_some hFirst
  obtain ⟨target, value, marked, hKind, hTarget, -⟩ := declaring?_eq_some hDeclaring
  have hMember {inner : Operand} (hInner : inner ∈ front ++ operand :: back) : inner ∈ graph.operands :=
    mem_operands.mpr ⟨node, hNode, hStack ▸ hInner⟩
  have hOperand : operand ∈ front ++ operand :: back := List.mem_append_right _ List.mem_cons_self
  have hNone : operand.declarations id = 0 := placing.declarations_eq_zero hNew (hMember hOperand)
  have hStatement : operand.isDeclaration = false := by rw [isDeclaration, hKind]
  refine placing.restack (placing.mem_order_of_mem_stack hNode (hStack ▸ hOperand) hStatement) hNew
    (fun stand => ?_) (fun other => ?_) fun inner hInner => ?_
  · obtain ⟨hErase, hSame⟩ := erase_declaring? hDeclaring stand
    simp [hStack, eraseAll, hSame, hStatement, hErase]
  · simp only [hStack, declarationsAmong_append, declarationsAmong_cons, declarations_declaring? hDeclaring hNone]
    omega
  · rcases List.mem_append.mp hInner with hFront | hInner
    · exact placing.declares.whole inner (hMember (List.mem_append_left _ hFront))
    rcases List.mem_cons.mp hInner with rfl | hBack
    · intro other hDeclares
      by_cases hSame : other = id
      · exact hSame ▸ isDeclarationOf_declaring? hDeclaring
      -- The assignment has no other target that it could have declared before.
      · rw [declarations_declaring? hDeclaring hNone, if_neg hSame, Nat.add_zero] at hDeclares
        rcases placing.declares.whole operand (hMember hOperand) other hDeclares with hDeclaration | hAssign
        · simp [hKind] at hDeclaration
        · obtain ⟨target', value', hKind', hTarget'⟩ := hAssign
          obtain ⟨rfl, -⟩ : target = target' ∧ _ := by simpa [hKind] using hKind'
          exact absurd (OperandKind.localVariable.inj (hTarget.symm.trans hTarget')).1.symm hSame
    · exact placing.declares.whole inner (hMember (List.mem_append_right _ (List.mem_cons_of_mem _ hBack)))

/-- A variable is declared at the bottom of a node of before. -/
theorem declareBelow (hNode : node ∈ origin.order) (hNew : ¬declared id) {declaration : Operand}
    (hKind : declaration.kind = .declaration id) : Placing origin (fun other => declared other ∨ other = id)
      (graph.update node fun entry => { entry with stack := declaration :: entry.stack }) := by
  have hPlaced : node ∈ graph.order := (List.mem_filter.mp (placing.erases.order ▸ hNode)).1
  rw [update_congr (fun entry => { entry with stack := declaration :: (graph.node node).stack }) rfl]
  refine placing.restack hNode hNew (fun stand => ?_) (fun other => ?_) fun operand hOperand => ?_
  · have hStatement : declaration.isDeclaration = true := by rw [isDeclaration, hKind]
    rw [eraseAll, List.filter_cons_of_neg (by simp [hStatement]), eraseAll]
  · rw [declarationsAmong_cons, declarations_of_declaration hKind, Nat.add_comm]
  · rcases List.mem_cons.mp hOperand with rfl | hOld
    · exact declaresWhole_of_declaration hKind
    · exact placing.declares.whole operand (mem_operands.mpr ⟨node, hPlaced, hOld⟩)

/-- A variable is declared in a node of its own. -/
theorem insert {before : NodeId} {declaration : Operand} (hNew : ¬declared id)
    (hKind : declaration.kind = .declaration id) (inserted : Inserted before declaration graph after)
    (hBefore : before < graph.nodes.size) : Placing origin (fun other => declared other ∨ other = id) after where
  erases := placing.erases.insert inserted hBefore (by rw [isDeclaration, hKind])
  declares := by
    refine placing.declares.more hNew (fun other => ?_) fun operand hOperand => ?_
    · rw [declarationsIn_inserted inserted placing.erases.lt, declarations_of_declaration hKind]
    · obtain ⟨node, hNode, hStack⟩ := mem_operands.mp hOperand
      by_cases hCreated : node = graph.nodes.size
      · rw [hCreated, inserted.created, List.mem_singleton] at hStack
        exact hStack ▸ declaresWhole_of_declaration hKind
      · have hOld : node ∈ graph.order := ((mem_order_inserted inserted).mp hNode).resolve_left hCreated
        rw [inserted.stack node hCreated, redirectedStack] at hStack
        split at hStack
        · obtain ⟨old, hMember, rfl⟩ := List.mem_map.mp hStack
          exact (placing.declares.whole old (mem_operands.mpr ⟨node, hOld, hMember⟩)).retarget _ _
        · exact placing.declares.whole operand (mem_operands.mpr ⟨node, hOld, hStack⟩)
  inside := by
    refine inside_of_mirrored inserted.mirrored (fun other source hSource => ?_) fun other found hKnown => ?_
    · rw [inserted.sources] at hSource
      rw [inserted.size]
      exact Nat.lt_succ_of_lt (placing.inside.sources other source (mem_dominanceSources.mpr (.inr hSource)))
    · rw [inserted.dominator] at hKnown
      rw [inserted.size]
      exact Nat.lt_succ_of_lt (placing.inside.remembered other found hKnown)

/-! ### Occurrences -/

/-- What refers to a variable that is not declared yet is no declaration. -/
theorem isDeclaration_of_references (hNew : ¬declared id) {operand : Operand} (hOperand : operand ∈ graph.operands)
    (hReferences : operand.references id = true) : operand.isDeclaration = false := by
  by_contra hDeclaration
  have hNone := placing.declarations_eq_zero hNew hOperand
  obtain ⟨_, _, _, _, _, kind⟩ := operand
  cases kind <;> simp [isDeclaration] at hDeclaration
  rw [declarations_of_declaration rfl] at hNone
  simp_all [references, walk, OperandKind.walkParts, mentions]

/-- Declarations of other variables do not make a variable occur, nor do they hide it. -/
theorem occurs_iff (hNew : ¬declared id) : Occurs graph id ↔ Occurs origin id := by
  choose stand hStand using placing.erases.stands
  have hStack := placing.erases.stack stand (.of_standsFor hStand)
  constructor
  · rintro ⟨operand, hOperand, hReferences⟩
    obtain ⟨node, hNode, hMember⟩ := mem_operands.mp hOperand
    have hStatement := placing.isDeclaration_of_references hNew hOperand hReferences
    have hOld := placing.mem_order_of_mem_stack hNode hMember hStatement
    refine ⟨operand.erase stand, mem_operands.mpr ⟨node, hOld, ?_⟩,
      (references_erase stand operand id).trans hReferences⟩
    rw [← hStack node hOld, eraseAll]
    exact List.mem_map_of_mem (List.mem_filter.mpr ⟨hMember, by simp [hStatement]⟩)
  · rintro ⟨operand, hOperand, hReferences⟩
    obtain ⟨node, hNode, hMember⟩ := mem_operands.mp hOperand
    rw [← hStack node hNode, eraseAll] at hMember
    obtain ⟨now, hNow, rfl⟩ := List.mem_map.mp hMember
    have hPlaced : node ∈ graph.order := (List.mem_filter.mp (placing.erases.order.symm ▸ hNode)).1
    exact ⟨now, mem_operands.mpr ⟨node, hPlaced, (List.mem_filter.mp hNow).1⟩,
      (references_erase stand now id).symm.trans hReferences⟩

end Placing

end Decompiler.Placement
