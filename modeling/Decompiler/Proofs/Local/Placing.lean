import Decompiler.Proofs.Graph.Idle
import Decompiler.Proofs.Graph.Operation
import Decompiler.Proofs.Local.Declared

/-!
The declarations of a unit. Every variable that needs a declaration gets one, by whichever way it is declared and also
if it is left over at first, and nothing else changes.
-/

namespace Decompiler.Placement

open Graph Operand

variable {origin graph after : Graph} {declared : VariableId → Prop} {id : VariableId} {node : NodeId}
  {table : LocalVariables} {pinned : List NodeId} {progress next : Progress}

theorem occurs_of_mem_users (hNode : node ∈ users graph id) : Occurs graph id := by
  obtain ⟨hOrder, hAny⟩ := List.mem_filter.mp hNode
  obtain ⟨operand, hOperand, hReferences⟩ := List.any_eq_true.mp hAny
  exact ⟨operand, mem_operands.mpr ⟨node, hOrder, hOperand⟩, hReferences⟩

theorem users_eq_nil_iff : users graph id = [] ↔ ¬Occurs graph id := by
  rw [List.eq_nil_iff_forall_not_mem]
  constructor
  · rintro hNone ⟨operand, hOperand, hReferences⟩
    obtain ⟨node, hNode, hStack⟩ := mem_operands.mp hOperand
    exact hNone node (List.mem_filter.mpr ⟨hNode, List.any_eq_true.mpr ⟨operand, hStack, hReferences⟩⟩)
  · exact fun hNone node hNode => hNone (occurs_of_mem_users hNode)

/-- What becomes of a variable: it does not occur, or it is declared, or it is left over. -/
inductive Decided (origin : Graph) (declared : VariableId → Prop) (id : VariableId) (progress : Progress)
    (next : Progress) (after : Graph) : Prop where
  | unused (hNone : ¬Occurs origin id) (hPending : next.pending = progress.pending)
      (placing : Placing origin declared after)
  | placed (hOccurs : Occurs origin id) (hPending : next.pending = progress.pending)
      (placing : Placing origin (fun other => declared other ∨ other = id) after)
  | leftOver (hOccurs : Occurs origin id) (hPending : next.pending = progress.pending ++ [id])
      (placing : Placing origin declared after)

theorem inside_clashes {inside : NodeId → Prop} :
    GraphM.Ensures (Inside inside) (clashes table progress id node) fun _ => True := by
  have kept := GraphM.Ensures.compositional (Inside inside)
  refine kept.anyM (fun sibling => ?_) _
  split
  · refine kept.bind (inside_hasDominator _ _) fun dominated => ?_
    split
    · exact kept.pure _
    · exact inside_hasDominator _ _
  · exact kept.pure _

theorem decided_placeOne (placing : Placing origin declared graph) (hNew : ¬declared id) :
    GraphM.Yields graph (placeOne table pinned progress id) (Decided origin declared id progress) := by
  have hUsers : ∀ user ∈ users graph id, user < graph.nodes.size := fun user hUser =>
    placing.erases.lt user (List.mem_filter.mp hUser).1
  have hAsk : GraphM.Yields graph (lowestCommonDominator (users graph id)) fun answer asked =>
      AnswersInside (fun node => node < asked.nodes.size ∧ Occurs graph id) answer ∧ asked.order = graph.order ∧
        Placing origin declared asked := by
    obtain ⟨hAnswer, hInside⟩ := inside_lowestCommonDominator hUsers graph placing.inside
    have same := onlyAsks_lowestCommonDominator (users graph id) graph
    refine ⟨fun node hNode => ⟨same.size.symm ▸ hAnswer node hNode, ?_⟩, same.order, placing.sameFacts same hInside⟩
    by_contra hNone
    rw [users_eq_nil_iff.mpr hNone] at hNode
    cases hNode
  refine .look (hAsk.bind fun answer asked hAsked => ?_)
  obtain ⟨hAnswer, hOrder, placing'⟩ := hAsked
  cases answer with
  | none =>
      by_cases hNone : Occurs graph id
      · have hUsed : (users graph id).isEmpty = false := by simpa [users_eq_nil_iff] using hNone
        simp only [hUsed]
        exact .leftOver ((placing.occurs_iff hNew).mp hNone) rfl placing'
      · have hUnused : (users graph id).isEmpty = true := by simpa [users_eq_nil_iff] using hNone
        simp only [hUnused]
        exact .unused ((placing.occurs_iff hNew).not.mp hNone) rfl placing'
  | some node =>
      obtain ⟨hLt, hUsed⟩ := hAnswer node rfl
      have hOccurs : Occurs origin id := (placing.occurs_iff hNew).mp hUsed
      refine .look ?_
      split
      · next after hDeclared =>
          split at hDeclared
          · next hUser =>
              have hNode : node ∈ asked.order := hOrder ▸ (List.mem_filter.mp (List.contains_iff_mem.mp hUser)).1
              exact .placed hOccurs rfl (placing'.declareIn? hNode hNew hDeclared)
          · cases hDeclared
      · have hClash : GraphM.Yields asked (clashes table progress id node) fun _ after =>
            after.nodes.size = asked.nodes.size ∧ Placing origin declared after := by
          have same := onlyAsks_clashes table progress id node asked
          exact ⟨same.size, placing'.sameFacts same (inside_clashes asked placing'.inside).2⟩
        refine hClash.bind fun clash after hAfter => ?_
        obtain ⟨hSize, placing''⟩ := hAfter
        dsimp only
        split
        · exact .leftOver hOccurs rfl placing''
        · have hNode : node < after.nodes.size := hSize ▸ hLt
          obtain ⟨declaration, hKind, inserted⟩ :=
            inserted_insertDeclaration placing''.erases.mirrored hNode id (table.get id).type
          exact .placed hOccurs rfl (placing''.insert hNew hKind inserted hNode)

/-- A variable that was left over is declared in the end. -/
theorem placing_placePending (placing : Placing origin declared graph) (hNew : ¬declared id)
    (hOccurs : Occurs origin id) : GraphM.Yields graph (placePending table id) fun _ after =>
      Placing origin (fun other => declared other ∨ other = id) after := by
  refine .look ?_
  split
  · next after hFound =>
      obtain ⟨node, hNode, hDeclared⟩ := List.exists_of_findSome?_eq_some hFound
      exact placing.declareIn? hNode hNew hDeclared
  · split
    · next first hFirst =>
        obtain ⟨hOrder, hAny⟩ := List.mem_filter.mp (List.mem_of_head? hFirst)
        obtain ⟨operand, hOperand, hReferences⟩ := List.any_eq_true.mp hAny
        have hStatement :=
          placing.isDeclaration_of_references hNew (mem_operands.mpr ⟨first, hOrder, hOperand⟩) hReferences
        exact (placing.supply _).declareBelow (placing.mem_order_of_mem_stack hOrder hOperand hStatement) hNew rfl
    · next hNone =>
        have hUsers : users graph id = [] := List.head?_eq_none_iff.mp (Option.eq_none_iff_forall_ne_some.mpr hNone)
        exact absurd ((placing.occurs_iff hNew).mpr hOccurs) (users_eq_nil_iff.mp hUsers)

/-! ### All variables -/

/-- Some variables have been decided. Those that occur are declared or left over. -/
structure Underway (origin : Graph) (seen : List VariableId) (progress : Progress) (graph : Graph) : Prop where
  placing : Placing origin (fun id => (id ∈ seen ∧ Occurs origin id) ∧ id ∉ progress.pending) graph
  nodup : progress.pending.Nodup
  pending : ∀ id ∈ progress.pending, id ∈ seen ∧ Occurs origin id

theorem Underway.decide {seen : List VariableId} (underway : Underway origin seen progress graph) (hNew : id ∉ seen)
    (decided : Decided origin (fun id => (id ∈ seen ∧ Occurs origin id) ∧ id ∉ progress.pending) id progress next
      after) : Underway origin (seen ++ [id]) next after := by
  have hFresh : id ∉ progress.pending := fun hPending => hNew (underway.pending id hPending).1
  have hSeen (other : VariableId) (hOther : other ∈ progress.pending) : other ∈ seen ++ [id] ∧ Occurs origin other :=
    (underway.pending other hOther).imp_left (List.mem_append_left _)
  cases decided with
  | unused hNone hPending placing =>
      refine ⟨placing.congrDeclared fun other => ?_, hPending ▸ underway.nodup, hPending ▸ hSeen⟩
      rw [hPending, List.mem_append, List.mem_singleton]
      by_cases hSame : other = id <;> simp [hSame, hNone]
  | placed hOccurs hPending placing =>
      refine ⟨placing.congrDeclared fun other => ?_, hPending ▸ underway.nodup, hPending ▸ hSeen⟩
      rw [hPending, List.mem_append, List.mem_singleton]
      by_cases hSame : other = id <;> simp [hSame, hOccurs, hFresh]
  | leftOver hOccurs hPending placing =>
      refine ⟨placing.congrDeclared fun other => ?_, ?_, fun other hOther => ?_⟩
      · rw [hPending, List.mem_append, List.mem_append, List.mem_singleton]
        by_cases hSame : other = id <;> simp [hSame, hNew]
      · rw [hPending, List.nodup_append]
        exact ⟨underway.nodup, List.nodup_singleton id, fun other hOther last hLast hSame =>
          hFresh (List.mem_singleton.mp hLast ▸ hSame ▸ hOther)⟩
      · rw [hPending, List.mem_append, List.mem_singleton] at hOther
        rcases hOther with hOld | rfl
        · exact hSeen other hOld
        · exact ⟨List.mem_append_right _ (List.mem_singleton_self other), hOccurs⟩

theorem Underway.foldlM {seen locals : List VariableId} (underway : Underway origin seen progress graph)
    (hNodup : (seen ++ locals).Nodup) :
    GraphM.Yields graph (locals.foldlM (placeOne table pinned) progress) (Underway origin (seen ++ locals)) := by
  induction locals generalizing seen progress graph with
  | nil =>
      rw [List.append_nil]
      exact underway
  | cons id locals ih =>
      have hNew : id ∉ seen := fun hSeen => (List.nodup_append.mp hNodup).2.2 id hSeen id List.mem_cons_self rfl
      rw [List.append_cons] at hNodup ⊢
      rw [List.foldlM_cons]
      exact GraphM.Yields.bind (decided_placeOne underway.placing fun hDeclared => hNew hDeclared.1.1)
        fun next after decided => ih (underway.decide hNew decided) hNodup

/-- All variables that were left over are declared in the end. -/
theorem placing_forM {pending : List VariableId} (placing : Placing origin declared graph) (hNodup : pending.Nodup)
    (hPending : ∀ id ∈ pending, ¬declared id ∧ Occurs origin id) :
    GraphM.Yields graph (pending.forM (placePending table)) fun _ after =>
      Placing origin (fun id => declared id ∨ id ∈ pending) after := by
  induction pending generalizing declared graph with
  | nil => exact placing.congrDeclared fun id => by simp
  | cons id pending ih =>
      obtain ⟨hOther, hRest⟩ := List.nodup_cons.mp hNodup
      obtain ⟨⟨hNew, hOccurs⟩, hPending'⟩ := List.forall_mem_cons.mp hPending
      change GraphM.Yields graph (placePending table id >>= fun _ => pending.forM (placePending table)) _
      refine GraphM.Yields.bind (placing_placePending placing hNew hOccurs) fun _ middle placed => ?_
      have hLeft : ∀ other ∈ pending, ¬(declared other ∨ other = id) ∧ Occurs origin other := fun other hMember =>
        ⟨not_or.mpr ⟨(hPending' other hMember).1, fun hSame => hOther (hSame ▸ hMember)⟩, (hPending' other hMember).2⟩
      exact Placing.congrDeclared (ih placed hRest hLeft) fun other => by rw [List.mem_cons, or_assoc]

/-! ### The whole pass -/

/-- All that a graph says about its nodes names nodes of the arena. -/
structure Closed (graph : Graph) : Prop where
  wellFormed : WellFormed graph
  handlerSource_lt : ∀ id, ∀ source ∈ (graph.node id).handlerSources, source < graph.nodes.size
  dominator_lt : ∀ id found, (graph.node id).dominator = .known (some found) → found < graph.nodes.size
  target_lt : ∀ operand ∈ graph.operands, operand.TargetsAll (· < graph.nodes.size)

/-- The variable is a local that is neither a parameter nor declared by a catch clause. -/
def NeedsDeclaration (table : LocalVariables) (regions : Regions) (id : VariableId) : Prop :=
  id < table.list.length ∧ (table.get id).parameter = false ∧ id ∉ regions.catchVariables

instance (table : LocalVariables) (regions : Regions) (id : VariableId) :
    Decidable (NeedsDeclaration table regions id) :=
  inferInstanceAs (Decidable (_ ∧ _ ∧ _))

theorem Placing.refl (closed : Closed origin) (undeclared : Undeclared origin) :
    Placing origin (fun _ => False) origin where
  erases := .refl closed.wellFormed undeclared closed.target_lt
  declares := by
    refine ⟨fun _ hFalse => hFalse.elim, fun id _ => ?_, fun operand hOperand id hDeclares => ?_⟩
    · exact declarationsAmong_eq_zero.mpr fun operand hOperand => (undeclared operand hOperand).declarations id
    · exact absurd ((undeclared operand hOperand).declarations id) hDeclares
  inside := inside_of_mirrored closed.wellFormed.mirrored closed.handlerSource_lt closed.dominator_lt

theorem placing_place (closed : Closed origin) (undeclared : Undeclared origin) (table : LocalVariables)
    (regions : Regions) (switches : List SwitchTable) :
    GraphM.Yields origin (place table regions switches) fun _ after =>
      Placing origin (fun id => NeedsDeclaration table regions id ∧ Occurs origin id) after := by
  have hStart : Underway origin [] {} origin :=
    ⟨(Placing.refl closed undeclared).congrDeclared fun id => by simp, List.nodup_nil, by simp⟩
  have hLocal (id : VariableId) : id ∈ ((List.range table.list.length).filter fun id =>
      !(table.get id).parameter && !regions.catchVariables.contains id) ↔ NeedsDeclaration table regions id := by
    simp [NeedsDeclaration]
  have hNodup : ((List.range table.list.length).filter fun id =>
      !(table.get id).parameter && !regions.catchVariables.contains id).Nodup := List.nodup_range.filter _
  unfold place
  dsimp only
  generalize (List.range table.list.length).filter (fun id =>
    !(table.get id).parameter && !regions.catchVariables.contains id) = locals at hLocal hNodup ⊢
  refine (hStart.foldlM hNodup).bind fun progress middle decided => ?_
  have hPending : ∀ id ∈ progress.pending,
      ¬((id ∈ locals ∧ Occurs origin id) ∧ id ∉ progress.pending) ∧ Occurs origin id := fun id hMember =>
    ⟨fun hDeclared => hDeclared.2 hMember, (decided.pending id hMember).2⟩
  refine Placing.congrDeclared (placing_forM decided.placing decided.nodup hPending) fun id => ?_
  have hSeen := decided.pending id
  rw [List.nil_append, hLocal] at hSeen
  rw [List.nil_append, hLocal]
  tauto

/-- Without its declarations, and past the nodes that were made for them, a graph is the one of before. -/
structure Restores (origin after : Graph) (stand : NodeId → NodeId) : Prop where
  stands : ∀ id, StandsFor origin after id (stand id)
  made : ∀ id, Made origin after id → id ∈ after.order ∧
    ∃ declaration : Operand, declaration.isDeclaration ∧ (after.node id).stack = [declaration]
  order : after.order.filter (· < origin.nodes.size) = origin.order
  stack : ∀ id ∈ origin.order, eraseAll stand (after.node id).stack = (origin.node id).stack
  edge : ∀ source target, origin.Edge source target ↔
    source < origin.nodes.size ∧ ∃ next, after.Edge source next ∧ stand next = target
  destination : ∀ id < origin.nodes.size,
    (after.node id).destination.map (destinationPast stand) = (origin.node id).destination
  untouched : ∀ id < origin.nodes.size, untouched (after.node id) = untouched (origin.node id)

theorem Erases.restores (erases : Erases origin after) (mirrored : Mirrored origin) :
    ∃ stand, Restores origin after stand := by
  choose stand hStand using erases.stands
  have bypasses : Bypasses origin after stand := .of_standsFor hStand
  refine ⟨stand, hStand, fun id hMade => (erases.made id hMade).imp_right And.left, erases.order,
    erases.stack stand bypasses, fun source target => ?_, erases.destination stand bypasses, erases.untouched⟩
  constructor
  · exact fun hEdge =>
      have hSource := (mirrored.edge_lt hEdge).1
      ⟨hSource, (erases.edge stand bypasses source hSource target).mp hEdge⟩
  · exact fun hEdge => (erases.edge stand bypasses source hEdge.1 target).mpr hEdge.2

/-- A local that is neither a parameter nor declared by a catch clause is declared once if it occurs, and no other
variable is declared, whatever edges are marked as back-edges. Nothing else changes. -/
theorem place_declares_once (closed : Closed origin) (undeclared : Undeclared origin) (table : LocalVariables)
    (regions : Regions) (switches : List SwitchTable) :
    let after := ((place table regions switches).run origin).2
    (∀ id, NeedsDeclaration table regions id ∧ Occurs origin id → declarationsIn after id = 1) ∧
      (∀ id, ¬(NeedsDeclaration table regions id ∧ Occurs origin id) → declarationsIn after id = 0) ∧
      (∀ operand ∈ after.operands, operand.DeclaresWhole) ∧ ∃ stand, Restores origin after stand := by
  have placing := placing_place closed undeclared table regions switches
  exact ⟨placing.declares.once, placing.declares.none, placing.declares.whole,
    placing.erases.restores closed.wellFormed.mirrored⟩

/-- Sets a variable to zero. -/
def setToZero (id : VariableId) : Operand :=
  { id := 0, type := .known .int, statement := true
    kind := .assign { id := 1, type := .known .int, kind := .localVariable id false } .assign Operation.zero }

/-- One branch after another. The first variable is set on both arms of the second branch, the next one on an arm of the
first branch, and another one there and in a node that nothing leads to. -/
def branching : Graph :=
  Operation.run {} [.label 0, .append 0, .label 1, .append 1, .label 2, .append 2, .label 3, .append 3, .label 4, .append 4,
    .label 5, .append 5, .connect 0 1, .connect 0 2, .connect 1 3, .connect 1 4, .push 0 (Operation.jumpTo 1),
    .push 1 (Operation.jumpTo 3), .push 2 (setToZero 1), .push 2 (setToZero 2), .push 3 (setToZero 0),
    .push 4 (setToZero 0), .push 5 (setToZero 2), .computeBackedges]

def fourLocals : LocalVariables :=
  { list := List.replicate 4 { slot := 0, kind := .int, name := "", type := .known .int }, isStatic := true, owner := "" }

theorem closed_branching : Closed branching := by
  have hNothing (id : NodeId) : (branching.node id).handlerSources = [] ∧ (branching.node id).dominator = .unknown := by
    by_cases hId : id < branching.nodes.size
    · have hNodes : ∀ id < branching.nodes.size,
          (branching.node id).handlerSources = [] ∧ (branching.node id).dominator = .unknown := by decide +kernel
      exact hNodes id hId
    · rw [node_of_size_le (Nat.not_lt.mp hId)]
      exact ⟨rfl, rfl⟩
  refine ⟨(Operation.run_keeps .empty _ (by decide +kernel)).wellFormed, fun id source hSource => ?_,
    fun id found hKnown => ?_, by decide +kernel⟩
  · simp [hNothing id] at hSource
  · simp [hNothing id] at hKnown

/-- The first variable gets a node of its own in front of the second branch. The last one does not occur. -/
theorem place_declares_once_branching : Closed branching ∧ Undeclared branching ∧
    (∀ id < 3, NeedsDeclaration fourLocals {} id ∧ Occurs branching id) ∧ ¬Occurs branching 3 ∧
    let after := ((place fourLocals {} []).run branching).2
    (∀ id < 3, declarationsIn after id = 1) ∧ declarationsIn after 3 = 0 ∧ after.order = [0, 6, 1, 2, 3, 4, 5] ∧
      ∃ stand, Restores branching after stand ∧ stand 6 = 1 := by
  have undeclared : Undeclared branching := by decide +kernel
  have hOccurs : ∀ id < 3, NeedsDeclaration fourLocals {} id ∧ Occurs branching id := by decide +kernel
  have hUnused : ¬Occurs branching 3 := by decide +kernel
  obtain ⟨hOnce, hNone, -, stand, restores⟩ := place_declares_once closed_branching undeclared fourLocals {} []
  refine ⟨closed_branching, undeclared, hOccurs, hUnused, fun id hId => hOnce id (hOccurs id hId),
    hNone 3 fun hDeclared => hUnused hDeclared.2, by decide +kernel, stand, restores, ?_⟩
  have hNext : (((place fourLocals {} []).run branching).2.node 6).outgoing = [1] := by decide +kernel
  exact (restores.stands 6).unique (.through (by decide +kernel) hNext (.self (by decide +kernel)))

end Decompiler.Placement
