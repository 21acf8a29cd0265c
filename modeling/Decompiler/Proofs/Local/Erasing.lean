import Decompiler.Proofs.Graph.WellFormed
import Decompiler.Proofs.Local.Inserting
import Decompiler.Proofs.Operand.Declaring

/-!
What remains of a graph when declarations are erased from it. Nodes that were made since are bypassed to the node that
they lead to, and targets that name them are read alike. What is left is the graph of before, after any declarations.
-/

namespace Decompiler.Placement

open Graph Operand

variable {origin graph after : Graph} {stand : NodeId → NodeId} {id before target : NodeId}

/-! ### Bypassed nodes -/

/-- The node was made since. -/
def Made (origin graph : Graph) (id : NodeId) : Prop := origin.nodes.size ≤ id ∧ id < graph.nodes.size

instance (origin graph : Graph) (id : NodeId) : Decidable (Made origin graph id) := inferInstanceAs (Decidable (_ ∧ _))

/-- A node stands for itself. If it was made since, it stands for what its one successor stands for. -/
inductive StandsFor (origin graph : Graph) : NodeId → NodeId → Prop where
  | self {id : NodeId} (hKept : ¬Made origin graph id) : StandsFor origin graph id id
  | through {id next target : NodeId} (hMade : Made origin graph id) (hNext : (graph.node id).outgoing = [next])
      (hStands : StandsFor origin graph next target) : StandsFor origin graph id target

theorem StandsFor.unique {other : NodeId} (first : StandsFor origin graph id target)
    (second : StandsFor origin graph id other) : target = other := by
  induction first with
  | self hKept =>
      cases second with
      | self => rfl
      | through hMade => exact absurd hMade hKept
  | through hMade hNext _ ih =>
      cases second with
      | self hKept => exact absurd hMade hKept
      | through _ hNext' hStands =>
          obtain rfl : _ = _ := List.singleton_inj.mp (hNext.symm.trans hNext')
          exact ih hStands

/-- The function takes each node past those that were made since. -/
structure Bypasses (origin graph : Graph) (stand : NodeId → NodeId) : Prop where
  self : ∀ id < origin.nodes.size, stand id = id
  through : ∀ id next, Made origin graph id → graph.Edge id next → stand id = stand next

theorem Bypasses.of_standsFor (hStands : ∀ id, StandsFor origin graph id (stand id)) : Bypasses origin graph stand where
  self id hId := (hStands id).unique (.self fun hMade => Nat.not_lt.mpr hMade.1 hId)
  through id next hMade hEdge := by
    have hId := hStands id
    generalize stand id = target at hId
    cases hId with
    | self hKept => exact absurd hMade hKept
    | through _ hNext hTarget =>
        rw [Edge, hNext, List.mem_singleton] at hEdge
        exact hTarget.unique (hEdge ▸ hStands next)

/-! ### Erasure -/

/-- Where control goes, past the nodes that were made since. -/
def destinationPast (stand : NodeId → NodeId) : Destination → Destination
  | .node id => .node (stand id)
  | .termination => .termination

/-- A graph with some declarations placed in it: without them it is the graph of before. -/
structure Erases (origin graph : Graph) : Prop where
  size_le : origin.nodes.size ≤ graph.nodes.size
  mirrored : Mirrored graph
  nodup : graph.order.Nodup
  lt : ∀ id ∈ graph.order, id < graph.nodes.size
  order : graph.order.filter (· < origin.nodes.size) = origin.order
  made : ∀ id, Made origin graph id → id ∈ graph.order ∧
    (∃ declaration : Operand, declaration.isDeclaration ∧ (graph.node id).stack = [declaration]) ∧
    ∃ next, (graph.node id).outgoing = [next]
  stands : ∀ id, ∃ target, StandsFor origin graph id target
  stack : ∀ stand, Bypasses origin graph stand → ∀ id ∈ origin.order,
    eraseAll stand (graph.node id).stack = (origin.node id).stack
  edge : ∀ stand, Bypasses origin graph stand → ∀ source < origin.nodes.size, ∀ target,
    origin.Edge source target ↔ ∃ next, graph.Edge source next ∧ stand next = target
  destination : ∀ stand, Bypasses origin graph stand → ∀ id < origin.nodes.size,
    (graph.node id).destination.map (destinationPast stand) = (origin.node id).destination
  untouched : ∀ id < origin.nodes.size, untouched (graph.node id) = untouched (origin.node id)

/-- No live operand declares a variable. -/
def Undeclared (graph : Graph) : Prop := ∀ operand ∈ graph.operands, operand.Unmarked

instance (graph : Graph) : Decidable (Undeclared graph) := inferInstanceAs (Decidable (∀ _ ∈ _, _))

theorem mem_operands {operand : Operand} :
    operand ∈ graph.operands ↔ ∃ id ∈ graph.order, operand ∈ (graph.node id).stack :=
  List.mem_flatMap

theorem eraseAll_eq_self {stack : List Operand} (hNone : ∀ operand ∈ stack, operand.Unmarked)
    (hTargets : ∀ operand ∈ stack, operand.TargetsAll fun target => stand target = target) :
    eraseAll stand stack = stack := by
  have hFilter : stack.filter (fun operand => !operand.isDeclaration) = stack :=
    List.filter_eq_self.mpr fun operand hOperand => by
      simp [(hNone operand hOperand).isDeclaration]
  rw [eraseAll, hFilter]
  exact map_eq_self fun operand hOperand => erase_eq_self (hNone operand hOperand) (hTargets operand hOperand)

namespace Erases

theorem refl (wellFormed : WellFormed origin) (undeclared : Undeclared origin)
    (hTargets : ∀ operand ∈ origin.operands, operand.TargetsAll (· < origin.nodes.size)) : Erases origin origin := by
  have hNone : ∀ id, ¬Made origin origin id := fun id hMade => Nat.not_lt.mpr hMade.1 hMade.2
  exact
  { size_le := Nat.le_refl _
    mirrored := wellFormed.mirrored
    nodup := wellFormed.linked.nodup
    lt := wellFormed.linked.lt
    order := List.filter_eq_self.mpr fun id hId => by simpa using wellFormed.linked.lt id hId
    made := fun id hMade => absurd hMade (hNone id)
    stands := fun id => ⟨id, .self (hNone id)⟩
    stack := fun stand bypasses id hId => by
      have hMember : ∀ operand ∈ (origin.node id).stack, operand ∈ origin.operands := fun operand hOperand =>
        mem_operands.mpr ⟨id, hId, hOperand⟩
      refine eraseAll_eq_self (fun operand hOperand => undeclared operand (hMember operand hOperand))
        fun operand hOperand inner hInner test hTest => ?_
      exact (hTargets operand (hMember operand hOperand) inner hInner test hTest).imp
        (fun hTrue target hTarget => bypasses.self target (hTrue target hTarget))
        fun hFalse target hTarget => bypasses.self target (hFalse target hTarget)
    edge := fun stand bypasses source _ target => by
      have hSelf {next : NodeId} (hEdge : origin.Edge source next) : stand next = next :=
        bypasses.self next (wellFormed.mirrored.edge_lt hEdge).2
      constructor
      · exact fun hEdge => ⟨target, hEdge, hSelf hEdge⟩
      · rintro ⟨next, hEdge, rfl⟩
        rwa [hSelf hEdge]
    destination := fun stand bypasses id _ => by
      cases hDestination : (origin.node id).destination with
      | none => rfl
      | some destination =>
          cases destination with
          | termination => rfl
          | node target =>
              simp [destinationPast, bypasses.self target (wellFormed.destination_lt id target hDestination)]
    untouched := fun _ _ => rfl }

/-- The links and what is remembered of dominators do not matter, and of the stacks what is left matters. -/
theorem congr (erases : Erases origin graph) (hOrder : after.order = graph.order)
    (hSize : after.nodes.size = graph.nodes.size) (hMirrored : Mirrored after)
    (hOutgoing : ∀ id, (after.node id).outgoing = (graph.node id).outgoing)
    (hDestination : ∀ id, (after.node id).destination = (graph.node id).destination)
    (hUntouched : ∀ id, Placement.untouched (after.node id) = Placement.untouched (graph.node id))
    (hMade : ∀ id, Made origin graph id → (after.node id).stack = (graph.node id).stack)
    (hStack : ∀ id ∈ origin.order, ∀ stand,
      eraseAll stand (after.node id).stack = eraseAll stand (graph.node id).stack) :
    Erases origin after := by
  have hSame (id : NodeId) : Made origin after id ↔ Made origin graph id := by rw [Made, Made, hSize]
  have hEdge (source target : NodeId) : after.Edge source target ↔ graph.Edge source target := by
    rw [Edge, Edge, hOutgoing]
  have hBypasses {stand : NodeId → NodeId} (bypasses : Bypasses origin after stand) : Bypasses origin graph stand :=
    ⟨bypasses.self, fun id next hMade hNext =>
      bypasses.through id next ((hSame id).mpr hMade) ((hEdge id next).mpr hNext)⟩
  exact
  { size_le := hSize ▸ erases.size_le
    mirrored := hMirrored
    nodup := hOrder ▸ erases.nodup
    lt := hOrder ▸ hSize ▸ erases.lt
    order := hOrder ▸ erases.order
    made := fun id hNew => by
      rw [hOrder, hOutgoing, hMade id ((hSame id).mp hNew)]
      exact erases.made id ((hSame id).mp hNew)
    stands := fun id => by
      obtain ⟨target, hTarget⟩ := erases.stands id
      refine ⟨target, ?_⟩
      induction hTarget with
      | self hKept => exact .self ((hSame _).not.mpr hKept)
      | through hNew hNext _ ih => exact .through ((hSame _).mpr hNew) (hOutgoing _ ▸ hNext) ih
    stack := fun stand bypasses id hId => by
      rw [hStack id hId]
      exact erases.stack stand (hBypasses bypasses) id hId
    edge := fun stand bypasses source hSource target => by
      simp only [hEdge]
      exact erases.edge stand (hBypasses bypasses) source hSource target
    destination := fun stand bypasses id hId => by
      rw [hDestination]
      exact erases.destination stand (hBypasses bypasses) id hId
    untouched := fun id hId => (hUntouched id).trans (erases.untouched id hId) }

end Erases

/-! ### A node in front of another -/

theorem eraseAll_redirectedStack {sources : List NodeId} {created : NodeId} (hStand : stand created = stand before) :
    eraseAll stand (redirectedStack sources before created graph id) = eraseAll stand (graph.node id).stack := by
  have hKept (operand : Operand) : (operand.retarget before (some created)).isDeclaration = operand.isDeclaration := by
    obtain ⟨_, _, _, _, _, kind⟩ := operand
    cases kind <;> rfl
  rw [redirectedStack]
  split
  · simp only [eraseAll, List.filter_map, Function.comp_def, hKept, List.map_map, erase_retarget hStand]
  · rfl

theorem destinationPast_redirectedDestination {sources : List NodeId} {created : NodeId}
    (hStand : stand created = stand before) :
    (redirectedDestination sources before created graph id).map (destinationPast stand) =
      (graph.node id).destination.map (destinationPast stand) := by
  rw [redirectedDestination]
  split
  · next hBefore => simp [hBefore.2, destinationPast, hStand]
  · rfl

theorem edge_of_mem_forwardIncoming (mirrored : Mirrored graph) {source : NodeId}
    (hSource : source ∈ graph.forwardIncoming before) : graph.Edge source before :=
  mirrored.mem_incoming.mp (List.mem_filter.mp hSource).1

/-- A node with one successor has no other edge. -/
theorem outgoing_eq_singleton (mirrored : Mirrored graph) {next : NodeId}
    (hEdge : ∀ target, graph.Edge id target ↔ target = next) : (graph.node id).outgoing = [next] := by
  refine List.perm_singleton.mp ?_
  rw [List.perm_ext_iff_of_nodup (mirrored.outgoing_nodup id) (List.nodup_singleton next)]
  exact fun target => (hEdge target).trans List.mem_singleton.symm

section Inserted

variable {declaration : Operand} (erases : Erases origin graph) (inserted : Inserted before declaration graph after)
  (hBefore : before < graph.nodes.size)

include inserted

/-- Nodes of before that led to the node lead to the new one. -/
theorem edge_iff_of_ne (hOld : id ≠ graph.nodes.size) : after.Edge id target ↔
    (graph.Edge id target ∧ ¬(id ∈ graph.forwardIncoming before ∧ target = before)) ∨
      (id ∈ graph.forwardIncoming before ∧ target = graph.nodes.size) := by
  simp [inserted.edge, hOld]

theorem mem_order_inserted : id ∈ after.order ↔ id = graph.nodes.size ∨ id ∈ graph.order := by
  obtain ⟨front, back, hOrder, hAfter⟩ := inserted.order
  rw [hAfter, hOrder, List.mem_append, List.mem_append, List.mem_cons]
  tauto

include erases

/-- The nodes made since are those of before and the new one. -/
theorem made_iff : Made origin after id ↔ Made origin graph id ∨ id = graph.nodes.size := by
  rw [Made, Made, inserted.size, Nat.lt_succ_iff_lt_or_eq, and_or_left]
  refine or_congr_right ⟨And.right, fun hNew => ⟨hNew ▸ erases.size_le, hNew⟩⟩

/-- The new node leads to the node, and to no other one. -/
theorem edge_created : after.Edge graph.nodes.size target ↔ target = before := by
  have hNone : ∀ next, ¬graph.Edge graph.nodes.size next := fun next hEdge =>
    Nat.lt_irrefl _ (erases.mirrored.edge_lt hEdge).1
  have hForward : graph.nodes.size ∉ graph.forwardIncoming before := fun hSource =>
    hNone before (edge_of_mem_forwardIncoming erases.mirrored hSource)
  simp [inserted.edge, hNone, hForward]

/-- Whoever takes the nodes past those made since took them past those of before. -/
theorem bypasses_inserted (bypasses : Bypasses origin after stand) :
    Bypasses origin graph stand ∧ stand graph.nodes.size = stand before := by
  have hCreated : stand graph.nodes.size = stand before :=
    bypasses.through _ before ((made_iff erases inserted).mpr (.inr rfl)) ((edge_created erases inserted).mpr rfl)
  refine ⟨⟨bypasses.self, fun id next hMade hNext => ?_⟩, hCreated⟩
  have hOld : id ≠ graph.nodes.size := Nat.ne_of_lt hMade.2
  have hThrough (target : NodeId) := bypasses.through id target ((made_iff erases inserted).mpr (.inl hMade))
  by_cases hRedirected : id ∈ graph.forwardIncoming before ∧ next = before
  · rw [hThrough _ ((edge_iff_of_ne inserted hOld).mpr (.inr ⟨hRedirected.1, rfl⟩)), hCreated, hRedirected.2]
  · exact hThrough next ((edge_iff_of_ne inserted hOld).mpr (.inl ⟨hNext, hRedirected⟩))

/-- A node made before has one successor still. -/
theorem outgoing_inserted {next : NodeId} (hOld : id ≠ graph.nodes.size) (hNext : (graph.node id).outgoing = [next]) :
    (after.node id).outgoing = [if id ∈ graph.forwardIncoming before then graph.nodes.size else next] := by
  have hEdge (target : NodeId) : graph.Edge id target ↔ target = next := by rw [Edge, hNext, List.mem_singleton]
  refine outgoing_eq_singleton inserted.mirrored fun target => ?_
  rw [edge_iff_of_ne inserted hOld, hEdge]
  split
  · next hSource =>
      obtain rfl := (hEdge before).mp (edge_of_mem_forwardIncoming erases.mirrored hSource)
      simp [hSource]
  · next hSource => simp [hSource]

/-- What a node stood for it stands for still. -/
theorem standsFor_inserted (hStands : StandsFor origin graph id target) (hOld : id ≠ graph.nodes.size) :
    StandsFor origin after id target := by
  induction hStands with
  | self hKept => exact .self fun hMade => ((made_iff erases inserted).mp hMade).elim hKept hOld
  | @through id next target hMade hNext _ ih =>
      have hLt : next < graph.nodes.size :=
        (erases.mirrored.edge_lt (show graph.Edge id next by rw [Edge, hNext]; exact List.mem_singleton_self next)).2
      have hRest := ih (Nat.ne_of_lt hLt)
      have hOutgoing := outgoing_inserted erases inserted hOld hNext
      refine .through ((made_iff erases inserted).mpr (.inl hMade)) hOutgoing ?_
      split
      · next hSource =>
          have hEdge := edge_of_mem_forwardIncoming erases.mirrored hSource
          rw [Edge, hNext, List.mem_singleton] at hEdge
          subst hEdge
          refine .through ((made_iff erases inserted).mpr (.inr rfl)) ?_ hRest
          exact outgoing_eq_singleton inserted.mirrored fun target => edge_created erases inserted
      · exact hRest

/-- Past the new node the edges lead where they led. -/
theorem edge_past (hStand : stand graph.nodes.size = stand before) (hOld : id ≠ graph.nodes.size) :
    (∃ next, graph.Edge id next ∧ stand next = target) ↔ ∃ next, after.Edge id next ∧ stand next = target := by
  constructor
  · rintro ⟨next, hEdge, rfl⟩
    by_cases hRedirected : id ∈ graph.forwardIncoming before ∧ next = before
    · refine ⟨graph.nodes.size, (edge_iff_of_ne inserted hOld).mpr (.inr ⟨hRedirected.1, rfl⟩), ?_⟩
      rw [hStand, hRedirected.2]
    · exact ⟨next, (edge_iff_of_ne inserted hOld).mpr (.inl ⟨hEdge, hRedirected⟩), rfl⟩
  · rintro ⟨next, hEdge, rfl⟩
    rcases (edge_iff_of_ne inserted hOld).mp hEdge with ⟨hKept, -⟩ | ⟨hRedirected, rfl⟩
    · exact ⟨next, hKept, rfl⟩
    · exact ⟨before, edge_of_mem_forwardIncoming erases.mirrored hRedirected, hStand.symm⟩

theorem order_inserted : after.order.Nodup ∧
    after.order.filter (· < origin.nodes.size) = graph.order.filter (· < origin.nodes.size) := by
  obtain ⟨front, back, hOrder, hAfter⟩ := inserted.order
  have hFresh : graph.nodes.size ∉ front ++ back := fun hMember =>
    Nat.lt_irrefl _ (erases.lt _ (hOrder ▸ hMember))
  have hNew : ¬graph.nodes.size < origin.nodes.size := Nat.not_lt.mpr erases.size_le
  constructor
  · rw [hAfter, List.nodup_middle, List.nodup_cons]
    exact ⟨hFresh, hOrder ▸ erases.nodup⟩
  · rw [hAfter, hOrder, List.filter_append, List.filter_append, List.filter_cons_of_neg (by simpa using hNew)]

/-- A node made before holds one declaration still. -/
theorem made_inserted (hMade : Made origin graph id) : id ∈ after.order ∧
    (∃ declaration : Operand, declaration.isDeclaration ∧ (after.node id).stack = [declaration]) ∧
    ∃ next, (after.node id).outgoing = [next] := by
  obtain ⟨hPlaced, ⟨other, hOther, hStack⟩, next, hNext⟩ := erases.made id hMade
  have hOld : id ≠ graph.nodes.size := Nat.ne_of_lt hMade.2
  refine ⟨(mem_order_inserted inserted).mpr (.inr hPlaced), ?_, _, outgoing_inserted erases inserted hOld hNext⟩
  rw [inserted.stack id hOld, redirectedStack, hStack]
  split
  · refine ⟨other.retarget before (some graph.nodes.size), ?_, rfl⟩
    obtain ⟨_, _, _, _, _, kind⟩ := other
    cases kind <;> exact hOther
  · exact ⟨other, hOther, rfl⟩

include hBefore

/-- A declaration in a node of its own is erased with the node. -/
theorem Erases.insert (hDeclaration : declaration.isDeclaration) : Erases origin after := by
  have hCreated : (after.node graph.nodes.size).outgoing = [before] :=
    outgoing_eq_singleton inserted.mirrored fun target => edge_created erases inserted
  have hOld : ∀ id < origin.nodes.size, id ≠ graph.nodes.size := fun id hId =>
    Nat.ne_of_lt (Nat.lt_of_lt_of_le hId erases.size_le)
  exact
  { size_le := inserted.size ▸ Nat.le_succ_of_le erases.size_le
    mirrored := inserted.mirrored
    nodup := (order_inserted erases inserted).1
    order := (order_inserted erases inserted).2.trans erases.order
    lt := fun id hId => by
      rw [inserted.size]
      rcases (mem_order_inserted inserted).mp hId with rfl | hOld
      · exact Nat.lt_succ_self _
      · exact Nat.lt_succ_of_lt (erases.lt id hOld)
    made := fun id hMade => by
      rcases (made_iff erases inserted).mp hMade with hMade | rfl
      · exact made_inserted erases inserted hMade
      · exact ⟨(mem_order_inserted inserted).mpr (.inl rfl), ⟨declaration, hDeclaration, inserted.created⟩, before,
          hCreated⟩
    stands := fun id => by
      by_cases hOld : id = graph.nodes.size
      · subst hOld
        obtain ⟨target, hTarget⟩ := erases.stands before
        refine ⟨target, .through ((made_iff erases inserted).mpr (.inr rfl)) hCreated ?_⟩
        exact standsFor_inserted erases inserted hTarget (Nat.ne_of_lt hBefore)
      · obtain ⟨target, hTarget⟩ := erases.stands id
        exact ⟨target, standsFor_inserted erases inserted hTarget hOld⟩
    stack := fun stand bypasses id hId => by
      obtain ⟨hBypasses, hStand⟩ := bypasses_inserted erases inserted bypasses
      have hPlaced : id ∈ graph.order := (List.mem_filter.mp (erases.order ▸ hId)).1
      rw [inserted.stack id (Nat.ne_of_lt (erases.lt id hPlaced)), eraseAll_redirectedStack hStand]
      exact erases.stack stand hBypasses id hId
    edge := fun stand bypasses source hSource target => by
      obtain ⟨hBypasses, hStand⟩ := bypasses_inserted erases inserted bypasses
      rw [erases.edge stand hBypasses source hSource target]
      exact edge_past erases inserted hStand (hOld source hSource)
    destination := fun stand bypasses id hId => by
      obtain ⟨hBypasses, hStand⟩ := bypasses_inserted erases inserted bypasses
      rw [inserted.destination id (hOld id hId), destinationPast_redirectedDestination hStand]
      exact erases.destination stand hBypasses id hId
    untouched := fun id hId => (inserted.untouched id (hOld id hId)).trans (erases.untouched id hId) }

end Inserted

end Decompiler.Placement
