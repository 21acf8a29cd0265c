import Decompiler.Proofs.Graph.Operation
import Decompiler.Proofs.Region.Rules
import Mathlib.Data.List.Forall2

/-!
What the removal of copies of finally blocks leaves alone. Copies are told by a count of nodes, and nobody compares
what the nodes hold, so a node goes as a whole. But only nodes go that can be reached from where a copy begins. Of all
other nodes nothing is lost but a rethrow that closes a finally block.
-/

namespace Decompiler

namespace Operand

/-- The operands differ in the targets of conditions at most. -/
inductive Redirected : Operand → Operand → Prop where
  | refl (operand : Operand) : Redirected operand operand
  | redirect {operand other : Operand} (before : Redirected operand other) (old : NodeId) (new : Option NodeId) :
      Redirected operand (other.redirect old new)

/-- The operand throws again what was caught. -/
def IsRethrow (caught : List VariableId) (operand : Operand) : Prop :=
  ∃ value id, operand.kind = .throws value ∧ value.asLocal? = some id ∧ id ∈ caught

variable {caught : List VariableId} {operand other : Operand}

theorem asLocal?_redirect (operand : Operand) (old : NodeId) (new : Option NodeId) :
    (operand.redirect old new).asLocal? = operand.asLocal? := by
  obtain ⟨_, _, _, _, _, kind⟩ := operand
  cases kind <;> rfl

/-- Redirecting targets makes no rethrow. -/
theorem IsRethrow.of_redirect {old : NodeId} {new : Option NodeId}
    (rethrows : (operand.redirect old new).IsRethrow caught) : operand.IsRethrow caught := by
  obtain ⟨value, id, hKind, hLocal, hCaught⟩ := rethrows
  obtain ⟨_, _, _, _, _, kind⟩ := operand
  cases kind with
  | throws thrown =>
      cases hKind
      exact ⟨thrown, id, rfl, (asLocal?_redirect thrown old new).symm.trans hLocal, hCaught⟩
  | _ => cases hKind

/-- What is a rethrow after targets were redirected was one before. -/
theorem Redirected.isRethrow (redirected : Redirected operand other) (rethrows : other.IsRethrow caught) :
    operand.IsRethrow caught := by
  induction redirected with
  | refl => exact rethrows
  | redirect _ _ _ ih => exact ih rethrows.of_redirect

end Operand

/-- All operands are there still, but for rethrows at the end. -/
def Pared (caught : List VariableId) (before after : List Operand) : Prop :=
  ∃ kept lost, before = kept ++ lost ∧ List.Forall₂ Operand.Redirected kept after ∧
    ∀ operand ∈ lost, operand.IsRethrow caught

namespace Pared

variable {caught : List VariableId} {before after : List Operand}

theorem refl (caught : List VariableId) (operands : List Operand) : Pared caught operands operands :=
  ⟨operands, [], (List.append_nil _).symm, List.forall₂_same.mpr fun operand _ => .refl operand, by simp⟩

/-- Redirecting targets takes no operand away. -/
theorem redirect (pared : Pared caught before after) (old : NodeId) (new : Option NodeId) :
    Pared caught before (after.map (Operand.redirect old new)) := by
  obtain ⟨kept, lost, hBefore, hKept, hLost⟩ := pared
  refine ⟨kept, lost, hBefore, List.forall₂_map_right_iff.mpr ?_, hLost⟩
  exact hKept.imp fun _ _ redirected => redirected.redirect old new

/-- A rethrow at the end may go. -/
theorem dropLast {closing : Operand} (pared : Pared caught before after) (hLast : after.getLast? = some closing)
    (rethrows : closing.IsRethrow caught) : Pared caught before after.dropLast := by
  obtain ⟨kept, lost, rfl, hKept, hLost⟩ := pared
  obtain ⟨rest, rfl⟩ := List.getLast?_eq_some_iff.mp hLast
  have hRest := List.forall₂_take_append kept rest [closing] hKept
  have hClosing := List.forall₂_drop_append kept rest [closing] hKept
  obtain ⟨closed, none, redirected, hNone, hClosed⟩ := List.forall₂_cons_right_iff.mp hClosing
  obtain rfl := List.forall₂_nil_right_iff.mp hNone
  refine ⟨kept.take rest.length, closed :: lost, ?_, by simpa using hRest, ?_⟩
  · rw [← List.singleton_append, ← List.append_assoc, ← hClosed, List.take_append_drop]
  · exact List.forall_mem_cons.mpr ⟨redirected.isRethrow rethrows, hLost⟩

end Pared

namespace Graph

open Relation

variable {caught : List VariableId} {begins : List NodeId} {before now after : Graph} {id source target : NodeId}

/-- The node can be reached from where a copy begins. -/
def CopyReaches (before : Graph) (begins : List NodeId) (id : NodeId) : Prop :=
  ∃ begin ∈ begins, ReflTransGen before.Edge begin id

/-- Along edges of the graph as it was one comes to more nodes of the copy. -/
theorem CopyReaches.step (reaches : CopyReaches before begins id) (way : TransGen before.Edge id target) :
    CopyReaches before begins target :=
  reaches.imp fun _ => And.imp_right fun hWay => hWay.trans way.to_reflTransGen

/-- Without nodes that can be reached from where a copy begins, and without rethrows, the graph is as it was
before. -/
structure Pruned (caught : List VariableId) (begins : List NodeId) (before now : Graph) : Prop where
  wellFormed : WellFormed now
  placed : ∀ id < now.nodes.size, Settled now id
  /-- A new edge stands for a way through nodes that are gone. -/
  ways : ∀ source target, now.Edge source target → TransGen before.Edge source target
  gone : ∀ id, (now.node id).disposed = true → (before.node id).disposed = true ∨ CopyReaches before begins id
  kept : ∀ id, (now.node id).disposed = false → Pared caught (before.node id).stack (now.node id).stack

namespace Pruned

theorem refl (caught : List VariableId) (begins : List NodeId) (wellFormed : WellFormed before)
    (hPlaced : ∀ id < before.nodes.size, Settled before id) : Pruned caught begins before before :=
  ⟨wellFormed, hPlaced, fun _ _ => .single, fun _ => .inl, fun _ _ => .refl caught _⟩

/-- A change of the nodes that adds no edge. -/
theorem congr (pruned : Pruned caught begins before now) (keeps : Keeps True now after)
    (hSize : after.nodes.size = now.nodes.size)
    (hEdges : ∀ source target, after.Edge source target → now.Edge source target)
    (hDisposed : ∀ id, (after.node id).disposed = (now.node id).disposed)
    (hStack : ∀ id, Pared caught (before.node id).stack (now.node id).stack →
      Pared caught (before.node id).stack (after.node id).stack) : Pruned caught begins before after where
  wellFormed := keeps.wellFormed
  placed id hId := keeps.settled id (pruned.placed id (hSize ▸ hId))
  ways source target hEdge := pruned.ways source target (hEdges source target hEdge)
  gone id hGone := pruned.gone id (hDisposed id ▸ hGone)
  kept id hLive := hStack id (pruned.kept id (hDisposed id ▸ hLive))

/-- Queries leave the graph as it is. -/
theorem sameFacts (pruned : Pruned caught begins before now) (same : SameFacts now after) :
    Pruned caught begins before after := by
  have hKeeps : Keeps True now after := pruned.wellFormed.congr same.order same.size
    (same.field Node.ties fun _ => rfl) fun id target hTarget => by
      rw [same.field Node.destination fun _ => rfl] at hTarget
      exact pruned.wellFormed.destination_lt id target hTarget
  refine pruned.congr hKeeps same.size (fun _ _ => same.edge_iff.mp) (same.field Node.disposed fun _ => rfl)
    fun id pared => ?_
  rwa [same.field Node.stack fun _ => rfl]

/-- An edge may go, since only nodes and operands are accounted for. -/
theorem disconnect (pruned : Pruned caught begins before now) (source target : NodeId) :
    Pruned caught begins before (now.disconnect source target) := by
  have same := sameBlocks_disconnect now source target
  refine pruned.congr (pruned.wellFormed.disconnect source target) same.size
    (fun _ _ hEdge => (edge_disconnect.mp hEdge).1) (same.field Node.disposed fun _ => rfl) fun id pared => ?_
  rwa [same.field Node.stack fun _ => rfl]

/-- A change that keeps ties and destinations, and takes nothing but rethrows off the stack. -/
theorem update (pruned : Pruned caught begins before now) (id : NodeId) (change : Node → Node)
    (hTies : ∀ node, (change node).ties = node.ties)
    (hDestination : ∀ node, (change node).destination = node.destination)
    (hStack : ∀ other, Pared caught other (now.node id).stack → Pared caught other (change (now.node id)).stack) :
    Pruned caught begins before (now.update id change) := by
  have hKept (other : NodeId) : ((now.update id change).node other).ties = (now.node other).ties :=
    field_update Node.ties change (hTies _)
  simp only [Node.ties, Prod.mk.injEq] at hKept
  refine pruned.congr (pruned.wellFormed.update id change hTies fun target hTarget => ?_) (size_update _ _ _)
    (fun source target hEdge => ?_) (fun other => (hKept other).2.2.2.1) fun other pared => ?_
  · exact pruned.wellFormed.destination_lt id target (hDestination _ ▸ hTarget)
  · rwa [Edge, (hKept source).1] at hEdge
  · rw [node_update]
    split
    · next hSame => exact hSame.1 ▸ hStack _ (hSame.1 ▸ pared)
    · exact pared

theorem dropLast (pruned : Pruned caught begins before now) {closing : Operand}
    (hLast : (now.node id).stack.getLast? = some closing) (rethrows : closing.IsRethrow caught) :
    Pruned caught begins before (now.update id fun node => { node with stack := node.stack.dropLast }) :=
  pruned.update id _ (fun _ => rfl) (fun _ => rfl) fun _ pared => pared.dropLast hLast rethrows

/-- Handlers are told of their regions beside the edges. -/
theorem addHandlerEdge (pruned : Pruned caught begins before now) (start handler : NodeId) :
    Pruned caught begins before (now.addHandlerEdge start handler) := by
  refine pruned.congr (pruned.wellFormed.addHandlerEdge start handler) (size_addHandlerEdge _ _ _)
    (fun source target hEdge => ?_) (fun _ => field_addHandlerEdge Node.disposed (fun _ _ => rfl) _ _) fun id pared => ?_
  · rwa [Edge, field_addHandlerEdge Node.outgoing fun _ _ => rfl] at hEdge
  · rwa [field_addHandlerEdge Node.stack fun _ _ => rfl]

/-- A node goes with all that it holds, and its sources lead on to where it led. -/
theorem disposeOne (pruned : Pruned caught begins before now) (hTarget : target ∈ now.order)
    (reaches : CopyReaches before begins target) : Pruned caught begins before (now.disposeOne target true) := by
  have linked := pruned.wellFormed.linked
  have hKeeps : Keeps True now (now.disposeOne target true) := pruned.wellFormed.disposeOne hTarget true
  refine ⟨hKeeps.wellFormed, fun id hId => ?_, fun a b hEdge => ?_, fun id hGone => ?_, fun id hLive => ?_⟩
  · exact hKeeps.settled id (pruned.placed id (size_disposeOne now target true ▸ hId))
  · obtain ⟨-, -, hOld | ⟨hIn, hOut⟩⟩ := (edge_disposeOne linked hTarget true pruned.wellFormed.mirrored).mp hEdge
    · exact pruned.ways a b hOld
    · exact (pruned.ways a target hIn).trans (pruned.ways target b hOut)
  · rw [disposed_disposeOne linked hTarget, Bool.or_eq_true, decide_eq_true_eq] at hGone
    obtain rfl | hGone := hGone
    · exact .inr reaches
    · exact pruned.gone id hGone
  · rw [disposed_disposeOne linked hTarget, Bool.or_eq_false_iff, decide_eq_false_iff_not] at hLive
    have pared := pruned.kept id hLive.2
    rw [stack_disposeOne linked hTarget]
    simp only [hLive.1, ↓reduceIte, Bool.true_eq_false, and_false]
    split
    · exact pared.redirect target _
    · exact pared

end Pruned

/-- Whatever is made of queries takes no operand away. -/
theorem pruned_queries (caught : List VariableId) (begins : List NodeId) (before : Graph) :
    HoldsOfQueries fun {α : Type} (action : GraphM α) =>
      GraphM.Ensures (Pruned caught begins before) action fun _ => True where
  toCompositional := GraphM.Ensures.compositional _
  get := GraphM.Ensures.get.weaken fun _ _ => trivial
  dominator id now pruned := ⟨trivial, pruned.sameFacts (onlyAsks_dominator id now)⟩
  hasDominator id candidate now pruned := ⟨trivial, pruned.sameFacts (onlyAsks_hasDominator id candidate now)⟩

/-- Only throws of a caught local are taken off. -/
theorem pruned_stripRethrow (handler : NodeId) {id : VariableId} (hCaught : id ∈ caught) :
    GraphM.Ensures (Pruned caught begins before) (stripRethrow handler id) fun _ => True := by
  have kept := pruned_queries caught begins before
  refine kept.bind (kept.handlerRegion handler) fun members => ?_
  refine kept.bind (kept.forIn (fun member _ => ?_) members _) fun _ => kept.pure _
  intro now pruned
  rw [StateT.run_bind, StateT.run_get, pure_bind]
  dsimp only
  split
  · next value hLast =>
      split
      · next hLocal =>
          exact ⟨trivial, pruned.dropLast hLast ⟨value, id, rfl, by simpa using hLocal, hCaught⟩⟩
      · exact ⟨trivial, pruned⟩
  · exact ⟨trivial, pruned⟩

/-- By induction on the bound: each node that goes can be reached from where the copy begins. -/
theorem pruned_removeCopy (fuel remaining : Nat) (waiting seen : List NodeId)
    (hWaiting : ∀ id ∈ waiting, CopyReaches before begins id) :
    GraphM.Ensures (Pruned caught begins before) (removeCopy fuel remaining waiting seen) fun _ => True := by
  have kept := pruned_queries caught begins before
  induction fuel generalizing remaining waiting seen with
  | zero => exact .pure trivial
  | succ fuel ih =>
      cases waiting with
      | nil => exact .pure trivial
      | cons id waiting =>
          obtain ⟨reaches, hRest⟩ := List.forall_mem_cons.mp hWaiting
          rw [removeCopy]
          split
          · exact .pure trivial
          intro now pruned
          -- What waits is reached by edges of the graph by now, and each of these is a way in the graph before.
          have hOn : ∀ other ∈ waiting ++ (now.node id).outgoing, CopyReaches before begins other :=
            fun other hOther => (List.mem_append.mp hOther).elim (hRest other) fun hEdge =>
              reaches.step (pruned.ways id other hEdge)
          have hSkip := ih remaining waiting (id :: seen) hRest now pruned
          have hPass := ih remaining _ (id :: seen) hOn now pruned
          have hRemove := ih (remaining - 1) _ (id :: seen) hOn
          rw [StateT.run_bind, StateT.run_get, pure_bind]
          dsimp only
          split
          · exact hSkip
          split
          · exact hPass
          · next hLive hFull =>
              have hNode : (now.node id).disposed = false := by simp_all
              have hInside : id < now.nodes.size := by
                by_contra hOutside
                simp [node_of_size_le (Nat.not_lt.mp hOutside), Node.isEmpty] at hFull
              have hTarget : id ∈ now.order := (pruned.placed id hInside).resolve_right (by simp [hNode])
              refine kept.bind hRemove (fun others => kept.pure _) (now.dispose id true false).2 ?_
              rw [dispose_plain true hNode]
              exact pruned.disposeOne hTarget reaches

end Graph

namespace Regions

open Decompiler.Graph
open Relation

variable {caught : List VariableId} {begins : List NodeId} {graph before : Graph} {regions : Regions} {id : NodeId}

/-- The nodes at which copies of finally blocks begin. -/
def copies (regions : Regions) : List NodeId := regions.list.flatMap Region.duplicateStarts

/-- The regions catch into the given locals only, and copies of finally blocks begin at the given nodes only. -/
structure Covered (caught : List VariableId) (begins : List NodeId) (regions : Regions) : Prop where
  caught : regions.catchVariables ⊆ caught
  begins : regions.copies ⊆ begins

/-- A change of regions that keeps their handlers and adds no place where a copy begins. -/
theorem Covered.map (covered : regions.Covered caught begins) {change : Region → Region}
    (hHandlers : ∀ region, (change region).handlers = region.handlers)
    (hStarts : ∀ region, (change region).duplicateStarts ⊆ region.duplicateStarts) :
    Covered caught begins { list := regions.list.map change } := by
  refine ⟨?_, fun start hStart => covered.begins ?_⟩
  · simpa [catchVariables, handlers, List.flatMap_map, hHandlers] using covered.caught
  · obtain ⟨region, hRegion, hMember⟩ := List.mem_flatMap.mp hStart
    obtain ⟨known, hKnown, rfl⟩ := List.mem_map.mp hRegion
    exact List.mem_flatMap_of_mem hKnown (hStarts known hMember)

/-- The copies of one region, from each of its places on. -/
theorem pruned_removeFinallyCopies (covered : regions.Covered caught begins) (id : RegionId) :
    GraphM.Ensures (Pruned caught begins before) (regions.removeFinallyCopies id) (Covered caught begins) := by
  have kept := pruned_queries caught begins before
  rw [removeFinallyCopies]
  split
  · exact .pure covered
  · next region hRegion =>
      have hMember : region ∈ regions.list := List.mem_of_getElem? hRegion
      split
      · exact .pure covered
      · next block hBlock =>
          extract_lets rest
          have hRest : ∀ stripped,
              GraphM.Ensures (Pruned caught begins before) (rest stripped) (Covered caught begins) := by
            intro stripped
            refine (kept.handlerRegion block.node).bind fun members _ => GraphM.Ensures.get.bind fun graph _ => ?_
            dsimp only
            split
            · exact .pure covered
            refine GraphM.Ensures.bind (kept.foldlM_of_mem _ (fun start hStart disposed => ?_) _) fun disposed _ =>
              GraphM.Ensures.get.bind fun graph _ =>
                .pure (covered.map (fun _ => rfl) fun _ => List.filter_sublist.subset)
            refine kept.bind kept.get fun graph => ?_
            split
            · exact kept.pure _
            · refine kept.bind (pruned_removeCopy _ _ _ _ fun id hId => ?_) fun _ => kept.pure _
              obtain rfl := List.mem_singleton.mp hId
              exact ⟨id, covered.begins (List.mem_flatMap_of_mem hMember hStart), .refl⟩
          split
          · next id hCaught =>
              refine (pruned_stripRethrow block.node (covered.caught ?_)).bind fun stripped _ => hRest stripped
              have hHandler : block ∈ regions.handlers :=
                List.mem_flatMap_of_mem hMember (List.mem_of_find?_eq_some hBlock)
              exact List.mem_filterMap.mpr ⟨block, hHandler, hCaught⟩
          · exact hRest ()

/-- The passes of the resolution one after the other, from the graph as it was. -/
theorem pruned_resolve (wellFormed : WellFormed graph) (hPlaced : ∀ id < graph.nodes.size, Settled graph id)
    (removeCopies : Bool) :
    Pruned regions.catchVariables regions.copies graph ((regions.resolve removeCopies).run graph).2 := by
  have kept := pruned_queries regions.catchVariables regions.copies graph
  have hLinked := kept.linkHandlers (fun start handler now pruned => ⟨trivial, pruned.addHandlerEdge start handler⟩)
    (fun start id now pruned => ⟨trivial, pruned.update start _ (fun _ => rfl) (fun _ => rfl) fun _ pared => pared⟩)
    regions
  have hCopies : GraphM.Ensures (Pruned regions.catchVariables regions.copies graph)
      ((List.range regions.list.length).foldlM (fun regions id => regions.removeFinallyCopies id) regions)
      (Covered regions.catchVariables regions.copies) :=
    GraphM.Ensures.foldlM _ (fun _ id covered => pruned_removeFinallyCopies covered id)
      ⟨List.Subset.refl _, List.Subset.refl _⟩
  have hResolved := kept.resolve (fun source target now pruned => ⟨trivial, pruned.disconnect source target⟩) hLinked
    (hCopies.weaken fun _ _ => trivial) removeCopies
  exact (hResolved graph (.refl _ _ wellFormed hPlaced)).2

/-- Of a node that cannot be reached from where a copy of a finally block begins, nothing is lost but a rethrow. -/
theorem pared_resolve (wellFormed : WellFormed graph) (hPlaced : ∀ id < graph.nodes.size, Settled graph id)
    (removeCopies : Bool) (hLive : (graph.node id).disposed = false)
    (hApart : ∀ begin ∈ regions.copies, ¬ReflTransGen graph.Edge begin id) :
    (((regions.resolve removeCopies).run graph).2.node id).disposed = false ∧
      Pared regions.catchVariables (graph.node id).stack
        (((regions.resolve removeCopies).run graph).2.node id).stack := by
  have pruned : Pruned regions.catchVariables regions.copies graph _ :=
    pruned_resolve wellFormed hPlaced removeCopies
  have hStays : (((regions.resolve removeCopies).run graph).2.node id).disposed = false := by
    by_contra hGone
    obtain hBefore | ⟨begin, hBegin, hWay⟩ := pruned.gone id (Bool.not_eq_false _ ▸ hGone)
    · simp [hLive] at hBefore
    · exact hApart begin hBegin hWay
  exact ⟨hStays, pruned.kept id hStays⟩

section Fixed

/-- A protected call, a node with the copy of a finally block and a return after it, and the finally block. -/
def inlined : Graph :=
  let call : Operand := { id := 0, type := .known .void, statement := true, kind := .call "A" "f" "()V" none [] false }
  Operation.run {} [.label 0, .append 0, .label 1, .append 1, .label 2, .append 2, .connect 0 1, .push 0 call,
    .push 1 call, .push 1 { call with kind := .returns none }, .push 2 call, .computeBackedges]

/-- The copy begins at the node, so the return goes with it, although the finally block does not return. -/
example : let regions := (({} : Regions).add inlined 0 1 2 none).1
    regions.copies = [1] ∧ (((regions.resolve true).run inlined).2.node 1).disposed = true := by
  decide +kernel

end Fixed

end Regions

end Decompiler
