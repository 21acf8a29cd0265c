import Decompiler.Decompile
import Decompiler.Proofs.Graph.Operation
import Decompiler.Proofs.Region.Rules

/-!
The edges that are removed when protected regions are resolved. No edge is ever removed but one from a node
of a handler to a loop header that the handler does not dominate, where the nodes of a handler are those found
from it along edges to nodes that it dominates. Dominance changes while edges are removed, so each of these
facts is about the graph at the moment at which the removal asks for it.

Only edges that come from the layout of a handler inside a loop are meant to go. What is asked does not tell them from
a jump that the handler itself makes to the header, so that jump is lost too, and control seems to go on after the
protected body.
-/

namespace Decompiler

namespace Graph

variable {handlers : List NodeId} {linked begun now graph : Graph} {known found : List (NodeId × NodeId)}
  {handler id source target : NodeId}

/-- The removal of edges from one moment to another, told by the graph and by the nodes found so far, each with
the handler that it belongs to. Every step takes an edge of a node found and asks whether the handler dominates
the other end of it. If so, that node may be added to the handler's. If not, the edge may be removed, provided
that it leads to a loop header. -/
inductive Purging (linked begun : Graph) (known : List (NodeId × NodeId)) :
    Graph → List (NodeId × NodeId) → Prop where
  | start : Purging linked begun known begun known
  | ask {now : Graph} {found : List (NodeId × NodeId)} {handler id target : NodeId}
      (before : Purging linked begun known now found) (hFound : (handler, id) ∈ found)
      (hEdge : linked.Edge id target) :
      Purging linked begun known ((hasDominator target handler).run now).2 found
  | belong {now : Graph} {found : List (NodeId × NodeId)} {handler id target : NodeId}
      (before : Purging linked begun known now found) (hFound : (handler, id) ∈ found)
      (hEdge : linked.Edge id target) (hInside : ((hasDominator target handler).run now).1 = true) :
      Purging linked begun known ((hasDominator target handler).run now).2 ((handler, target) :: found)
  | cut {now : Graph} {found : List (NodeId × NodeId)} {handler id target : NodeId}
      (before : Purging linked begun known now found) (hFound : (handler, id) ∈ found)
      (hEdge : linked.Edge id target) (hOutside : ((hasDominator target handler).run now).1 = false)
      (hHeader : (now.node target).backedges ≠ []) :
      Purging linked begun known (((hasDominator target handler).run now).2.disconnect id target) found

/-- Every handler belongs to itself from the beginning. -/
def ownNodes (handlers : List NodeId) : List (NodeId × NodeId) := handlers.map fun handler => (handler, handler)

@[simp] theorem mem_ownNodes : (handler, id) ∈ ownNodes handlers ↔ handler ∈ handlers ∧ handler = id := by
  rw [ownNodes, List.mem_map]
  constructor
  · rintro ⟨_, hHandler, hSame⟩
    cases hSame
    exact ⟨hHandler, rfl⟩
  · rintro ⟨hHandler, rfl⟩
    exact ⟨handler, hHandler, rfl⟩

/-- On the way to the given graph there is a moment at which the edge leads from a node of a handler to a loop
header that the handler does not dominate, and at which it is removed. -/
def LeavesHandler (handlers : List NodeId) (linked after : Graph) (found : List (NodeId × NodeId))
    (source target : NodeId) : Prop :=
  ∃ now known handler, Purging linked linked (ownNodes handlers) now known ∧ (handler, source) ∈ known ∧
    ((hasDominator target handler).run now).1 = false ∧ (now.node target).backedges ≠ [] ∧
    Purging linked (((hasDominator target handler).run now).2.disconnect source target) known after found

namespace Purging

/-- The removal adds no edge. -/
theorem edge_before (purging : Purging linked begun known now found) (hEdge : now.Edge source target) :
    begun.Edge source target := by
  induction purging with
  | start => exact hEdge
  | ask _ _ _ ih | belong _ _ _ _ ih => exact ih ((onlyAsks_hasDominator _ _ _).edge_iff.mp hEdge)
  | cut _ _ _ _ _ ih =>
      exact ih ((onlyAsks_hasDominator _ _ _).edge_iff.mp (edge_disconnect.mp hEdge).1)

/-- An edge is there still, or it left a handler when its turn came. -/
theorem edge_or_leaves (purging : Purging linked linked (ownNodes handlers) now found)
    (hEdge : linked.Edge source target) :
    now.Edge source target ∨ LeavesHandler handlers linked now found source target := by
  have hLater {now after : Graph} {known found : List (NodeId × NodeId)}
      (hStep : ∀ {begun start}, Purging linked begun start now known → Purging linked begun start after found) :
      LeavesHandler handlers linked now known source target → LeavesHandler handlers linked after found source target :=
    fun ⟨moment, earlier, handler, before, hFound, hOutside, hHeader, rest⟩ =>
      ⟨moment, earlier, handler, before, hFound, hOutside, hHeader, hStep rest⟩
  induction purging with
  | start => exact .inl hEdge
  | ask _ hFound hAsked ih =>
      exact ih.imp (onlyAsks_hasDominator _ _ _).edge_iff.mpr (hLater fun rest => rest.ask hFound hAsked)
  | belong _ hFound hAsked hInside ih =>
      exact ih.imp (onlyAsks_hasDominator _ _ _).edge_iff.mpr (hLater fun rest => rest.belong hFound hAsked hInside)
  | @cut now found handler id other before hFound hAsked hOutside hHeader ih =>
      by_cases hCut : source = id ∧ target = other
      · obtain ⟨rfl, rfl⟩ := hCut
        exact .inr ⟨now, found, handler, before, hFound, hOutside, hHeader, .start⟩
      · refine ih.imp (fun hKept => edge_disconnect.mpr ⟨?_, hCut⟩)
          (hLater fun rest => rest.cut hFound hAsked hOutside hHeader)
        exact (onlyAsks_hasDominator _ _ _).edge_iff.mpr hKept

/-- No node is forgotten. -/
theorem known_subset (purging : Purging linked begun known now found) : known ⊆ found := by
  induction purging with
  | start => exact List.Subset.refl _
  | ask _ _ _ ih | cut _ _ _ _ _ ih => exact ih
  | belong _ _ _ _ ih => exact List.subset_cons_of_subset _ ih

/-- A loop header was one from the beginning. -/
theorem header_before (purging : Purging linked begun known now found) (hHeader : (now.node target).backedges ≠ []) :
    (begun.node target).backedges ≠ [] := by
  have hAsked {now : Graph} {other handler : NodeId} :
      (((hasDominator other handler).run now).2.node target).backedges = (now.node target).backedges :=
    (onlyAsks_hasDominator other handler now).field Node.backedges (fun _ => rfl) target
  induction purging with
  | start => exact hHeader
  | ask _ _ _ ih | belong _ _ _ _ ih => exact ih (hAsked ▸ hHeader)
  | cut _ _ _ _ _ ih =>
      refine ih fun hNone => hHeader ?_
      rw [backedges_disconnect, hAsked, hNone]
      split <;> rfl

end Purging

theorem LeavesHandler.header (leaves : LeavesHandler handlers linked now found source target) :
    (linked.node target).backedges ≠ [] := by
  obtain ⟨moment, known, handler, before, -, -, hHeader, -⟩ := leaves
  exact before.header_before hHeader

/-! ### The removal goes through such moments -/

/-- From any moment at which the given nodes are known to belong to the handler, the action leads to a moment at
which its result does so too, and no node is forgotten on the way. -/
def Purges {α : Type} (handlers : List NodeId) (linked : Graph) (handler : NodeId) (given : List NodeId)
    (action : GraphM α) (result : α → List NodeId) : Prop :=
  ∀ now found, Purging linked linked (ownNodes handlers) now found → (∀ id ∈ given, (handler, id) ∈ found) →
    ∃ later, Purging linked linked (ownNodes handlers) (action.run now).2 later ∧ found ⊆ later ∧
      ∀ id ∈ result (action.run now).1, (handler, id) ∈ later

namespace Purges

variable {α β : Type} {given : List NodeId} {action : GraphM α} {next : α → GraphM β}
  {result : α → List NodeId} {final : β → List NodeId}

theorem pure {value : α} (hResult : result value ⊆ given) :
    Purges handlers linked handler given (Pure.pure value) result := fun _ found purging hGiven =>
  ⟨found, purging, List.Subset.refl found, fun id hId => hGiven id (hResult hId)⟩

theorem bind (first : Purges handlers linked handler given action result)
    (second : ∀ value, Purges handlers linked handler (given ++ result value) (next value) final) :
    Purges handlers linked handler given (action >>= next) final := fun now found purging hGiven => by
  obtain ⟨later, hLater, hKept, hResult⟩ := first now found purging hGiven
  obtain ⟨last, hLast, hKept', hFinal⟩ := second _ _ later hLater fun id hId =>
    (List.mem_append.mp hId).elim (fun hId => hKept (hGiven id hId)) (hResult id)
  exact ⟨last, hLast, List.Subset.trans hKept hKept', hFinal⟩

/-- The graph that is looked at has no edge that was not there at first. -/
theorem look {next : Graph → GraphM β}
    (second : ∀ now : Graph, (∀ id target, now.Edge id target → linked.Edge id target) →
      Purges handlers linked handler given (next now) final) :
    Purges handlers linked handler given (MonadState.get >>= next) final := fun now found purging =>
  second now (fun _ _ => purging.edge_before) now found purging

/-- Nodes are collected one after the other. -/
theorem collect {γ : Type} {step : List NodeId → γ → GraphM (List NodeId)} (items : List γ)
    (hStep : ∀ item ∈ items, ∀ fresh,
      Purges handlers linked handler (given ++ fresh) (step fresh item) fun fresh => fresh) :
    Purges handlers linked handler given (items.foldlM step []) fun fresh => fresh := by
  have hFrom : ∀ fresh, Purges handlers linked handler (given ++ fresh) (items.foldlM step fresh) fun fresh => fresh := by
    induction items with
    | nil => exact fun fresh => .pure (List.subset_append_right _ _)
    | cons item rest ih =>
        intro fresh
        rw [List.foldlM_cons]
        refine (hStep item List.mem_cons_self fresh).bind fun more now found purging hGiven => ?_
        refine ih (fun item hItem => hStep item (List.mem_cons_of_mem _ hItem)) more now found purging fun id hId => ?_
        refine hGiven id ((List.mem_append.mp hId).elim (fun hId => ?_) (List.mem_append_right _))
        exact List.mem_append_left _ (List.mem_append_left _ hId)
  simpa using hFrom []

end Purges

/-- What becomes of an edge from a node of the handler, once it is known whether its end belongs to the handler. -/
theorem run_edge {dominated : Bool} {asked : Graph} (hRun : (hasDominator target handler).run now = (dominated, asked))
    (seen fresh : List NodeId) :
    StateT.run (do
      if ← hasDominator target handler then
        return if (seen ++ fresh).contains target then fresh else fresh ++ [target]
      else
        unless ((← get).node target).backedges.isEmpty do modify (·.disconnect id target)
        return fresh : GraphM (List NodeId)) now =
      if dominated then (if (seen ++ fresh).contains target then fresh else fresh ++ [target], asked)
      else (fresh, if (asked.node target).backedges.isEmpty then asked else asked.disconnect id target) := by
  rw [StateT.run_bind, hRun]
  cases dominated with
  | true => rfl
  | false =>
      change StateT.run (do
        unless ((← get).node target).backedges.isEmpty do modify (·.disconnect id target)
        return fresh : GraphM (List NodeId)) asked = _
      rw [StateT.run_bind, StateT.run_get, pure_bind]
      dsimp only
      split <;> rfl

/-- An edge from a node of the handler is followed, removed or left as it is. -/
theorem purges_edge {given : List NodeId} (hId : id ∈ given) (hEdge : linked.Edge id target) {fresh : List NodeId}
    (hFresh : fresh ⊆ given) (seen : List NodeId) :
    Purges handlers linked handler given (do
      if ← hasDominator target handler then
        return if (seen ++ fresh).contains target then fresh else fresh ++ [target]
      else
        unless ((← get).node target).backedges.isEmpty do modify (·.disconnect id target)
        return fresh) fun fresh => fresh := by
  intro now found purging hGiven
  have hFound := hGiven id hId
  have hKnown : ∀ id ∈ fresh, (handler, id) ∈ found := fun id hMember => hGiven id (hFresh hMember)
  have hSame := (onlyAsks_hasDominator target handler now).field Node.backedges (fun _ => rfl) target
  have hAsk := purging.ask hFound hEdge
  have hBelong := purging.belong hFound hEdge
  have hCut := purging.cut hFound hEdge
  rcases hRun : (hasDominator target handler).run now with ⟨dominated, asked⟩
  rw [hRun] at hSame hAsk hBelong hCut
  rw [run_edge hRun]
  cases dominated with
  | true =>
      refine ⟨(handler, target) :: found, hBelong rfl, List.subset_cons_self _ _, fun other hOther => ?_⟩
      simp only [↓reduceIte] at hOther
      split at hOther
      · exact List.mem_cons_of_mem _ (hKnown other hOther)
      · rcases List.mem_append.mp hOther with hOther | hOther
        · exact List.mem_cons_of_mem _ (hKnown other hOther)
        · exact List.mem_singleton.mp hOther ▸ List.mem_cons_self
  | false =>
      refine ⟨found, ?_, List.Subset.refl _, hKnown⟩
      simp only [Bool.false_eq_true, ↓reduceIte]
      split
      · exact hAsk
      · next hHeader => exact hCut rfl (by simpa [hSame] using hHeader)

/-- Going through the nodes of the handler is a removal of edges. -/
theorem purges_purgeLoopEdges (fuel : Nat) (waiting seen : List NodeId) (hWaiting : waiting ⊆ seen) :
    Purges handlers linked handler seen (purgeLoopEdges handler fuel waiting seen) fun _ => [] := by
  induction fuel generalizing waiting seen with
  | zero => exact .pure (List.nil_subset _)
  | succ fuel ih =>
      cases waiting with
      | nil => exact .pure (List.nil_subset _)
      | cons id waiting =>
          refine .look fun now hEdges => (Purges.collect _ fun target hTarget fresh => ?_).bind fun fresh => ?_
          · exact purges_edge (List.mem_append_left _ (hWaiting List.mem_cons_self)) (hEdges id target hTarget)
              (List.subset_append_right seen fresh) seen
          · exact ih (waiting ++ fresh) (seen ++ fresh) (List.append_subset.mpr
              ⟨List.subset_append_of_subset_left _ (List.subset_of_cons_subset hWaiting), List.subset_append_right _ _⟩)

end Graph

namespace Regions

open Decompiler.Graph

variable {regions : Regions} {graph : Graph} {source target : NodeId}

/-- The graph once the handlers are linked and the exits are known, before any edge is removed. -/
def linked (regions : Regions) (graph : Graph) : Graph :=
  ((regions.linkHandlers >>= fun _ => regions.findExits).run graph).2

/-- The nodes at which the handlers of the regions begin. -/
def handlerNodes (regions : Regions) : List NodeId := regions.handlers.map Handler.node

theorem handlers_findExits (regions : Regions) (graph : Graph) :
    (regions.findExits.run graph).1.handlers = regions.handlers := by
  have hEach (list : List Region) : GraphM.Ensures (fun _ => True)
      (list.mapM fun region => do return { region with exit := ← Graph.searchExit region })
      fun found => found.flatMap Region.handlers = list.flatMap Region.handlers := by
    induction list with
    | nil => exact .pure rfl
    | cons region rest ih =>
        rw [List.mapM_cons]
        have hFirst : GraphM.Ensures (fun _ => True)
            (do return { region with exit := ← Graph.searchExit region } : GraphM Region)
            fun found => found.handlers = region.handlers := fun _ _ => ⟨rfl, trivial⟩
        exact hFirst.bind fun found hFound => ih.bind fun others hOthers => .pure (by simp [hFound, hOthers])
  exact (hEach regions.list graph trivial).1

/-- Linking the handlers leaves the edges and their marks as they are. -/
theorem ties_linkHandlers (regions : Regions) (graph : Graph) (id : NodeId) :
    ((regions.linkHandlers.run graph).2.node id).ties = (graph.node id).ties := by
  have compositional : Compositional fun {α : Type} (action : GraphM α) =>
      ∀ graph, ((action.run graph).2.node id).ties = (graph.node id).ties :=
    ⟨fun _ _ => rfl, fun first second graph => (second _ _).trans (first graph)⟩
  exact compositional.linkHandlers (fun start handler graph => field_addHandlerEdge Node.ties (fun _ _ => rfl) start handler)
    (fun start _ graph => field_update Node.ties _ rfl) regions graph

theorem ties_linked (regions : Regions) (graph : Graph) (id : NodeId) :
    ((regions.linked graph).node id).ties = (graph.node id).ties :=
  ((onlyAsks_queries.findExits regions _).field Node.ties (fun _ => rfl) id).trans (ties_linkHandlers regions graph id)

theorem ensures_purgeHandlers (regions : Regions) (linked : Graph) :
    GraphM.Ensures (fun now => ∃ found, Purging linked linked (ownNodes regions.handlerNodes) now found)
      regions.purgeHandlers fun _ => True := by
  have compositional := GraphM.Ensures.compositional fun now =>
    ∃ found, Purging linked linked (ownNodes regions.handlerNodes) now found
  refine compositional.bind (compositional.forIn_of_mem _ (fun region hRegion _ => ?_) _) fun _ => compositional.pure _
  refine compositional.bind (compositional.forIn_of_mem _ (fun handler hHandler _ => ?_) _) fun _ => compositional.pure _
  have hMember : handler.node ∈ regions.handlerNodes :=
    List.mem_map_of_mem (List.mem_flatMap_of_mem hRegion hHandler)
  refine GraphM.Ensures.get.bind fun start _ => compositional.bind ?_ fun _ => compositional.pure _
  rintro now ⟨found, purging⟩
  obtain ⟨later, hLater, -⟩ := purges_purgeLoopEdges (start.nodes.size + 1) [handler.node] [handler.node]
    (List.Subset.refl _) now found purging (by simpa using purging.known_subset (mem_ownNodes.mpr ⟨hMember, rfl⟩))
  exact ⟨trivial, later, hLater⟩

/-- Resolving regions without removing copies ends with the removal of edges. -/
theorem purging_resolve (regions : Regions) (graph : Graph) :
    ∃ found, Purging (regions.linked graph) (regions.linked graph) (ownNodes regions.handlerNodes)
      ((regions.resolve false).run graph).2 found := by
  have hHandlers : (regions.findExits.run (regions.linkHandlers.run graph).2).1.handlerNodes = regions.handlerNodes :=
    congrArg (List.map Handler.node) (handlers_findExits regions _)
  have hPurged := ensures_purgeHandlers (regions.findExits.run (regions.linkHandlers.run graph).2).1
    (regions.linked graph) (regions.linked graph) ⟨_, .start⟩
  rw [hHandlers] at hPurged
  exact hPurged.2

/-- Resolving regions removes no edge, but for edges that lead from a node of a handler to a loop header that the
handler does not dominate. These may be jumps of the unit, and then they ought to stay. -/
theorem edge_resolve (regions : Regions) (graph : Graph) (hEdge : graph.Edge source target) :
    ((regions.resolve false).run graph).2.Edge source target ∨
      ((graph.node target).backedges ≠ [] ∧
        ∃ found, LeavesHandler regions.handlerNodes (regions.linked graph) ((regions.resolve false).run graph).2 found
          source target) := by
  have hTies (id : NodeId) := ties_linked regions graph id
  simp only [Node.ties, Prod.mk.injEq] at hTies
  obtain ⟨found, purging⟩ := purging_resolve regions graph
  have hLinked : (regions.linked graph).Edge source target := by rwa [Edge, (hTies source).1]
  exact (purging.edge_or_leaves hLinked).imp_right fun leaves =>
    ⟨(hTies target).2.2.1 ▸ leaves.header, found, leaves⟩

section Fixed

/-- The handler of a protected loop body jumps back to the header, which is the node with the number 1. -/
def retry : Graph :=
  Operation.run {} [.label 0, .append 0, .label 1, .append 1, .label 2, .append 2, .label 3, .append 3,
    .connect 0 1, .connect 1 3, .connect 3 1, .connect 2 1, .computeBackedges]

/-- The body reaches from the header to the node with the number 3. -/
def guarded : Regions × Graph := ({} : Regions).add retry 1 3 2 (some "A")

theorem edge_resolve_guarded : guarded.2.Edge 2 1 ∧ (guarded.2.node 1).backedges ≠ [] ∧
    ∃ found, LeavesHandler guarded.1.handlerNodes (guarded.1.linked guarded.2)
      ((guarded.1.resolve false).run guarded.2).2 found 2 1 := by
  have hEdge : guarded.2.Edge 2 1 := by unfold Edge; decide +kernel
  refine ⟨hEdge, (edge_resolve guarded.1 guarded.2 hEdge).resolve_left ?_⟩
  unfold Edge
  decide +kernel

/-- A fault: the jump back is the handler's own, and after the protected body control goes on elsewhere. It is removed
all the same. -/
theorem retry_removed : 1 ∈ (guarded.2.node 2).outgoing ∧
    1 ∉ (((guarded.1.resolve false).run guarded.2).2.node 2).outgoing ∧
    ((guarded.1.resolve false).run guarded.2).1.list.map Region.exit = [some 3] := by
  decide +kernel

/-- While the argument is not zero `f` and `after` are called. If `f` fails `h` is called instead of `after`. -/
def retrying : CompiledUnit where
  owner := "A"
  name := "m"
  descriptor := "(I)V"
  isStatic := true
  events :=
    [.tryCatch 1 2 3 "E", .method .invokestatic ⟨"A", "before", "()V"⟩, .label 0, .frame .same 0 0, .var .iload 0,
      .jump .ifeq 5, .label 1, .method .invokestatic ⟨"A", "f", "()V"⟩, .label 2, .jump .goto 4, .label 3,
      .frame .same1 0 1, .var .astore 1, .method .invokestatic ⟨"A", "h", "()V"⟩, .jump .goto 0, .label 4,
      .frame .same 0 0, .method .invokestatic ⟨"A", "after", "()V"⟩, .jump .goto 0, .label 5, .frame .same 0 0,
      .insn .vreturn]

/-- The listing of the unit, in which `after` is called after `h` too. -/
def retryingText : String :=
  "static void m(int arg0) \x7b\n" ++
  "    A.before();\n" ++
  "    while (arg0 != 0) \x7b\n" ++
  "        try \x7b\n" ++
  "            A.f();\n" ++
  "        \x7d catch (E local1) \x7b\n" ++
  "            A.h();\n" ++
  "        \x7d\n" ++
  "        A.after();\n" ++
  "    \x7d\n" ++
  "    return;\n" ++
  "\x7d\n"

/-- The fault as it shows in the text of a unit: nothing is left of the jump with which the handler ends. -/
theorem retry_lost : (decompile {} retrying).toOption = some retryingText := by decide +kernel

end Fixed

end Regions

end Decompiler
