import Decompiler.Execution.Run
import Decompiler.Proofs.Execution.Rules
import Decompiler.Proofs.Graph.DepthFirst
import Decompiler.Proofs.Graph.Separation
import Decompiler.Proofs.Region.Rules

/-!
What the end of a unit makes of its nodes. Each node has its turn: an empty one is dropped, and a mixed one is split. When
all turns are over, a live node holds conditions only or none. What comes after takes operands away at most, as long as
no declarations are placed.
-/

namespace Decompiler

namespace Graph

variable {graph after : Graph} {waiting : List NodeId} {id other target : NodeId}

theorem uniform_nil : Uniform [] := .inl (by simp)

theorem Uniform.dropLast {operands : List Operand} (uniform : Uniform operands) : Uniform operands.dropLast :=
  uniform.imp (fun hAll operand hOperand => hAll operand (List.dropLast_subset _ hOperand))
    fun hNone operand hOperand => hNone operand (List.dropLast_subset _ hOperand)

/-- Of the live nodes only those that wait for their turn may be mixed. -/
def Sorted (waiting : List NodeId) (graph : Graph) : Prop :=
  ∀ id ∈ graph.order, (graph.node id).disposed = false → id ∉ waiting → Uniform (graph.node id).stack

/-- No node is placed or comes back, and what is uniform stays so. -/
theorem Sorted.thin (sorted : Sorted waiting graph) (hOrder : after.order ⊆ graph.order)
    (hLive : ∀ id, (after.node id).disposed = false → (graph.node id).disposed = false)
    (hStack : ∀ id, Uniform (graph.node id).stack → Uniform (after.node id).stack) : Sorted waiting after :=
  fun id hId hStays hTurn => hStack id (sorted id (hOrder hId) (hLive id hStays) hTurn)

/-- A change of other things than operands. -/
theorem Sorted.congr (sorted : Sorted waiting graph) (hOrder : after.order = graph.order)
    (hKeep : ∀ id, ((after.node id).stack, (after.node id).disposed) = ((graph.node id).stack, (graph.node id).disposed)) :
    Sorted waiting after := by
  simp only [Prod.mk.injEq] at hKeep
  exact sorted.thin (hOrder ▸ List.Subset.refl _) (fun id => (hKeep id).2 ▸ fun hLive => hLive)
    fun id => (hKeep id).1 ▸ fun uniform => uniform

theorem Sorted.update (sorted : Sorted waiting graph) (id : NodeId) (change : Node → Node)
    (hKeep : ∀ node, (change node).disposed = node.disposed)
    (hStack : ∀ node, Uniform node.stack → Uniform (change node).stack) : Sorted waiting (graph.update id change) := by
  refine sorted.thin (List.Subset.refl _) (fun other hLive => ?_) fun other uniform => ?_
  · rwa [field_update Node.disposed change (hKeep _)] at hLive
  · rw [node_update]
    split
    · exact hStack _ uniform
    · exact uniform

/-! ### Turns -/

/-- A node that goes leaves the others as uniform as they were, if nobody takes over its operands. -/
theorem uniform_disposeOne {clearStack : Bool} (hMoved : clearStack = true ∨ (graph.node target).stack = [])
    (uniform : Uniform (graph.node other).stack) : Uniform ((graph.disposeOne target clearStack).node other).stack := by
  have hRedirected (id : NodeId) :
      ((((graph.rewired target).redirectReferences target (graph.redirection target)).node id).stack.map
        Operand.isCondition) = (graph.node id).stack.map Operand.isCondition := by
    refine (field_foldl_update (fun node => node.stack.map Operand.isCondition) _ (fun node => ?_) _).trans ?_
    · simp [Function.comp_def, Operand.isCondition_redirect]
    · exact field_rewired (fun node => node.stack.map Operand.isCondition) (fun _ _ _ => rfl) fun _ => rfl
  rw [disposeOne_eq]
  change Uniform (Graph.node (Graph.update _ target retire) other).stack
  rw [node_update]
  split
  · exact uniform_nil
  refine (uniform_congr (Eq.trans ?_ (hRedirected other))).mpr uniform
  unfold moveStack
  split
  · split
    · rfl
    · next hKept =>
        have hEmpty := hMoved.resolve_left hKept
        refine field_update (fun node => node.stack.map Operand.isCondition) _ ?_
        have hNone := hRedirected target
        rw [hEmpty, List.map_nil, List.map_eq_nil_iff] at hNone
        simp [addOperands, hNone]
  · rfl

theorem Sorted.disposeOne {clearStack : Bool} (sorted : Sorted waiting graph)
    (hMoved : clearStack = true ∨ (graph.node target).stack = []) :
    Sorted waiting (graph.disposeOne target clearStack) := by
  refine sorted.thin ?_ (fun id hLive => ?_) fun id => uniform_disposeOne hMoved
  · rw [order_disposeOne]
    exact List.erase_subset
  · rw [isDisposed_disposeOne, Bool.or_eq_false_iff] at hLive
    exact hLive.2

/-- A node whose turn is over. -/
theorem Sorted.turn (sorted : Sorted (id :: waiting) graph)
    (hDone : (graph.node id).disposed = false → Uniform (graph.node id).stack) : Sorted waiting graph :=
  fun other hOther hLive hWaiting => by
    by_cases hSame : other = id
    · exact hSame ▸ hDone (hSame ▸ hLive)
    · exact sorted other hOther hLive (List.not_mem_cons_of_ne_of_not_mem hSame hWaiting)

theorem Sorted.splitMixed (sorted : Sorted (id :: waiting) graph) : Sorted waiting (graph.splitMixed id).2 := by
  have frame : SplitFrame graph (graph.splitMixed id).2 := frame_splitFrom graph _ id
  intro other hOther hLive hWaiting
  refine uniform_splitFrom _ (Nat.le_refl _) (or_iff_not_imp_left.mpr fun hApart => ?_)
  rw [frame.disposed] at hLive
  by_cases hOld : other < graph.nodes.size
  · exact sorted other ((frame.order other hOld).mp hOther) hLive (List.not_mem_cons_of_ne_of_not_mem hApart hWaiting)
  · rw [node_of_size_le (Nat.not_lt.mp hOld)]
    exact uniform_nil

theorem Sorted.settleNode (sorted : Sorted (id :: waiting) graph) : Sorted waiting (Execution.settleNode id graph) := by
  unfold Execution.settleNode
  dsimp only
  split
  · next hGone => exact sorted.turn fun hLive => by simp [hGone] at hLive
  · next hLive =>
      split
      · next hDropped =>
          have hEmpty : (graph.node id).stack = [] := List.isEmpty_iff.mp (Bool.and_eq_true_iff.mp hDropped).2
          rw [dispose_plain false (Bool.not_eq_true _ ▸ hLive)]
          exact (sorted.turn fun _ => hEmpty ▸ uniform_nil).disposeOne (.inr hEmpty)
      · exact sorted.splitMixed

/-- When every node has had its turn, no live node is mixed. -/
theorem sorted_settle (graph : Graph) : Sorted [] (Execution.settle graph) := by
  have hTurns (ids : List NodeId) (now : Graph) (sorted : Sorted ids now) :
      Sorted [] (ids.foldl (fun graph id => Execution.settleNode id graph) now) := by
    induction ids generalizing now with
    | nil => exact sorted
    | cons id rest ih => exact ih _ sorted.settleNode
  exact hTurns graph.order graph fun id hId _ hTurn => absurd hId hTurn

/-! ### Passes after the turns -/

theorem Sorted.computeBackedges (sorted : Sorted waiting graph) : Sorted waiting graph.computeBackedges :=
  computeBackedges_of_marks (Sorted waiting) (fun _ id sorted => sorted.update id _ (fun _ => rfl) fun _ uniform => uniform)
    (fun _ _ target sorted => sorted.update target _ (fun _ => by split <;> rfl) fun _ uniform => by
      split <;> exact uniform)
    (fun _ sorted => sorted) sorted

theorem sorted_queries : HoldsOfQueries fun {α : Type} (action : GraphM α) =>
    GraphM.Ensures (Sorted []) action fun _ => True where
  toCompositional := GraphM.Ensures.compositional _
  get := GraphM.Ensures.get.weaken fun _ _ => trivial
  dominator id now sorted := by
    have same := onlyAsks_dominator id now
    exact ⟨trivial, sorted.congr same.order (same.field (fun node => (node.stack, node.disposed)) fun _ => rfl)⟩
  hasDominator id candidate now sorted := by
    have same := onlyAsks_hasDominator id candidate now
    exact ⟨trivial, sorted.congr same.order (same.field (fun node => (node.stack, node.disposed)) fun _ => rfl)⟩

/-- A node goes with all that it holds. -/
theorem Sorted.clear (sorted : Sorted waiting graph) (id : NodeId) : Sorted waiting (graph.dispose id true false).2 := by
  cases hLive : (graph.node id).disposed with
  | true =>
      rw [dispose, disposeFrom, if_pos hLive]
      exact sorted
  | false =>
      rw [dispose_plain true hLive]
      exact sorted.disposeOne (.inl rfl)

theorem sorted_resolve (regions : Regions) (removeCopies : Bool) :
    GraphM.Ensures (Sorted []) (regions.resolve removeCopies) fun _ => True := by
  refine sorted_queries.resolve (fun source target now sorted => ⟨trivial, ?_⟩) ?_ ?_ removeCopies
  · have same := sameBlocks_disconnect now source target
    exact sorted.congr same.order (same.field (fun node => (node.stack, node.disposed)) fun _ => rfl)
  · refine sorted_queries.linkHandlers (fun start handler now sorted => ⟨trivial, ?_⟩)
      (fun start id now sorted => ⟨trivial, sorted.update start _ (fun _ => rfl) fun _ uniform => uniform⟩) regions
    refine sorted.congr ?_ fun id => field_addHandlerEdge (fun node => (node.stack, node.disposed)) (fun _ _ => rfl) _ _
    change (now.addHandlerEdge start handler).order = now.order
    unfold addHandlerEdge
    split <;> rfl
  · refine sorted_queries.foldlM (fun regions id => ?_) _ regions
    exact sorted_queries.removeFinallyCopies
      (fun id now sorted => ⟨trivial, sorted.update id _ (fun _ => rfl) fun _ uniform => uniform.dropLast⟩)
      (fun id now sorted => ⟨trivial, sorted.clear id⟩) regions id

end Graph

namespace Execution

open Decompiler.Graph

/-- A step on the graph that keeps it sorted. -/
theorem sorted_graph {α : Type} {step : GraphM α} (keeps : GraphM.Ensures (Sorted []) step fun _ => True)
    {setting : Setting} {state after : Execution} {value : α}
    (hRun : ((step : ExecutionM α) setting).run.run state = (.ok value, after)) (sorted : Sorted [] state.graph) :
    Sorted [] after.graph := by
  cases hRun
  exact (keeps state.graph sorted).2

theorem sorted_finish {setting : Setting} {state after : Execution} (hPlain : setting.options.placeDeclarations = false)
    (hRun : (finish setting).run.run state = (.ok (), after)) : Sorted [] after.graph := by
  obtain ⟨_, settled, hSettled, hRun⟩ := run_bind_ok hRun
  have sorted : Sorted [] settled.graph := by
    cases hSettled
    exact sorted_settle state.graph
  obtain ⟨_, _, hLook, hRun⟩ := run_bind_ok hRun
  cases hLook
  extract_lets resolve at hRun
  split at hRun
  · obtain ⟨_, _, hRefused, -⟩ := run_bind_ok hRun
    exact (run_refuse_ne hRefused).elim
  obtain ⟨_, marked, hMarked, hRun⟩ := run_bind_ok hRun
  replace sorted : Sorted [] marked.graph := by
    cases hMarked
    exact sorted.computeBackedges
  obtain ⟨_, _, hRead, hRun⟩ := run_bind_ok hRun
  cases hRead
  obtain ⟨_, _, hLook, hRun⟩ := run_bind_ok hRun
  cases hLook
  obtain ⟨regions, resolved, hResolved, hRun⟩ := run_bind_ok hRun
  replace sorted := sorted_graph (sorted_resolve _ _) hResolved sorted
  obtain ⟨_, noted, hNoted, hRun⟩ := run_bind_ok hRun
  replace sorted : Sorted [] noted.graph := by
    cases hNoted
    exact sorted
  extract_lets trace at hRun
  rw [if_neg (by simp [hPlain])] at hRun
  dsimp only [trace] at hRun
  split at hRun
  · cases hRun
    exact sorted
  · cases hRun
    exact sorted

end Execution

/-- The live nodes of a unit hold conditions only or none, as long as no declarations are placed. -/
theorem MethodBody.uniform_ofUnit {unit : CompiledUnit} {setting : Setting} {body : MethodBody}
    (hPlain : setting.options.placeDeclarations = false) (hBody : (MethodBody.ofUnit unit setting).1 = .ok body) :
    ∀ id ∈ body.graph.order, (body.graph.node id).disposed = false → Graph.Uniform (body.graph.node id).stack := by
  unfold MethodBody.ofUnit at hBody
  split at hBody
  · cases hBody
  · rename_i descriptor _
    rcases hRun : (Execution.runEvents unit.events setting).run.run (Execution.initial unit descriptor) with
      ⟨_ | outcome, state⟩
    · rw [hRun] at hBody
      cases hBody
    · rw [hRun] at hBody
      cases hBody
      obtain ⟨_, executed, -, hFinish⟩ := run_bind_ok hRun
      exact fun id hId hLive => Execution.sorted_finish hPlain hFinish id hId hLive (List.not_mem_nil)

section Fixed

/-- The arm of a switch assigns a local in the test of a condition. -/
def assigning : CompiledUnit where
  owner := "A"
  name := "m"
  descriptor := "(I)V"
  isStatic := true
  events :=
    [.label 0, .var .iload 0, .switch 3 [0] [1], .label 1,
      .method .invokestatic { owner := "A", name := "g", descriptor := "()I" }, .insn .dup, .var .istore 1,
      .jump .ifeq 3, .label 2, .var .iload 1,
      .method .invokestatic { owner := "A", name := "h", descriptor := "(I)V" }, .label 3, .insn .vreturn]

/-- Placed, the declaration of the local stands below the condition in one node. -/
example : ((MethodBody.ofUnit assigning {}).1.toOption.map fun body =>
    (body.graph.node 2).stack.map Operand.isCondition) = some [false, true] := by
  decide +kernel

end Fixed

end Decompiler
