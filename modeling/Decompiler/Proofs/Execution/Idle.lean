import Decompiler.Execution.Run
import Decompiler.Proofs.Execution.Rules
import Decompiler.Proofs.Graph.Idle

/-!
Executing a unit folds nothing: every node of a unit is where nodes begin when folding starts.
-/

namespace Decompiler

namespace Execution

open Decompiler.Graph
open HoldsOfOperands HoldsOfIdioms

variable {α : Type}

/-- No node has come further from the one state to the other. -/
def FoldsNothing (before after : Execution) : Prop := SameProgress before.graph after.graph

/-! ### Steps that make, place or dispose of nodes -/

/-- A change of the execution whose graph is as far as before. -/
theorem idle_change {change : Execution → Execution}
    (hChange : ∀ state, SameProgress state.graph (change state).graph) :
    Relates FoldsNothing (modify change : ExecutionM Unit) := fun _ state _ _ hRun => by
  cases hRun
  exact hChange state

/-- A step of the graph. -/
theorem idle_graph {step : GraphM α} (idle : Graph.Idle step) : Relates FoldsNothing (step : ExecutionM α) :=
  fun _ state _ _ hRun => by
    cases hRun
    exact idle state.graph

instance : HoldsOfOperands FoldsNothing where
  trans := SameProgress.trans
  stay same _ := same.progress
  relates_here setting state id after hRun := by
    rcases run_here hRun with ⟨-, rfl⟩ | ⟨-, -, -, hGraph⟩
    · exact .refl _
    · rw [FoldsNothing, hGraph]
      exact (SameProgress.allocate state.graph _ _).trans (.append _ id)

/-- The current node is looked for among those that are left. -/
theorem idle_followDisposal (disposed : List NodeId) (fallback : Option NodeId) :
    Relates FoldsNothing (followDisposal disposed fallback) := by
  refine idle_change fun state => ?_
  split <;> exact .refl _

/-- A node that an idiom empties goes, with what it has come to. -/
theorem idle_dispose (id : NodeId) (clearStack : Bool) : Relates FoldsNothing (dispose id clearStack) := by
  refine .look fun setting state value after hRun => ?_
  obtain ⟨_, middle, hFirst, hRun⟩ := run_bind_ok hRun
  have hMiddle : FoldsNothing state middle := by
    cases hFirst
    exact .dispose state.graph id clearStack false
  exact hMiddle.trans (idle_followDisposal _ _ _ _ _ _ hRun)

/-- Folding conditions changes operands and removes nodes. -/
theorem idle_merge (id : NodeId) : Relates FoldsNothing (merge id) := by
  refine (relates_node id).bind fun node => ?_
  exact (idle_graph (.make fun graph => .mergeFrom graph _ id)).bind fun disposed => idle_followDisposal _ _

theorem idle_mergeBefore (id : NodeId) : Relates FoldsNothing (mergeBefore id) := by
  refine (relates_node id).bind fun node => ?_
  split
  · exact idle_merge _
  · exact .pure _

/-! ### Idioms -/

/-- Each round makes one conditional expression of two branches. -/
theorem idle_joinBranchesWithin (fuel : Nat) : Relates FoldsNothing (joinBranchesWithin fuel) := by
  induction fuel with
  | zero => exact .pure _
  | succ fuel ih =>
      refine Relates.get.bind fun state => ?_
      split
      · rename_i here _
        refine (idle_graph (.ask (onlyAsks_branches? here))).bind fun place => ?_
        split
        · rename_i place
          refine (relates_take 0).bind fun second => (relates_take 0).bind fun first => (relates_take 0).bind fun test => ?_
          refine (Relates.supply _).bind fun joined => ?_
          refine (Relates.changeGraph fun graph => .push graph place.holder joined).bind fun _ => ?_
          refine (Relates.compositional.forIn (fun id _ => ?_) _ _).bind fun _ => ih
          refine (relates_node id).bind fun node => .ite ?_ (.pure _)
          exact (idle_dispose id false).bind fun _ => .pure _
        · exact .pure _
      · exact .pure _

/-- An assertion takes the place of the test, the node and the throw. -/
theorem idle_foldAssertion (thrown : Operand) : Relates FoldsNothing (foldAssertion thrown) := by
  refine Relates.get.bind fun state => ?_
  dsimp only
  split
  · refine .ite (.pure _) ?_
    split
    · split
      · split
        · refine .ite (.pure _) ((Relates.supply _).bind fun assertion => (Relates.changeGraph ?_).bind fun _ => ?_)
          · exact fun graph => (SameLayout.mapStack graph _ _).trans (.setDestination _ _ _)
          · refine (Relates.note ?_).bind fun _ => (idle_dispose _ _).bind fun _ => ?_
            · exact fun _ => rfl
            · refine (Relates.compositional.forIn (fun id _ => ?_) _ _).bind fun _ =>
                (idle_change ?_).bind fun _ => .pure _
              · refine (relates_node id).bind fun node => .ite (.pure _) ?_
                exact (idle_dispose id true).bind fun _ => .pure _
              · exact fun _ => .refl _
        · exact .pure _
      · exact .pure _
    · exact .pure _
  · exact .pure _

/-- Two returns of constants become the return of a condition. -/
theorem idle_foldBooleanReturn : Relates FoldsNothing foldBooleanReturn := by
  refine Relates.get.bind fun state => .ite (.pure _) ?_
  refine (relates_returnsConstants _ _).bind fun direct => (relates_returnsConstants _ _).bind fun swapped => ?_
  refine .ite (.pure _) ?_
  refine relates_here.bind fun here => Relates.get.bind fun state => ?_
  extract_lets graph leavesConstant fold
  split
  · exact .pure _
  · rename_i previous _
    refine .ite (.pure _) ((Relates.changeGraph ?_).bind fun _ => ?_)
    · exact fun graph => (((SameLayout.mapStack graph here _).trans (.mapStack _ previous _)).trans
        (.connect _ previous here)).trans (.setDestination _ _ _)
    · refine (relates_node previous).bind fun node => ?_
      have hFold : ∀ disposed, Relates FoldsNothing (fold disposed) := by
        refine fun _ => (relates_peek? 0).bind fun top => ?_
        split
        · extract_lets negate
          have hNegate : ∀ refused, Relates FoldsNothing (negate refused) := fun _ =>
            .ite ((Relates.supply _).bind fun _ => relates_changeEntry _ _) (.pure _)
          exact .ite ((relates_refuse _).bind hNegate) (hNegate ())
        · exact relates_refuse _
      exact .ite ((idle_dispose previous false).bind hFold) (hFold ())

/-- The node that is made for the error has no visits. -/
theorem idle_insertAssertion : Relates FoldsNothing insertAssertion := by
  refine relates_here.bind fun guard => (idle_graph (.make fun graph => .insertAfter graph guard)).bind fun created => ?_
  refine (Relates.changeGraph fun graph => ?_).bind fun _ => (idle_change ?_).bind fun _ => .pure _
  · exact (SameLayout.connect graph guard created).trans (.setDestination _ guard _)
  · exact fun _ => .refl _

instance : HoldsOfIdioms FoldsNothing where
  relates_nodeOfLabel label := idle_graph (.make fun graph => .nodeOfLabel graph label)
  relates_mergeHere := relates_here.bind idle_mergeBefore
  relates_joinBranches :=
    Relates.read.bind fun _ => .ite (Relates.get.bind fun _ => idle_joinBranchesWithin _) (.pure _)
  relates_foldAssertion := idle_foldAssertion
  relates_foldBooleanReturn := idle_foldBooleanReturn
  relates_openAssertion := idle_insertAssertion.bind idle_merge

/-! ### Events -/

/-- A label makes a node or places one, neither of which is a visit. -/
theorem idle_openLabel (id : Label) : Relates FoldsNothing (openLabel id) := by
  refine (Relates.note ?_).bind fun _ => (relates_nodeOfLabel id).bind fun next => Relates.get.bind fun state => ?_
  · exact fun _ => rfl
  · have hPlaced : Relates FoldsNothing (do
        fallInto next
        modify fun state => { state with graph := state.graph.append next, current := some next }
        return next) :=
      (relates_fallInto next).bind fun _ => (idle_change fun state => .append state.graph next).bind fun _ => .pure _
    exact .ite ((relates_refuse _).bind fun _ => hPlaced) hPlaced

/-- No event folds anything. -/
theorem idle_accept (event : Event) : Relates FoldsNothing (accept event) :=
  relates_accept event fun id _ =>
    (idle_openLabel id).bind fun next => (idle_mergeBefore next).bind fun _ => relates_recordNode .label next

/-! ### Units -/

/-- Settling splits nodes and inserts connectors, which are not folded yet. -/
theorem sameProgress_settleNode (id : NodeId) (graph : Graph) : SameProgress graph (settleNode id graph) := by
  unfold settleNode
  dsimp only
  split
  · exact .refl graph
  · split
    · exact .dispose graph id false false
    · exact .splitMixed graph id

/-- The passes that close an execution come before the fold. -/
theorem idle_finish : Relates FoldsNothing finish := by
  refine (idle_change fun state => ?_).bind fun _ => Relates.get.bind fun state => ?_
  · exact .foldl _ _ (fun graph id _ => sameProgress_settleNode id graph) state.graph
  extract_lets resolve
  have hResolve : ∀ refused, Relates FoldsNothing (resolve refused) := by
    refine fun _ => (idle_change fun state => .computeBackedges state.graph).bind fun _ => Relates.read.bind fun setting => ?_
    extract_lets options trace
    have hTrace : ∀ placed, Relates FoldsNothing (trace placed) := by
      refine fun _ => .ite (.note ?_) (.pure _)
      exact fun _ => rfl
    refine Relates.get.bind fun state => (idle_graph (Regions.idle_resolve _ _)).bind fun regions => ?_
    refine (Relates.note ?_).bind fun _ => .ite (Relates.get.bind fun state => ?_) (hTrace ())
    · exact fun _ => rfl
    · exact (idle_graph (Placement.idle_place _ _ _)).bind hTrace
  exact .ite ((relates_refuse _).bind hResolve) (hResolve ())

/-- By induction on the events of the unit. -/
theorem idle_runEvents (events : List Event) : Relates FoldsNothing (runEvents events) :=
  (Relates.compositional.forM idle_accept events).bind fun _ => idle_finish

end Execution

/-- No node of a unit is a statement before folding, none was visited, and none knows of a construct. -/
theorem MethodBody.progress_ofUnit {unit : CompiledUnit} {setting : Setting} {body : MethodBody}
    (hBody : (MethodBody.ofUnit unit setting).1 = .ok body) (id : NodeId) :
    (body.graph.node id).progress = (none, .unvisited, []) := by
  unfold MethodBody.ofUnit at hBody
  split at hBody
  · cases hBody
  · rename_i descriptor _
    rcases hRun : (Execution.runEvents unit.events setting).run.run (Execution.initial unit descriptor) with
      ⟨_ | outcome, state⟩
    · rw [hRun] at hBody
      cases hBody
    · rw [hRun] at hBody
      cases hBody
      exact (Execution.idle_runEvents unit.events setting _ _ _ hRun) id

end Decompiler
