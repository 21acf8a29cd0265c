import Decompiler.Local.Placement
import Decompiler.Proofs.Graph.Progress
import Decompiler.Proofs.Region.Rules

/-!
Steps on a graph that fold nothing. The passes between execution and folding are made of them.
-/

namespace Decompiler

namespace Graph

variable {α β : Type}

/-- Queries for dominators tell nothing about folding. -/
theorem SameFacts.sameProgress {graph after : Graph} (same : SameFacts graph after) : SameProgress graph after :=
  same.field Node.progress fun _ => rfl

/-- The step lets no node come further. -/
def Idle (step : GraphM α) : Prop := ∀ graph, SameProgress graph (step.run graph).2

namespace Idle

variable {step : GraphM α} {next : α → GraphM β}

theorem pure (value : α) : Idle (Pure.pure value) := fun graph => .refl graph

theorem bind (first : Idle step) (second : ∀ value, Idle (next value)) : Idle (step >>= next) := fun graph =>
  (first graph).trans (second _ _)

/-- So every step that is made of idle ones is idle. -/
theorem compositional : Compositional @Idle := ⟨pure, bind⟩

theorem get : Idle (MonadState.get : GraphM Graph) := fun graph => .refl graph

theorem change {change : Graph → Graph} (hChange : ∀ graph, SameProgress graph (change graph)) :
    Idle (modify change : GraphM Unit) := hChange

/-- A change that yields a value beside the graph. -/
theorem make {make : Graph → α × Graph} (hMake : ∀ graph, SameProgress graph (make graph).2) :
    Idle (modifyGet make : GraphM α) := hMake

theorem ite {condition : Prop} [Decidable condition] {other : GraphM α} (first : Idle step) (second : Idle other) :
    Idle (if condition then step else other) := by
  split
  · exact first
  · exact second

/-- A step that may know the graph that it looks at. -/
theorem look {next : Graph → GraphM β} (second : ∀ graph, SameProgress graph ((next graph).run graph).2) :
    Idle (MonadState.get >>= next) := second

/-- Queries leave facts about dominators behind and nothing else. -/
theorem ask (asks : OnlyAsks step) : Idle step := fun graph => (asks graph).sameProgress

/-- New identities and types are no progress. -/
theorem supply (step : SupplyM α) : Idle (step : GraphM α) := fun _ => .of_nodes rfl

end Idle

/-! ### Regions -/

/-- Whatever is made of queries for dominators folds nothing. -/
theorem idle_queries : HoldsOfQueries @Idle :=
  ⟨Idle.compositional, .get, fun id => .ask (onlyAsks_dominator id), fun id candidate =>
    .ask (onlyAsks_hasDominator id candidate)⟩

end Graph

namespace Regions

open Decompiler.Graph

/-- Handlers are linked before anything is folded. -/
theorem idle_linkHandlers (regions : Regions) : Idle regions.linkHandlers :=
  Idle.compositional.linkHandlers (fun start handler => .change fun graph => .addHandlerEdge graph start handler)
    (fun start _ => .change fun graph => .update graph start _ fun _ => rfl) regions

/-- Resolving protected regions removes edges, copies and rethrows, but folds nothing. -/
theorem idle_resolve (regions : Regions) (removeCopies : Bool) : Idle (regions.resolve removeCopies) :=
  idle_queries.resolve (fun source target => .change fun graph => .disconnect graph source target)
    (idle_linkHandlers regions)
    (Idle.compositional.foldlM (fun regions id => idle_queries.removeFinallyCopies
      (fun id => .change fun graph => .update graph id _ fun _ => rfl)
      (fun id => .make fun graph => .dispose graph id _ _) regions id) _ regions) removeCopies

end Regions

/-! ### Declarations -/

namespace Placement

open Decompiler.Graph

/-- A declaration becomes part of a store that was there. -/
theorem sameProgress_declareIn? {graph after : Graph} {node : NodeId} {id : VariableId}
    (hDeclared : declareIn? graph node id = some after) : SameProgress graph after := by
  obtain ⟨stack, -, rfl⟩ := Option.map_eq_some_iff.mp hDeclared
  exact .update graph node _ fun _ => rfl

/-- What led to a node leads to the declaration in front of it now. -/
theorem sameProgress_redirectTo (before declaration : NodeId) (graph : Graph) (source : NodeId) :
    SameProgress graph (redirectTo before declaration graph source) :=
  ((SameProgress.disconnect graph source before).trans (.connect _ source declaration)).trans
    (.update _ source _ fun _ => rfl)

theorem idle_insertDeclaration (before : NodeId) (id : VariableId) (type : TypeRef) :
    Idle (insertDeclaration before id type) := by
  refine (Idle.make fun graph => .insertBefore graph before).bind fun created => ?_
  refine (Idle.supply _).bind fun declaration => .change fun graph => ?_
  have hRedirected := SameProgress.foldl (redirectTo before created) (graph.forwardIncoming before)
    (fun graph source _ => sameProgress_redirectTo before created graph source) graph
  exact (hRedirected.trans (.connect _ created before)).trans (.update _ created _ fun _ => rfl)

/-- Whether two places of a local clash is found out by queries alone. -/
theorem onlyAsks_clashes (table : LocalVariables) (progress : Progress) (id : VariableId) (node : NodeId) :
    OnlyAsks (clashes table progress id node) := by
  refine OnlyAsks.compositional.anyM (fun sibling => ?_) _
  split
  · refine (onlyAsks_hasDominator _ _).bind fun dominated => ?_
    split
    · exact .pure _
    · exact onlyAsks_hasDominator _ _
  · exact .pure _

/-- A local that is met once more either has its place or gets another one. -/
theorem idle_placeOne (table : LocalVariables) (pinned : List NodeId) (progress : Progress) (id : VariableId) :
    Idle (placeOne table pinned progress id) := by
  refine Idle.get.bind fun graph => ?_
  refine (Idle.ask (onlyAsks_lowestCommonDominator _)).bind fun deepest => ?_
  split
  · exact .pure _
  · rename_i node
    refine .look fun graph => ?_
    split
    · rename_i after hDeclared
      split at hDeclared
      · exact sameProgress_declareIn? hDeclared
      · cases hDeclared
    · have hInsert : ∀ clash : Bool, Idle (do
          if (graph.node node).disposed || (graph.node node).yieldConvergence || pinned.contains node || clash then
            return { progress with pending := progress.pending ++ [id] }
          insertDeclaration node id (table.get id).type
          return { progress with anchors := (id, node) :: progress.anchors }) := fun clash =>
        .ite (.pure _) ((idle_insertDeclaration _ _ _).bind fun _ => .pure _)
      exact (Idle.ask (onlyAsks_clashes table progress id node)).bind hInsert graph

theorem idle_placePending (table : LocalVariables) (id : VariableId) : Idle (placePending table id) := by
  refine .look fun graph => ?_
  split
  · rename_i after hFound
    obtain ⟨node, -, hDeclared⟩ := List.exists_of_findSome?_eq_some hFound
    exact sameProgress_declareIn? hDeclared
  · split
    · rename_i first _
      refine Idle.bind (.supply _) (fun declaration => .change fun graph => ?_) graph
      exact .update graph first _ fun _ => rfl
    · exact .refl graph

/-- Locals are declared before the graph is folded. -/
theorem idle_place (table : LocalVariables) (regions : Regions) (switches : List SwitchTable) :
    Idle (place table regions switches) := by
  refine (Idle.compositional.foldlM (fun progress id => idle_placeOne table _ progress id) _ _).bind fun progress => ?_
  exact Idle.compositional.forM (fun id => idle_placePending table id) _

end Placement

end Decompiler
