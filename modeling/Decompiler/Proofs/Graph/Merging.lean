import Decompiler.Proofs.Condition.Negation
import Decompiler.Proofs.Graph.Operation

/-!
Folding the conditions of a node once is enough. Joining a run leaves no two neighbours that fit, since a condition that
two were joined into has the targets of the upper one, and a node that was disposed of stays so.
-/

namespace Decompiler

/-! ### Conditions that fit -/

/-- Where a condition operand sends control when it holds and when it fails. -/
def Operand.ways? (operand : Operand) : Option (Option NodeId × Option NodeId) :=
  operand.condition?.map fun test => (test.onTrue, test.onFalse)

/-- The operands are conditions that can be joined. -/
def Operand.fits (lower upper : Operand) : Bool :=
  match lower.condition?, upper.condition? with
  | some left, some right => Condition.canMerge left right
  | _, _ => false

namespace Operand

variable {operand lower upper other : Operand} {test : Condition}

theorem ways?_eq_some (hTest : operand.condition? = some test) : operand.ways? = some (test.onTrue, test.onFalse) := by
  rw [ways?, hTest, Option.map_some]

theorem isCondition_of_ways (hWays : operand.ways? = other.ways?) : operand.isCondition = other.isCondition := by
  simpa [ways?, isCondition] using congrArg Option.isSome hWays

/-- Whether two conditions fit is told by their targets. -/
theorem fits_congr {lower' upper' : Operand} (hLower : lower.ways? = lower'.ways?)
    (hUpper : upper.ways? = upper'.ways?) : lower.fits upper = lower'.fits upper' := by
  unfold ways? at hLower hUpper
  unfold fits
  cases hLeft : lower.condition? <;> cases hLeft' : lower'.condition? <;> cases hRight : upper.condition? <;>
    cases hRight' : upper'.condition? <;> simp_all [Condition.canMerge]

end Operand

namespace Graph

/-! ### Runs -/

/-- Conditions from the top downwards, none of which fits below the one above it. -/
structure Folded (run : List Operand) : Prop where
  conditions : ∀ operand ∈ run, operand.isCondition = true
  apart : run.IsChain fun upper lower => lower.fits upper = false

variable {latest lower top : Operand} {rest run : List Operand} {supply : Supply}

/-- Two conditions are joined into one with the targets of the upper one. -/
theorem joinRun_of_fits (hFits : lower.fits latest = true) (rest : List Operand) (supply : Supply) :
    ∃ joined after, joined.ways? = latest.ways? ∧
      (joinRun latest (lower :: rest)).run supply = (joinRun joined rest).run after := by
  unfold Operand.fits at hFits
  split at hFits
  · next left right hLeft hRight =>
      obtain ⟨first, operator, joins⟩ := Condition.exists_joins left right supply
      refine ⟨_, _, ?_, by simp only [joinRun, hLeft, hRight, hFits, ↓reduceIte]; rfl⟩
      rw [Operand.ways?_eq_some hRight]
      exact congrArg some (Prod.ext joins.onTrue joins.onFalse)
  · cases hFits

theorem joinRun_of_not_fits (hFits : lower.fits latest = false) (rest : List Operand) :
    joinRun latest (lower :: rest) = (· ++ [latest]) <$> joinRun lower rest := by
  unfold Operand.fits at hFits
  rw [joinRun, map_eq_pure_bind]
  cases hLeft : lower.condition? with
  | none => rfl
  | some left =>
      cases hRight : latest.condition? with
      | none => rfl
      | some right =>
          simp only [hLeft, hRight] at hFits
          simp only [hFits, Bool.false_eq_true, ↓reduceIte]

/-- Joining a run leaves a folded one. Its top has the targets that the top had before. -/
theorem joinRun_folded (hLatest : latest.isCondition = true) (hRest : ∀ operand ∈ rest, operand.isCondition = true)
    (supply : Supply) :
    ∃ top others, ((joinRun latest rest).run supply).1 = (top :: others).reverse ∧ top.ways? = latest.ways? ∧
      Folded (top :: others) := by
  induction rest generalizing latest supply with
  | nil => exact ⟨latest, [], rfl, rfl, by simpa using hLatest, .singleton _⟩
  | cons lower rest ih =>
      obtain ⟨hLower, hRest⟩ := List.forall_mem_cons.mp hRest
      cases hFits : lower.fits latest with
      | true =>
          obtain ⟨joined, after, hWays, hRun⟩ := joinRun_of_fits hFits rest supply
          obtain ⟨top, others, hJoined, hTop, folded⟩ :=
            ih ((Operand.isCondition_of_ways hWays).trans hLatest) hRest after
          exact ⟨top, others, hRun ▸ hJoined, hTop.trans hWays, folded⟩
      | false =>
          obtain ⟨top, others, hJoined, hTop, folded⟩ := ih hLower hRest supply
          refine ⟨latest, top :: others, ?_, rfl, ?_, ?_⟩
          · rw [joinRun_of_not_fits hFits]
            exact (congrArg (· ++ [latest]) hJoined).trans List.reverse_cons.symm
          · exact List.forall_mem_cons.mpr ⟨hLatest, folded.conditions⟩
          · exact List.isChain_cons_cons.mpr ⟨(Operand.fits_congr hTop rfl).trans hFits, folded.apart⟩

/-- A folded run stays as it is, and no operand is made. -/
theorem joinRun_of_folded (folded : Folded (latest :: rest)) : joinRun latest rest = pure (latest :: rest).reverse := by
  induction rest generalizing latest with
  | nil => rfl
  | cons lower rest ih =>
      obtain ⟨hFits, hApart⟩ := List.isChain_cons_cons.mp folded.apart
      have hRest : Folded (lower :: rest) := ⟨(List.forall_mem_cons.mp folded.conditions).2, hApart⟩
      rw [joinRun_of_not_fits hFits, ih hRest, map_pure, List.reverse_cons (a := latest)]

/-! ### The stack around a run -/

namespace ConditionRun

/-- The parts make up the stack. -/
theorem stack_eq (stack : List Operand) :
    (ofStack stack).below.reverse ++ (ofStack stack).run.reverse ++ (ofStack stack).above.reverse = stack := by
  simp only [ofStack]
  rw [← List.reverse_append, List.takeWhile_append_dropWhile, ← List.reverse_append, List.takeWhile_append_dropWhile,
    List.reverse_reverse]

/-- There is no condition above the run, and the run ends where the conditions end. -/
structure Uppermost (parts : ConditionRun) : Prop where
  above : ∀ operand ∈ parts.above, operand.isCondition = false
  run : ∀ operand ∈ parts.run, operand.isCondition = true
  below : ∀ operand ∈ parts.below.head?, operand.isCondition = false

theorem uppermost_ofStack (stack : List Operand) : Uppermost (ofStack stack) where
  above operand hOperand := by simpa using List.mem_takeWhile_imp hOperand
  run operand hOperand := List.mem_takeWhile_imp hOperand
  below operand hOperand := by
    have := List.head?_dropWhile_not Operand.isCondition (stack.reverse.dropWhile (!·.isCondition))
    simp_all [ofStack]

/-- A run is found again in the stack that it is a part of. -/
theorem ofStack_eq {parts : ConditionRun} (uppermost : Uppermost parts) (hRun : parts.run ≠ []) :
    ofStack (parts.below.reverse ++ parts.run.reverse ++ parts.above.reverse) = parts := by
  obtain ⟨above, run, below⟩ := parts
  obtain ⟨top, rest, rfl⟩ := List.exists_cons_of_ne_nil hRun
  have hAbove : ∀ operand ∈ above, (!operand.isCondition) = true := fun operand hOperand => by
    simpa using uppermost.above operand hOperand
  have hTop : top.isCondition = true := uppermost.run top List.mem_cons_self
  have hBelow : below.takeWhile (·.isCondition) = [] ∧ below.dropWhile (·.isCondition) = below := by
    cases below with
    | nil => exact ⟨rfl, rfl⟩
    | cons bottom below => simp [uppermost.below bottom rfl]
  have hDownward : ((below.reverse ++ (top :: rest).reverse) ++ above.reverse).reverse =
      above ++ (top :: rest ++ below) := by simp
  rw [ofStack]
  simp only [hDownward]
  rw [List.takeWhile_append_of_pos hAbove, List.dropWhile_append_of_pos hAbove]
  have hStart : (top :: rest ++ below).takeWhile (!·.isCondition) = [] ∧
      (top :: rest ++ below).dropWhile (!·.isCondition) = top :: rest ++ below := by simp [hTop]
  rw [hStart.1, hStart.2, List.takeWhile_append_of_pos uppermost.run, List.dropWhile_append_of_pos uppermost.run,
    hBelow.1, hBelow.2, List.append_nil, List.append_nil]

end ConditionRun

/-! ### One step -/

/-- The false target is given to a condition once. -/
theorem completeTop_of_ways {destination : Option NodeId} {before after : Condition}
    (hTrue : after.onTrue = (completeTop destination before).onTrue)
    (hFalse : after.onFalse = (completeTop destination before).onFalse) : completeTop destination after = after := by
  obtain ⟨_, _, _, onTrue, onFalse, _⟩ := after
  unfold completeTop at *
  split_ifs at hTrue hFalse <;> simp_all

theorem mapCondition_completeTop {destination : Option NodeId}
    (hWays : top.ways? = (latest.mapCondition (completeTop destination)).ways?) :
    top.mapCondition (completeTop destination) = top := by
  refine Operand.mapCondition_eq_self fun test hTest => ?_
  rw [Operand.ways?_eq_some hTest] at hWays
  simp only [Operand.ways?, Operand.condition?_mapCondition] at hWays
  cases hBefore : latest.condition? with
  | none => simp [hBefore] at hWays
  | some before =>
      rw [hBefore] at hWays
      obtain ⟨hTrue, hFalse⟩ := Prod.mk.inj (Option.some.inj hWays)
      exact completeTop_of_ways hTrue hFalse

variable {graph : Graph} {id : NodeId} {joined : List Operand}

/-- The stack of a node around its uppermost run. -/
def runParts (graph : Graph) (id : NodeId) : ConditionRun := ConditionRun.ofStack (graph.node id).stack

/-- The run of a node joined, with the destination of the node as the false target of its topmost condition. -/
def runJoined (graph : Graph) (id : NodeId) (top : Operand) (rest : List Operand) : List Operand × Supply :=
  (joinRun (top.mapCondition (completeTop ((graph.node id).destination.bind Destination.node?))) rest).run graph.supply

/-- The node before a joined run, if it fails into the run and fits below it, and if the run fills its node. -/
def foldTarget? (graph : Graph) (id : NodeId) (parts : ConditionRun) (joined : List Operand) : Option NodeId :=
  let continues (previous : NodeId) :=
    match (graph.node previous).top?.bind Operand.condition?, joined.head?.bind Operand.condition? with
    | some tail, some head => tail.onFalse == some id && Condition.canMerge tail head
    | _, _ => false
  if parts.below.isEmpty && parts.above.isEmpty && (graph.node id).disposable then
    (graph.node id).previous.filter continues
  else none

/-- A joined run is put in place of the uppermost one of a node. -/
def withRun (graph : Graph) (id : NodeId) (joined : List Operand) (supply : Supply) : Graph :=
  ({ graph with supply } : Graph).mapStack id fun _ =>
    (graph.runParts id).below.reverse ++ joined ++ (graph.runParts id).above.reverse

theorem joinTop_of_run (hLive : (graph.node id).disposed = false) (hRun : (graph.runParts id).run = top :: rest)
    (hJoined : graph.runJoined id top rest = (joined, supply)) :
    graph.joinTop id =
      ((graph.withRun id joined supply).foldTarget? id (graph.runParts id) joined, graph.withRun id joined supply) := by
  have hDisposable : ((graph.withRun id joined supply).node id).disposable = (graph.node id).disposable :=
    field_update Node.disposable _ rfl
  have hPrevious : ((graph.withRun id joined supply).node id).previous = (graph.node id).previous :=
    field_update Node.previous _ rfl
  unfold runParts at hRun
  unfold runJoined at hJoined
  unfold joinTop foldTarget?
  simp only [hLive, hRun, hJoined, hDisposable, hPrevious, runParts]
  split <;> rfl

theorem joinTop_of_disposed (hGone : (graph.node id).disposed = true) : graph.joinTop id = (none, graph) := by
  unfold joinTop
  simp only [hGone]

theorem joinTop_of_run_nil (hRun : (graph.runParts id).run = []) : graph.joinTop id = (none, graph) := by
  unfold joinTop
  unfold runParts at hRun
  simp only
  split
  · rfl
  · rfl
  · next hTop => simp [hRun] at hTop

/-- Only a node that exists holds a run. -/
theorem lt_of_run (hRun : (graph.runParts id).run ≠ []) : id < graph.nodes.size := by
  by_contra hId
  rw [runParts, node_of_size_le (Nat.not_lt.mp hId)] at hRun
  exact hRun rfl

/-- What is put in place of a run is found there. -/
theorem runParts_withRun (hRun : (graph.runParts id).run ≠ []) (folded : Folded run) (hSome : run ≠ [])
    (supply : Supply) : (graph.withRun id run.reverse supply).runParts id = { graph.runParts id with run } := by
  have hId : id < ({ graph with supply } : Graph).nodes.size := lt_of_run hRun
  have uppermost := ConditionRun.uppermost_ofStack (graph.node id).stack
  have hParts : ConditionRun.Uppermost { graph.runParts id with run } :=
    ⟨uppermost.above, folded.conditions, uppermost.below⟩
  rw [runParts, withRun, mapStack, node_update_self hId]
  exact ConditionRun.ofStack_eq hParts hSome

theorem withRun_eq_self (hJoined : joined = (graph.runParts id).run.reverse) :
    graph.withRun id joined graph.supply = graph := by
  have hStack := ConditionRun.stack_eq (graph.node id).stack
  rw [withRun, mapStack, hJoined, runParts, hStack]
  exact (update_congr (fun node => node) rfl).trans (update_id graph id)

/-- Joining the uppermost run of a node again changes nothing, and the same node is to go on with. -/
theorem joinTop_joinTop (graph : Graph) (id : NodeId) : (graph.joinTop id).2.joinTop id = graph.joinTop id := by
  by_cases hLive : (graph.node id).disposed = true
  · rw [joinTop_of_disposed hLive, joinTop_of_disposed hLive]
  rw [Bool.not_eq_true] at hLive
  by_cases hSome : (graph.runParts id).run = []
  · rw [joinTop_of_run_nil hSome, joinTop_of_run_nil hSome]
  obtain ⟨top, rest, hRun⟩ := List.exists_cons_of_ne_nil hSome
  have uppermost := ConditionRun.uppermost_ofStack (graph.node id).stack
  obtain ⟨hTop, hRest⟩ := List.forall_mem_cons.mp (hRun ▸ uppermost.run)
  obtain ⟨upper, others, hFolded, hWays, folded⟩ :=
    joinRun_folded ((Operand.isCondition_mapCondition _ top).trans hTop) hRest graph.supply
  have hJoined : graph.runJoined id top rest = ((upper :: others).reverse, (graph.runJoined id top rest).2) :=
    Prod.ext hFolded rfl
  generalize (graph.runJoined id top rest).2 = supply at hJoined
  have hParts := runParts_withRun hSome folded (List.cons_ne_nil _ _) supply
  rw [joinTop_of_run hLive hRun hJoined]
  generalize hAfter : graph.withRun id (upper :: others).reverse supply = after at *
  have hDestination : (after.node id).destination = (graph.node id).destination :=
    hAfter ▸ field_update Node.destination _ rfl
  have hAgain : after.runJoined id upper others = ((upper :: others).reverse, after.supply) := by
    rw [runJoined, hDestination, mapCondition_completeTop hWays, joinRun_of_folded folded]
    rfl
  rw [joinTop_of_run (hAfter ▸ (field_update Node.disposed _ rfl).trans hLive) (by rw [hParts]) hAgain,
    withRun_eq_self (by rw [hParts]), hParts]
  rfl

/-! ### Nodes that are gone -/

theorem disposed_disposeFrom (hGone : (graph.node id).disposed = true) (fuel : Nat) (target : NodeId)
    (clearStack recursive : Bool) :
    ((graph.disposeFrom fuel target clearStack recursive).2.node id).disposed = true := by
  induction fuel generalizing graph target with
  | zero => exact hGone
  | succ fuel ih =>
      have hFirst : ((graph.disposeOne target clearStack).node id).disposed = true := by
        rw [isDisposed_disposeOne, hGone, Bool.or_true]
      unfold disposeFrom
      simp only
      split
      · exact hGone
      · split
        · split
          · exact ih hFirst _
          · exact hFirst
        · exact hFirst

/-- A node that is to be disposed of is gone afterwards. -/
theorem disposed_dispose (hId : id < graph.nodes.size) (clearStack recursive : Bool) :
    ((graph.dispose id clearStack recursive).2.node id).disposed = true := by
  have hFirst : ((graph.disposeOne id clearStack).node id).disposed = true := by
    rw [isDisposed_disposeOne, decide_eq_true ⟨rfl, hId⟩, Bool.true_or]
  unfold dispose disposeFrom
  simp only
  split
  · next hGone => exact hGone
  · split
    · split
      · exact disposed_disposeFrom hFirst _ _ _ _
      · exact hFirst
    · exact hFirst

theorem disposed_joinTop (graph : Graph) (id other : NodeId) :
    ((graph.joinTop id).2.node other).disposed = (graph.node other).disposed := by
  rcases joinTop_cases graph id with hNone | ⟨-, _, supply, top, rest, -, hJoin, -⟩
  · rw [hNone]
  · rw [hJoin]
    exact field_update Node.disposed _ rfl

theorem disposed_mergeFrom (hGone : (graph.node id).disposed = true) (fuel : Nat) (start : NodeId) :
    ((graph.mergeFrom fuel start).2.node id).disposed = true := by
  induction fuel generalizing graph start with
  | zero => exact hGone
  | succ fuel ih =>
      have hJoined := (disposed_joinTop graph start id).trans hGone
      unfold mergeFrom
      split
      · next hJoin =>
          rw [hJoin] at hJoined
          exact hJoined
      · next hJoin =>
          rw [hJoin] at hJoined
          exact ih (disposed_disposeFrom hJoined _ _ _ _) _

/-! ### Merging twice -/

theorem lt_of_joinTop {previous : NodeId} {after : Graph} (hJoin : graph.joinTop id = (some previous, after)) :
    id < after.nodes.size := by
  rcases joinTop_cases graph id with hNone | ⟨-, fold, supply, top, rest, hRun, hSome, -⟩
  · rw [hNone] at hJoin
    cases hJoin
  · obtain ⟨-, rfl⟩ := Prod.mk.inj (hSome.symm.trans hJoin)
    have hId : id < graph.nodes.size := lt_of_run (hRun ▸ List.cons_ne_nil top rest)
    exact (size_update _ _ _).symm ▸ hId

theorem mergeFrom_mergeFrom (graph : Graph) (fuel again : Nat) (id : NodeId) :
    (graph.mergeFrom (fuel + 1) id).2.mergeFrom (again + 1) id = ([], (graph.mergeFrom (fuel + 1) id).2) := by
  have hAgain := joinTop_joinTop graph id
  rcases hJoin : graph.joinTop id with ⟨_ | previous, after⟩
  · have hFirst : graph.mergeFrom (fuel + 1) id = ([], after) := by rw [mergeFrom, hJoin]
    rw [hJoin] at hAgain
    rw [hFirst, mergeFrom, hAgain]
  · have hGone : ((graph.mergeFrom (fuel + 1) id).2.node id).disposed = true := by
      rw [mergeFrom, hJoin]
      exact disposed_mergeFrom (disposed_dispose (lt_of_joinTop hJoin) false true) fuel previous
    rw [mergeFrom, joinTop_of_disposed hGone]

/-- Folding the conditions of a node a second time disposes of nothing and changes nothing. -/
theorem merge_merge (graph : Graph) (id : NodeId) :
    (merge id).run ((merge id).run graph).2 = ([], ((merge id).run graph).2) :=
  mergeFrom_mergeFrom graph graph.nodes.size _ id

/-- The second of two nodes that jump to the same node is folded into the first one, and then no more is to be done. -/
example :
    let graph := Operation.run {} [.label 0, .append 0, .label 1, .append 1, .label 2, .append 2, .connect 0 1,
      .connect 0 2, .connect 1 2, .setDestination 0 (.node 1), .push 0 (Operation.jumpTo 2),
      .push 1 (Operation.jumpTo 2), .merge 0]
    ((merge 1).run graph).1 = [1] ∧ ((merge 1).run ((merge 1).run graph).2).1 = [] := by
  decide

end Graph

end Decompiler
