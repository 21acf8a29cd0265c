import Decompiler.Proofs.Structure.Folded
import Decompiler.Proofs.Structure.Recording

/-!
Nodes are folded in topological order.
-/

namespace Decompiler

open Decompiler.Graph

namespace Folding

/-! ### Steps that no visit depends on -/

/-- A jump needs a label. -/
def needsLabel (state : Folding) (target : NodeId) (isContinue : Bool) : Bool :=
  let innermost :=
    if isContinue then state.active.find? fun active => (state.breakables.getD active default).kind == .loop
    else state.active.head?
  innermost.any fun active => !(state.graph.node target).breakables.contains active

/-- A jump is pushed with its label, and the construct it names learns whether it needs one. -/
theorem run_jump (id : BreakableId) (target : NodeId) (isContinue : Bool) (setting : Setting) (state : Folding) :
    (jump id target isContinue setting).run.run state =
      (push (if isContinue then .continues id (state.needsLabel target isContinue)
          else .breaks id (state.needsLabel target isContinue)) setting).run.run
        { state with
          breakables :=
            if state.needsLabel target isContinue then
              state.breakables.modify id fun breakable => { breakable with labeled := true }
            else state.breakables } := by
  have hJump : jump id target isContinue = (do
      let state ← get
      let labeled := state.needsLabel target isContinue
      if labeled then
        set { state with
          breakables := state.breakables.modify id fun breakable => { breakable with labeled := true } }
      push (if isContinue then .continues id labeled else .breaks id labeled)) := rfl
  rw [hJump, run_get_bind]
  cases state.needsLabel target isContinue <;> rfl

theorem quiet_jump (id : BreakableId) (target : NodeId) (isContinue : Bool) : Quiet (jump id target isContinue) :=
  fun trace setting state => by
    rw [run_jump, run_jump]
    exact ⟨_, _, rfl, rfl, rfl, .refl _⟩

/-- A jump comes and goes without a visit. -/
theorem quiet_jumpTowards? (source next : NodeId) (id : BreakableId) : Quiet (jumpTowards? source next id) := by
  refine (Quiet.breakable id).bind fun breakable => ?_
  refine (Quiet.ask (onlyAsks_hasDominator source breakable.entrance)).bind fun within => ?_
  split
  · exact (quiet_jump id next true).bind fun statement => .pure _
  · split
    · refine (Quiet.node next).bind fun node => ?_
      split
      · exact (quiet_jump id next false).bind fun statement => .pure _
      · exact (Quiet.pure _).bind fun statement => .pure _
    · exact .pure _

/-- A construct is told to its node only. -/
theorem quiet_openBreakable (kind : BreakableKind) (entrance first : NodeId) (exit checkpoint : Option NodeId) :
    Quiet (openBreakable kind entrance first exit checkpoint) := by
  intro trace setting state
  refine ⟨_, _, rfl, rfl, rfl, ?_⟩
  refine SameFlow.foldl _ _ (fun graph place _ => SameFlow.update graph place _ fun node => ?_) state.graph
  split <;> rfl

/-- The condition is taken off the stack of its node. -/
theorem quiet_takeCondition (id : NodeId) : Quiet (takeCondition id) := by
  refine (Quiet.node id).bind fun node => ?_
  split
  · exact (Quiet.mapStack id _).bind fun _ => .pure _
  · exact .fail _

theorem quiet_conditionTowards (target : NodeId) (test : Condition) : Quiet (conditionTowards target test) := by
  rw [conditionTowards]
  split
  · exact (Quiet.pure _).bind fun _ => .supply _
  · exact (Quiet.supply _).bind fun _ => .supply _

/-- An initializer is taken over from the node before the loop. -/
theorem quiet_takeInitializer (header : NodeId) (updates : List Operand) : Quiet (takeInitializer header updates) := by
  refine Quiet.currentGraph.bind fun graph => ?_
  split
  · refine (Quiet.node _).bind fun node => ?_
    split
    · exact (Quiet.mapStack _ _).bind fun _ => .pure _
    · exact .pure _
  · exact .pure _

/-- Which way stays in the loop is found out by queries. -/
theorem quiet_bodyAndExit? (id : NodeId) (backedges : List NodeId) : Quiet (bodyAndExit? id backedges) := by
  refine (Quiet.ask (onlyAsks_dominator id)).bind fun dominator => Quiet.currentGraph.bind fun graph => ?_
  split
  · dsimp only
    split
    · exact .pure _
    · refine (Quiet.ask (onlyAsks_hasDominator _ _)).bind fun dominated => ?_
      split <;> exact .pure _
  · exact .pure _

/-! ### Visits -/

section Steps

variable (watch : Watch) (work : Nat)

/-- Folding goes on in a node that is done itself. -/
def Working (source : NodeId) (graph : Graph) : Prop := graph.InOrder watch work ∧ graph.Done source

/-- Any node that is due may be folded. -/
def Orderly (fold other : NodeId → FoldingM StructureId) : Prop :=
  ∀ id, Agrees watch (Due watch work id) (fold id) (other id) fun _ =>
    InOrder watch work

end Steps

variable {watch : Watch} {work : Nat} {fold fold' : NodeId → FoldingM StructureId}
  {α : Type}

theorem stable_working (watch : Watch) (work : Nat) (source : NodeId) : Stable (Working watch work source) :=
  fun _ _ same => And.imp (·.sameFlow same) same.done_iff.mpr

theorem stable_due (id : NodeId) : Stable (Due watch work id) := fun _ _ same due => due.sameFlow same

theorem stable_opening (id : NodeId) : Stable (Opening watch work id) := fun _ _ same opening => opening.sameFlow same

/-- A node that is done stays so. -/
theorem lasting_done (id : NodeId) : Lasting fun graph => graph.Done id := fun _ _ forward => forward.done id

theorem lasting_inside (id : NodeId) : Lasting fun graph => id < graph.nodes.size :=
  fun _ _ forward hInside => Nat.lt_of_lt_of_le hInside forward.size

/-- A node that was entered is done, which is all that folding on needs. -/
theorem Opening.working {id : NodeId} {graph : Graph} (opening : graph.Opening watch work id) :
    Working watch work id graph := ⟨opening.toInOrder, opening.done⟩

/-- The source of a visit is done when it visits. -/
theorem agrees_recordArrival (source next : NodeId) (arrival : Arrival) :
    Agrees watch (Working watch work source) (recordArrival source next arrival)
      (recordArrival source next arrival) fun _ => Working watch work source := by
  have hForward (graph : Graph) : Forward graph (graph.update next (Node.visited source arrival)) :=
    .update graph next fun node hDone => by rwa [Node.isDone_visited]
  exact .changeGraph hForward (fun graph => size_update _ _ _) (fun _ _ served => served.visit next arrival)
    fun graph hGraph => ⟨hGraph.1.visit hGraph.2 next arrival, (hForward graph).done source hGraph.2⟩

/-- What is folded while a node is done leaves it done. -/
theorem Orderly.working (orderly : Orderly watch work fold fold') (source next : NodeId) :
    Agrees watch (fun graph => graph.Due watch work next ∧ graph.Done source) (fold next)
      (fold' next) fun _ => Working watch work source :=
  (orderly next).frame (lasting_done source)

/-- The part of a visit after the question whether it is a jump. A node that is ready is due. -/
theorem agrees_unlessJump {source next : NodeId} {choose choose' : Option NodeId → FoldingM StructureId}
    (hChoose : ∀ dominator, Agrees watch
      (fun graph => graph.Due watch work next ∧ graph.Done source) (choose dominator) (choose' dominator)
      fun _ => Working watch work source)
    (arrival : Arrival) (jumped : Option StructureId) :
    Agrees watch (Working watch work source) (do
      match jumped with
      | some statement => return statement
      | none =>
        if arrival != .detached && (← get).regionExits.contains next then return Structure.emptyId
        if !isReady (← node next) then return Structure.emptyId
        choose (← Graph.dominator next)) (do
      match jumped with
      | some statement => return statement
      | none =>
        if arrival != .detached && (← get).regionExits.contains next then return Structure.emptyId
        if !isReady (← node next) then return Structure.emptyId
        choose' (← Graph.dominator next)) fun _ => Working watch work source := by
  have hDone : Stable fun graph => graph.Done source := fun _ _ same => same.done_iff.mpr
  split
  · exact .pure fun _ hGraph => hGraph
  · refine .get fun state => ?_
    dsimp only [recording]
    split
    · exact .pure fun _ hGraph => hGraph
    · refine .node next fun node => ?_
      split
      · exact .pure fun _ hGraph => hGraph.1
      · rename_i hReady
        refine Agrees.strengthen (.after (.ask (onlyAsks_dominator next)) ((stable_due next).and hDone) hChoose)
          fun graph hGraph => ?_
        obtain ⟨⟨inOrder, done⟩, rfl⟩ := hGraph
        exact ⟨inOrder.due (by simpa using hReady), done⟩

/-- A visit is counted, and the node is folded once all visits have come. -/
theorem agrees_visit (orderly : Orderly watch work fold fold') (source : NodeId)
    (next : Option NodeId) (arrival : Arrival) :
    Agrees watch (Working watch work source) (visit fold source next arrival)
      (visit fold' source next arrival) fun _ => Working watch work source := by
  have stable := stable_working watch work source
  cases next with
  | none => exact .pure fun _ hGraph => hGraph
  | some next =>
      refine (agrees_recordArrival source next arrival).bind fun _ => .after (.node next) stable fun node => ?_
      have hFold : ∀ chosen : Bool, Agrees watch
          (fun graph => graph.Due watch work next ∧ graph.Done source)
          (if chosen then fold next else return Structure.emptyId)
          (if chosen then fold' next else return Structure.emptyId) fun _ => Working watch work source := by
        intro chosen
        split
        · exact orderly.working source next
        · exact .pure fun _ hGraph => ⟨hGraph.1.toInOrder, hGraph.2⟩
      have stable' : Stable fun graph => graph.Due watch work next ∧ graph.Done source :=
        (stable_due next).and fun _ _ same => same.done_iff.mpr
      dsimp only
      split
      · rename_i id _
        refine .after (quiet_jumpTowards? source next id) stable (agrees_unlessJump (fun dominator => ?_) arrival)
        exact .after (.breakable id) stable' fun breakable => hFold _
      · refine .after (.pure none) stable (agrees_unlessJump (fun dominator => ?_) arrival)
        exact .after (.pure false) stable' fun exits => hFold _

/-! ### Connectors -/

/-- A node that was just entered puts a connector on an edge from it, or on a back-edge to it. -/
theorem agrees_createConnector {id source target : NodeId} {start : Graph → Prop}
    (hOpening : ∀ graph, start graph → graph.Opening watch work id)
    (hSource : ∀ graph, start graph → source < graph.nodes.size) (hEnd : source = id ∨ target = id)
    (hEdge : ∀ graph, start graph → watch.safe →
      target ∈ (graph.node source).outgoing ∧ 2 ≤ (graph.node id).outgoing.length)
    (hBack : ∀ graph, start graph → watch.safe → source = id ∨ source ∈ (graph.node target).backedges) :
    Agrees watch start (GraphM.create (·.createConnector source target))
      (GraphM.create (·.createConnector source target)) fun _ => Working watch work id := by
  have hRerouted (graph : Graph) (hStart : start graph) := rerouted_createConnector (hSource graph hStart) target
  refine .make (fun graph hStart => .of_rerouted (hRerouted graph hStart)) (fun graph hStart hSafe => ?_)
    (fun graph hStart hSafe id served => ?_) fun graph hStart => ?_
  · have hCredit := (hOpening graph hStart).credit hSafe (hEdge graph hStart hSafe).2
    rw [(hRerouted graph hStart).size]
    omega
  · exact (hOpening graph hStart).served_reroute (hRerouted graph hStart) hSafe (hEdge graph hStart hSafe).1
      (hBack graph hStart hSafe) served
  · refine ⟨(hOpening graph hStart).reroute (hRerouted graph hStart) hEnd (hEdge graph hStart), ?_⟩
    exact (Forward.of_rerouted (hRerouted graph hStart)).done id (hOpening graph hStart).done

/-- Control leaves the node by one of two ways. -/
def Splits (watch : Watch) (id one other : NodeId) (graph : Graph) : Prop :=
  watch.safe → (graph.node id).outgoing = [one, other]

/-- Control leaves the node by several ways, and returns to it from the source. -/
def Loops (watch : Watch) (id source : NodeId) (graph : Graph) : Prop :=
  watch.safe → source ∈ (graph.node id).backedges ∧ 2 ≤ (graph.node id).outgoing.length

/-- Whether control splits at a node is told by its edges. -/
theorem stable_splits (id one other : NodeId) : Stable (Splits watch id one other) :=
  fun _ _ same hSplits hSafe => (same.outgoing id).trans (hSplits hSafe)

/-- Whether a node is returned to is told by its marks. -/
theorem stable_loops (id source : NodeId) : Stable (Loops watch id source) := fun _ _ same hLoops hSafe => by
  rw [same.backedges, same.outgoing]
  exact hLoops hSafe

/-- The outer way comes after the branch, or a connector stands for the jump to it. -/
theorem agrees_waysAround {id one other : NodeId} (inner : NodeId) {outer : NodeId} (hOuter : outer ∈ [one, other]) :
    Agrees watch
      (fun graph => graph.Opening watch work id ∧ Splits watch id one other graph) (waysAround id inner outer)
      (waysAround id inner outer) fun _ => Working watch work id := by
  refine .after (.ask (onlyAsks_dominator outer)) ((stable_opening id).and (stable_splits id one other))
    fun dominator => ?_
  split
  · refine Agrees.bind (agrees_createConnector (fun _ hStart => hStart.1) (fun _ hStart => hStart.1.done.lt)
      (.inl rfl) (fun graph hStart hSafe => ?_) fun _ _ _ => .inl rfl) fun created => .pure fun _ hGraph => hGraph
    rw [hStart.2 hSafe]
    exact ⟨hOuter, Nat.le_refl _⟩
  · exact .pure fun _ hStart => Opening.working hStart.1

/-- A way that is entered from elsewhere too comes after the branch; else a node that the branch dominates does. -/
theorem agrees_waysOf (id one other : NodeId) :
    Agrees watch
      (fun graph => graph.Opening watch work id ∧ Splits watch id one other graph) (waysOf id one other)
      (waysOf id one other) fun _ => Working watch work id := by
  have stable : Stable fun graph => graph.Opening watch work id ∧ Splits watch id one other graph :=
    (stable_opening id).and (stable_splits id one other)
  refine .after .currentGraph stable fun graph => ?_
  split
  · exact agrees_waysAround other (by simp)
  · split
    · exact agrees_waysAround one (by simp)
    · exact .after (.ask (onlyAsks_dominatorChildren id)) stable fun _ => .pure fun _ hStart => Opening.working hStart.1

/-- The node whose updates a loop takes over, or a connector behind it on the back-edge. -/
theorem agrees_isolateUpdates (source header : NodeId) (count : Nat) :
    Agrees watch
      (fun graph => graph.Opening watch work header ∧ Loops watch header source graph)
      (isolateUpdates source header count) (isolateUpdates source header count)
      fun _ => Working watch work header := by
  refine .node source fun node => ?_
  dsimp only
  split
  · exact .pure fun _ hStart => Opening.working hStart.1.1
  · rename_i hMore
    refine Agrees.bind (agrees_createConnector (fun _ hStart => hStart.1.1) (fun graph hStart => ?_) (.inr rfl)
      (fun graph hStart hSafe => ?_) fun graph hStart hSafe => .inr (hStart.1.2 hSafe).1) fun created => ?_
    · -- What is no node has nothing on its stack.
      by_contra hOutside
      rw [← hStart.2, node_of_size_le (Nat.not_lt.mp hOutside)] at hMore
      exact hMore (Nat.zero_le _)
    · obtain ⟨hBack, hSuccessors⟩ := hStart.1.2 hSafe
      exact ⟨((hStart.1.1.budget hSafe).edges header source hBack).2, hSuccessors⟩
    · have stable := stable_working watch work header
      refine .after (.node source) stable fun node => .after (.changeGraph fun graph => ?_) stable fun _ =>
        .pure fun _ hGraph => hGraph
      exact (SameFlow.mapStack graph source _).trans (.update _ created _ fun _ => rfl)

/-! ### Branches -/

/-- A branch visits its ways one after the other, and what follows it last. -/
theorem agrees_foldBranch (orderly : Orderly watch work fold fold') (id one other : NodeId) :
    Agrees watch
      (fun graph => graph.Opening watch work id ∧ Splits watch id one other graph) (foldBranch fold id one other)
      (foldBranch fold' id one other) fun _ => Working watch work id := by
  have stable := stable_working watch work id
  refine .after (quiet_takeCondition id) ((stable_opening id).and (stable_splits id one other)) fun test => ?_
  refine (agrees_waysOf id one other).bind fun ways => ?_
  refine .after (quiet_conditionTowards ways.body test) stable fun test => ?_
  refine (agrees_visit orderly id (some ways.body) .edge).bind fun body => ?_
  extract_lets finish finish'
  have hFinish : ∀ otherwise, Agrees watch (Working watch work id) (finish otherwise)
      (finish' otherwise) fun _ => Working watch work id := by
    intro otherwise
    dsimp only [finish, finish']
    split
    · exact (agrees_visit orderly id _ _).bind fun follow => .quiet (.push _) stable
    · exact .after (.pure _) stable fun follow => .quiet (.push _) stable
  split
  · exact ((agrees_visit orderly id _ .edge).map some).bind hFinish
  · exact .after (.pure none) stable hFinish

/-! ### Switches -/

/-- Opening and closing a construct is no visit. -/
theorem agrees_inside {α : Type} {start finish : Graph → Prop} {body body' : FoldingM α} (hStart : Stable start)
    (hFinish : Stable finish) (id : BreakableId)
    (agrees : Agrees watch start body body' fun _ => finish) :
    Agrees watch start (inside id body) (inside id body') fun _ => finish := by
  refine .after (fun _ _ _ => ⟨_, _, rfl, rfl, rfl, .refl _⟩) hStart fun _ => agrees.bind fun value => ?_
  exact .after (fun _ _ _ => ⟨_, _, rfl, rfl, rfl, .refl _⟩) hFinish fun _ => .pure fun _ hGraph => hGraph

/-- The arms of a switch are visited in order, each from the head. -/
theorem agrees_foldArms (orderly : Orderly watch work fold fold') (head : NodeId) (id : BreakableId)
    (table : SwitchTable) (follow : Option NodeId) (hasDefault : Bool) :
    Agrees watch (Working watch work head) (foldArms fold head id table follow hasDefault)
      (foldArms fold' head id table follow hasDefault) fun _ => Working watch work head := by
  have stable := stable_working watch work head
  refine .after .currentGraph stable fun graph => Agrees.bind (.mapM _ fun arm => ?_) fun arms => ?_
  · obtain ⟨node, keys⟩ := arm
    dsimp only
    split
    · exact (agrees_recordArrival head node .edge).bind fun _ =>
        .after (.push _) stable fun body => .pure fun _ hGraph => hGraph
    · exact (agrees_visit orderly head (some node) .edge).bind fun body => .pure fun _ hGraph => hGraph
  · dsimp only
    split
    · exact ((agrees_visit orderly head _ .edge).map some).bind fun default => .pure fun _ hGraph => hGraph
    · exact .after (.pure none) stable fun default => .pure fun _ hGraph => hGraph

/-- The arms are visited before the node that follows the switch. -/
theorem agrees_foldSwitch (orderly : Orderly watch work fold fold') (head : NodeId)
    (table : SwitchTable) :
    Agrees watch (Working watch work head) (foldSwitch fold head table)
      (foldSwitch fold' head table) fun _ => Working watch work head := by
  have stable := stable_working watch work head
  refine .after (.node head) stable fun node => ?_
  split
  · exact .quiet (.fail _) stable
  · refine .after (.mapStack head _) stable fun _ => ?_
    refine .after (.ask (SwitchTable.onlyAsks_follow? table)) stable fun follow => ?_
    refine .after (.ask (SwitchTable.onlyAsks_isDefaultArm table)) stable fun hasDefault => ?_
    refine .after (quiet_openBreakable _ _ _ _ _) stable fun breakable => ?_
    refine (agrees_inside stable stable breakable (agrees_foldArms orderly head breakable table follow
      hasDefault)).bind fun arms => ?_
    refine (agrees_visit orderly head follow .edge).bind fun followed => ?_
    refine .after (.push _) stable fun statement => .after (.node head) stable fun node => ?_
    split
    · exact .pure fun _ hGraph => hGraph
    · exact .quiet (.fragment _ _) stable

/-! ### Loops -/

/-- A node of the graph is taken out of the folding, and can visit others from now on. -/
theorem agrees_finish (id source : NodeId) :
    Agrees watch (fun graph => Working watch work id graph ∧ source < graph.nodes.size)
      (changeGraph (·.finish source)) (changeGraph (·.finish source))
      fun _ graph => Working watch work source graph ∧ graph.Done id :=
  .changeGraph (fun graph => .finish graph source) (fun _ => size_update _ _ _) (fun _ _ served => served.finish source)
    fun graph hGraph =>
      ⟨⟨hGraph.1.1.finish source, done_finish_self hGraph.2⟩, (Forward.finish graph source).done id hGraph.1.2⟩

/-- A node that a loop is tested at is not folded itself. It visits the node after the loop. -/
theorem agrees_foldDoWhile (orderly : Orderly watch work fold fold') (id first source : NodeId) :
    Agrees watch
      (fun graph => Working watch work id graph ∧ source < graph.nodes.size) (foldDoWhile fold id first source)
      (foldDoWhile fold' id first source) fun _ => Working watch work id := by
  have stable : Stable fun graph => Working watch work id graph ∧ source < graph.nodes.size :=
    (stable_working watch work id).and fun _ _ same hInside => same.size ▸ hInside
  refine .after (.node source) stable fun node => ?_
  refine .after (quiet_openBreakable _ _ _ _ _) stable fun breakable => ?_
  refine (agrees_inside stable stable breakable ((agrees_visit orderly id (some first) .edge).frame
    (lasting_inside source))).bind fun body => ?_
  refine .after (.fragment _ _) stable fun inner => .after (quiet_takeCondition source) stable fun test => ?_
  refine .after (quiet_conditionTowards id test) stable fun test => ?_
  refine (agrees_finish id source).bind fun _ => ?_
  refine ((agrees_visit orderly source _ .edge).frame (lasting_done id)).bind fun follow => ?_
  refine (Agrees.quiet (.push _) ?_).weaken fun _ _ hGraph => ⟨hGraph.1.1, hGraph.2⟩
  exact (stable_working watch work source).and fun _ _ same => same.done_iff.mpr

/-- The body of an endless loop is folded first, and then its exit is visited. -/
theorem agrees_foldForever (orderly : Orderly watch work fold fold') {start : Graph → Prop}
    (stable : Stable start) {inner inner' : FoldingM StructureId} (id : NodeId)
    (hInner : Agrees watch start inner inner' fun _ => Working watch work id)
    (exit : Option NodeId) :
    Agrees watch start (foldForever fold inner id exit) (foldForever fold' inner' id exit)
      fun _ => Working watch work id := by
  refine .after (quiet_openBreakable _ _ _ _ _) stable fun breakable => ?_
  refine (agrees_inside stable (stable_working watch work id) breakable hInner).bind fun body => ?_
  exact (agrees_visit orderly id exit .detached).bind fun follow => .quiet (.push _) (stable_working watch work id)

/-- The part of a loop after its test: its body, the node it leaves to, and the statement made of them. -/
theorem agrees_loop (orderly : Orderly watch work fold fold') (header body exit : NodeId)
    (checkpoint : Option NodeId) {build : BreakableId → StructureId → StructureId → FoldingM α}
    {finish : α → Graph → Prop}
    (hBuild : ∀ breakable inner follow, Agrees watch (Working watch work header) (build breakable inner follow)
      (build breakable inner follow) finish) :
    Agrees watch (Working watch work header) (do
      let breakable ← openBreakable .loop header body (some exit) checkpoint
      let inner ← inside breakable (visit fold header (some body) .edge)
      let follow ← visit fold header (some exit) .edge
      build breakable inner follow) (do
      let breakable ← openBreakable .loop header body (some exit) checkpoint
      let inner ← inside breakable (visit fold' header (some body) .edge)
      let follow ← visit fold' header (some exit) .edge
      build breakable inner follow) finish := by
  have stable := stable_working watch work header
  refine .after (quiet_openBreakable _ _ _ _ _) stable fun breakable => ?_
  refine (agrees_inside stable stable breakable (agrees_visit orderly header (some body) .edge)).bind fun inner => ?_
  exact (agrees_visit orderly header (some exit) .edge).bind fun follow => hBuild breakable inner follow

/-- If the loop goes over elements, it is folded. Otherwise its header is still as it was entered. -/
theorem agrees_forEach? (orderly : Orderly watch work fold fold') (header body exit source : NodeId) :
    Agrees watch
      (fun graph => graph.Opening watch work header ∧ Loops watch header source graph)
      (forEach? fold header body exit source) (forEach? fold' header body exit source)
      fun statement graph => if statement.isSome then Working watch work header graph
        else graph.Opening watch work header ∧ Loops watch header source graph := by
  have stable : Stable fun graph => graph.Opening watch work header ∧ Loops watch header source graph :=
    (stable_opening header).and (stable_loops header source)
  have stable' := stable_working watch work header
  refine .read fun setting => ?_
  dsimp only [Setting.recording]
  split
  · exact .pure fun _ hStart => hStart
  · refine .after .currentGraph stable fun graph => ?_
    split
    · refine .read fun setting => ?_
      dsimp only [Setting.recording]
      split
      · exact .pure fun _ hStart => hStart
      · rename_i iteration _
        refine .after (.mapStack body _) stable fun _ => .after (.mapStack _ _) stable fun _ => ?_
        have hLoop : ∀ checkpoint : Option NodeId, Agrees watch (Working watch work header) (do
            discard (takeCondition header)
            let breakable ← openBreakable .loop header body (some exit) checkpoint
            let inner ← inside breakable (visit fold header (some body) .edge)
            let follow ← visit fold header (some exit) .edge
            return some (← push (.forEach header breakable iteration.element iteration.iterable inner follow))) (do
            discard (takeCondition header)
            let breakable ← openBreakable .loop header body (some exit) checkpoint
            let inner ← inside breakable (visit fold' header (some body) .edge)
            let follow ← visit fold' header (some exit) .edge
            return some (← push (.forEach header breakable iteration.element iteration.iterable inner follow)))
            fun statement graph => if statement.isSome then Working watch work header graph
              else graph.Opening watch work header ∧ Loops watch header source graph := by
          intro checkpoint
          refine .after (.map (quiet_takeCondition header) _) stable' fun _ => ?_
          refine agrees_loop orderly header body exit checkpoint fun breakable inner follow => ?_
          exact .after (.push _) stable' fun statement => .pure fun _ hGraph => hGraph
        split
        · refine (agrees_isolateUpdates source header 1).bind fun checkpoint => ?_
          exact .after (.mapStack checkpoint _) stable' fun _ => .after (.pure _) stable' hLoop
        · refine .after (.pure none) stable fun checkpoint => (hLoop checkpoint).strengthen fun _ hStart => ?_
          exact Opening.working hStart.1
    · exact .pure fun _ hStart => hStart

/-- The statement of a loop over elements, or what is folded if the loop is none. -/
theorem agrees_unlessForEach {start finish : Graph → Prop} {otherwise otherwise' : FoldingM StructureId}
    (hOtherwise : Agrees watch start otherwise otherwise' fun _ => finish)
    (statement : Option StructureId) :
    Agrees watch (fun graph => if statement.isSome then finish graph else start graph)
      (match statement with | some statement => return statement | none => otherwise)
      (match statement with | some statement => return statement | none => otherwise') fun _ => finish := by
  cases statement with
  | some statement => exact .pure fun _ hGraph => hGraph
  | none => exact hOtherwise.strengthen fun _ hGraph => by simpa using hGraph

/-- A loop that is tested in front visits its body, then its exit. -/
theorem agrees_foldWhile (orderly : Orderly watch work fold fold') {inner inner' : FoldingM StructureId}
    (id : NodeId) (backedges : List NodeId)
    (hInner : Agrees watch (Opening watch work id) inner inner' fun _ => Working watch work id) :
    Agrees watch
      (fun graph => graph.Opening watch work id ∧ Loops watch id (backedges.headD id) graph)
      (foldWhile fold inner id backedges) (foldWhile fold' inner' id backedges)
      fun _ => Working watch work id := by
  have stable : Stable fun graph => graph.Opening watch work id ∧ Loops watch id (backedges.headD id) graph :=
    (stable_opening id).and (stable_loops id _)
  have stable' := stable_working watch work id
  refine .after (quiet_bodyAndExit? id backedges) stable fun ways => ?_
  split
  · exact agrees_foldForever orderly stable id (hInner.strengthen fun _ hStart => hStart.1) none
  · rename_i body exit
    refine (agrees_forEach? orderly id body exit _).bind fun iteration => agrees_unlessForEach ?_ iteration
    refine Agrees.strengthen ?_ fun _ hStart => Opening.working hStart.1
    refine .after (quiet_takeCondition id) stable' fun test => .after (quiet_conditionTowards body test) stable'
      fun test => ?_
    exact agrees_loop orderly id body exit _ fun breakable inner follow => .quiet (.push _) stable'

/-- A loop with updates takes them off the node that leads back before it goes on like one without. -/
theorem agrees_foldFor (orderly : Orderly watch work fold fold') {inner inner' : FoldingM StructureId}
    (id source : NodeId)
    (hInner : Agrees watch (Opening watch work id) inner inner' fun _ => Working watch work id) :
    Agrees watch (fun graph => graph.Opening watch work id ∧ Loops watch id source graph)
      (foldFor fold inner id source) (foldFor fold' inner' id source) fun _ => Working watch work id := by
  have stable : Stable fun graph => graph.Opening watch work id ∧ Loops watch id source graph :=
    (stable_opening id).and (stable_loops id _)
  have stable' := stable_working watch work id
  refine .after (quiet_bodyAndExit? id [source]) stable fun ways => ?_
  split
  · exact agrees_foldForever orderly stable id (hInner.strengthen fun _ hStart => hStart.1) none
  · rename_i body exit
    refine (agrees_forEach? orderly id body exit source).bind fun iteration => agrees_unlessForEach ?_ iteration
    refine .after .currentGraph stable fun graph => ?_
    dsimp only
    split
    · exact agrees_foldWhile orderly id [source] hInner
    · refine (agrees_isolateUpdates source id _).bind fun checkpoint => .after (.node checkpoint) stable' fun node => ?_
      refine .after (.mapStack checkpoint _) stable' fun _ => .after (quiet_takeInitializer id _) stable'
        fun initializer => .after (quiet_takeCondition id) stable' fun test => ?_
      refine .after (quiet_conditionTowards body test) stable' fun test => ?_
      exact agrees_loop orderly id body exit _ fun breakable inner follow => .quiet (.push _) stable'

/-! ### Nodes -/

/-- The back-edges are among those of the node. -/
def Owns (watch : Watch) (id : NodeId) (backedges : List NodeId) (graph : Graph) : Prop :=
  watch.safe → ∀ source ∈ backedges, source ∈ (graph.node id).backedges

theorem stable_owns (id : NodeId) (backedges : List NodeId) : Stable (Owns watch id backedges) :=
  fun _ _ same hOwns hSafe => same.backedges id ▸ hOwns hSafe

/-- A node with two ways and a back-edge is one that loops. -/
theorem Owns.loops {id source one other : NodeId} {backedges : List NodeId} {graph : Graph}
    (owns : Owns watch id backedges graph) (hSource : source ∈ backedges)
    (hOutgoing : (graph.node id).outgoing = [one, other]) : Loops watch id source graph := fun hSafe =>
  ⟨owns hSafe source hSource, hOutgoing ▸ Nat.le_refl _⟩

/-- By induction on the back-edges that are left: each loop that is found takes one away. -/
theorem agrees_classifyWithin (orderly : Orderly watch work fold fold') (id : NodeId) (fuel : Nat)
    (backedges : List NodeId) :
    Agrees watch
      (fun graph => graph.Opening watch work id ∧ Owns watch id backedges graph)
      (classifyWithin fold id fuel backedges) (classifyWithin fold' id fuel backedges)
      fun _ => Working watch work id := by
  have stable' := stable_working watch work id
  -- Inside an endless loop the header is classified anew, still as it was entered.
  induction fuel generalizing backedges with
  | zero =>
      refine (Agrees.quiet (.fragment _ _) ((stable_opening id).and (stable_owns id backedges))).weaken ?_
      exact fun _ _ hGraph => Opening.working hGraph.1
  | succ fuel ih =>
      have stable : Stable fun graph => graph.Opening watch work id ∧ Owns watch id backedges graph :=
        (stable_opening id).and (stable_owns id backedges)
      have hPlain : Agrees watch (Opening watch work id) (classifyWithin fold id fuel [])
          (classifyWithin fold' id fuel []) fun _ => Working watch work id :=
        (ih []).strengthen fun _ opening => ⟨opening, fun _ _ hSource => absurd hSource List.not_mem_nil⟩
      have hEndless (group : BackedgeGroup) : Agrees watch
          (fun graph => graph.Opening watch work id ∧ Owns watch id backedges graph)
          (foldForever fold (classifyWithin fold id fuel (backedges.filter (!group.members.contains ·))) id group.exit)
          (foldForever fold' (classifyWithin fold' id fuel (backedges.filter (!group.members.contains ·))) id
            group.exit)
          fun _ => Working watch work id := by
        refine agrees_foldForever orderly stable id ((ih _).strengthen fun _ hStart => ?_) _
        exact ⟨hStart.1, fun hSafe source hSource => hStart.2 hSafe source (List.mem_of_mem_filter hSource)⟩
      rw [classifyWithin, classifyWithin]
      refine .node id fun node => ?_
      dsimp only
      split
      · refine (Agrees.quiet (.fragment _ _) stable).weaken ?_ |>.strengthen ?_
        · exact fun _ _ hGraph => Opening.working hGraph.1
        · exact fun _ hStart => hStart.1
      · refine Agrees.strengthen ?_ fun _ hStart => Opening.working hStart.1.1
        exact (agrees_visit orderly id _ .edge).bind fun follow => .quiet (.fragment _ _) stable'
      · rename_i source _
        refine Agrees.strengthen ?_ fun _ hStart => hStart.1
        refine .after (.ask (BackedgeGroup.onlyAsks_collect id _)) stable fun group => .graph fun graph => ?_
        split
        · rename_i hTested
          refine (agrees_foldDoWhile orderly id _ source).strengthen fun graph hStart => ?_
          refine ⟨Opening.working hStart.1.1, ?_⟩
          -- What is no node has no successors.
          by_contra hOutside
          rw [← hStart.2, node_of_size_le (Nat.not_lt.mp hOutside)] at hTested
          cases hTested
        · exact (hEndless group).strengthen fun _ hStart => hStart.1
      · refine Agrees.strengthen ?_ fun _ hStart => hStart.1
        exact .after (.ask (BackedgeGroup.onlyAsks_collect id _)) stable hEndless
      · rename_i hOutgoing
        refine (agrees_foldBranch orderly id _ _).strengthen fun graph hStart => ⟨hStart.1.1, fun _ => ?_⟩
        rw [hStart.2, hOutgoing]
      · rename_i source hOutgoing
        refine .graph fun graph => ?_
        have hStart (graph' : Graph) : ((graph'.Opening watch work id ∧ Owns watch id [source] graph') ∧
            graph'.node id = node) ∧ graph' = graph →
              graph'.Opening watch work id ∧ Loops watch id source graph' := fun hGraph =>
          ⟨hGraph.1.1.1, hGraph.1.1.2.loops List.mem_cons_self (hGraph.1.2 ▸ hOutgoing)⟩
        split
        · exact (agrees_foldFor orderly id source hPlain).strengthen hStart
        · exact (agrees_foldWhile orderly id [source] hPlain).strengthen hStart
      · rename_i backedges _ _ _ _ hOutgoing hSome _
        have hHead : backedges.headD id ∈ backedges := by
          cases backedges with
          | nil => exact absurd rfl hSome
          | cons source rest => exact List.mem_cons_self
        exact (agrees_foldWhile orderly id backedges hPlain).strengthen fun graph hStart =>
          ⟨hStart.1.1, hStart.1.2.loops hHead (hStart.2 ▸ hOutgoing)⟩
      · refine Agrees.strengthen ?_ fun _ hStart => Opening.working hStart.1.1
        exact .quiet (.fail _) stable'

/-- A node is folded by its back-edges and its successors. -/
theorem agrees_classify (orderly : Orderly watch work fold fold') (id : NodeId) :
    Agrees watch (Opening watch work id) (classify fold id) (classify fold' id)
      fun _ => Working watch work id := by
  refine .node id fun node => (agrees_classifyWithin orderly id _ node.backedges).strengthen fun graph hStart => ?_
  exact ⟨hStart.1, fun _ source hSource => hStart.2.symm ▸ hSource⟩

/-- A node with a switch goes by its table, all others by their edges. -/
theorem agrees_foldBody (orderly : Orderly watch work fold fold') (id : NodeId) :
    Agrees watch (Opening watch work id) (foldBody fold id) (foldBody fold' id)
      fun _ => Working watch work id := by
  refine .after (.node id) (stable_opening id) fun node => .get fun state => ?_
  dsimp only [recording]
  split
  · exact (agrees_foldSwitch orderly id _).strengthen fun _ => Opening.working
  · exact agrees_classify orderly id

/-- Folds the handlers of a region, which it grants a visit each, and the node after it. -/
theorem agrees_foldRegion (orderly : Orderly watch work fold fold') (id : NodeId) (body : StructureId)
    (region : Region) :
    Agrees watch (Working watch work id) (foldRegion fold id body region)
      (foldRegion fold' id body region) fun _ => Working watch work id := by
  have stable := stable_working watch work id
  refine Agrees.bind (.mapM _ fun handler => ?_) fun catches => ?_
  · exact (agrees_visit orderly id _ .additional).bind fun arm => .pure fun _ hGraph => hGraph
  · dsimp only
    split
    · exact .after (.pure _) stable fun follow => .quiet (.push _) stable
    · rename_i exit _
      refine .after (fun _ _ _ => ⟨_, _, rfl, rfl, rfl, .refl _⟩) stable fun _ => .get fun state => ?_
      dsimp only [recording]
      refine .node exit fun node => ?_
      split
      · exact Agrees.strengthen (.after (.pure _) stable fun follow => .quiet (.push _) stable) fun _ hStart => hStart.1
      · rename_i hReady
        rw [Bool.not_eq_true, Bool.or_eq_false_iff, Bool.not_eq_false'] at hReady
        refine Agrees.bind ((orderly.working id exit).strengthen fun graph hStart => ?_) fun follow =>
          .quiet (.push _) stable
        obtain ⟨⟨inOrder, done⟩, rfl⟩ := hStart
        exact ⟨inOrder.due hReady.2, done⟩

/-- Regions that start at one node are folded from the innermost to the outermost one. -/
theorem agrees_foldRegions (orderly : Orderly watch work fold fold') (id : NodeId)
    (regions : List RegionId) :
    Agrees watch (Opening watch work id) (foldRegions fold id regions)
      (foldRegions fold' id regions) fun _ => Working watch work id := by
  refine .set (stable_opening id) ?_ ?_ ?_ fun state => ?_
  rotate_left 3
  · exact (agrees_foldBody orderly id).bind fun body => .foldlM _ (agrees_foldRegion orderly id) body
  · exact fun state => rfl
  · exact fun state => .update _ _ _ fun _ => rfl
  · exact fun state => rfl

end Folding

end Decompiler
