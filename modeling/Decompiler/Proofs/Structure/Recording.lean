import Decompiler.Proofs.Sequencing
import Decompiler.Proofs.Structure.Visiting

/-!
Runs of folding that keep records of progress, beside runs that keep none or go less deep. A step that agrees with
another one comes to the same outcome and the same state, up to the records, and leaves right records behind.
-/

namespace Decompiler

/-- The setting, with records of progress or without them. -/
def Setting.recording (setting : Setting) (trace : Bool) : Setting :=
  { setting with options := { setting.options with trace } }

/-- The node that a record says was folded, if there is such a node. -/
def TraceEntry.folded? : TraceEntry → Option NodeId
  | .node .folded graph id => if id < graph.capacity then some id else none
  | _ => none

/-- What a step does that is made of two steps. -/
theorem run_bind {ρ ε σ α β : Type} (action : ReaderT ρ (ExceptT ε (StateM σ)) α)
    (next : α → ReaderT ρ (ExceptT ε (StateM σ)) β) (setting : ρ) (state : σ) :
    ((action >>= next) setting).run.run state =
      match (action setting).run.run state with
      | (.ok value, middle) => (next value setting).run.run middle
      | (.error fault, middle) => (.error fault, middle) := by
  change (ExceptT.run (action setting >>= fun value => next value setting)).run state = _
  rw [ExceptT.run_bind, StateT.run_bind]
  rcases (action setting).run.run state with ⟨_ | _, _⟩ <;> rfl

namespace Folding

open Decompiler.Graph

variable {α β γ : Type}

/-- The state, with its records of progress or without them. -/
def recording (state : Folding) (trace : Bool) : Folding :=
  { state with trace := if trace then state.trace else [] }

theorem run_currentGraph_bind {β : Type} (next : Graph → FoldingM β) (setting : Setting) (state : Folding) :
    ((currentGraph >>= next) setting).run.run state = (next state.graph setting).run.run state := rfl

/-! ### Steps that no visit and no record depends on -/

/-- A step does the same without records of progress. It makes no record and changes nothing that visits depend on. -/
def Quiet (step : FoldingM α) : Prop :=
  ∀ trace (setting : Setting) (state : Folding), ∃ outcome after,
    (step setting).run.run state = (outcome, after) ∧
      (step (setting.recording trace)).run.run (state.recording trace) = (outcome, after.recording trace) ∧
      after.trace = state.trace ∧ SameFlow state.graph after.graph

namespace Quiet

variable {step : FoldingM α} {next : α → FoldingM β}

theorem pure (value : α) : Quiet (Pure.pure value) := fun _ _ state => ⟨.ok value, state, rfl, rfl, rfl, .refl _⟩

theorem bind (first : Quiet step) (second : ∀ value, Quiet (next value)) : Quiet (step >>= next) :=
  fun trace setting state => by
    obtain ⟨outcome, middle, hRun, hOther, hTrace, hFlow⟩ := first trace setting state
    rw [run_bind, run_bind, hRun, hOther]
    cases outcome with
    | error fault => exact ⟨_, middle, rfl, rfl, hTrace, hFlow⟩
    | ok value =>
        obtain ⟨outcome, after, hRun', hOther', hTrace', hFlow'⟩ := second value trace setting middle
        exact ⟨outcome, after, hRun', hOther', hTrace'.trans hTrace, hFlow.trans hFlow'⟩

theorem map (quiet : Quiet step) (convert : α → β) : Quiet (convert <$> step) := by
  rw [map_eq_pure_bind]
  exact quiet.bind fun value => .pure _

theorem fail (fault : StructuralFault) : Quiet (Folding.fail fault : FoldingM α) :=
  fun _ _ state => ⟨_, state, rfl, rfl, rfl, .refl _⟩

theorem node (id : NodeId) : Quiet (Folding.node id) := fun _ _ state => ⟨_, state, rfl, rfl, rfl, .refl _⟩

theorem currentGraph : Quiet Folding.currentGraph := fun _ _ state => ⟨_, state, rfl, rfl, rfl, .refl _⟩

theorem breakable (id : BreakableId) : Quiet (Folding.breakable id) :=
  fun _ _ state => ⟨_, state, rfl, rfl, rfl, .refl _⟩

theorem push (statement : Structure) : Quiet (Folding.push statement) :=
  fun _ _ _ => ⟨_, _, rfl, rfl, rfl, .refl _⟩

theorem fragment (id : NodeId) (follow : StructureId) : Quiet (Folding.fragment id follow) := push _

theorem changeGraph {change : Graph → Graph} (hChange : ∀ graph, SameFlow graph (change graph)) :
    Quiet (Folding.changeGraph change) := fun _ _ state => ⟨_, _, rfl, rfl, rfl, hChange state.graph⟩

theorem mapStack (id : NodeId) (change : List Operand → List Operand) :
    Quiet (Folding.changeGraph (·.mapStack id change)) := changeGraph fun graph => .mapStack graph id change

/-- A query for dominators. -/
theorem ask {query : GraphM α} (hQuery : OnlyAsks query) : Quiet (query : FoldingM α) :=
  fun _ _ state => ⟨_, _, rfl, rfl, rfl, .of_sameFacts (hQuery state.graph)⟩

/-- A step of the supply. -/
theorem supply (step : SupplyM α) : Quiet (step : FoldingM α) :=
  fun _ _ _ => ⟨_, _, rfl, rfl, rfl, rfl, fun _ => rfl⟩

end Quiet

/-- A condition on nodes that depends only on what visits depend on. -/
def Stable (condition : Graph → Prop) : Prop :=
  ∀ before after, SameFlow before after → condition before → condition after

namespace Stable

variable {condition other : Graph → Prop}

/-- Two conditions that depend on nothing else do not do so together either. -/
theorem and (first : Stable condition) (second : Stable other) : Stable fun graph => condition graph ∧ other graph :=
  fun before after same => And.imp (first before after same) (second before after same)

end Stable

/-- A condition on nodes that is kept while folding goes on. -/
def Lasting (condition : Graph → Prop) : Prop :=
  ∀ before after, Forward before after → condition before → condition after

/-! ### Steps that agree -/

/-- The records say the truth: every node was folded once, after precisely the visits that it required. If the graph
was safe to fold, every mark of a back-edge was on an edge, not too many nodes were made, and the nodes that were folded
require no other visits now. -/
structure Recorded (watch : Watch) (state : Folding) : Prop where
  exact : ∀ graph id, .node .folded graph id ∈ state.trace → id ≠ watch.entry → (graph.node id).VisitsExact
  edges : watch.safe → ∀ graph id, .node .folded graph id ∈ state.trace →
    ∀ back ∈ (graph.node id).backedges, back ∈ (graph.node id).incoming
  nodup : (state.trace.filterMap TraceEntry.folded?).Nodup
  done : ∀ id ∈ state.trace.filterMap TraceEntry.folded?, state.graph.Done id
  nodes : watch.safe → state.graph.nodes.size ≤ watch.nodes
  served : watch.safe → ∀ id ∈ state.trace.filterMap TraceEntry.folded?, id ≠ watch.entry → state.graph.Served id

variable {watch : Watch}

/-- The records stay right while none is added. -/
theorem Recorded.forward {state after : Folding} (recorded : Recorded watch state)
    (hTrace : after.trace = state.trace) (forward : Forward state.graph after.graph)
    (hNodes : watch.safe → after.graph.nodes.size ≤ watch.nodes)
    (hServed : watch.safe → ∀ id, state.graph.Served id → after.graph.Served id) : Recorded watch after := by
  obtain ⟨hExact, hEdges, hNodup, hDone, -, hFolded⟩ := recorded
  constructor <;> try rw [hTrace]
  · exact hExact
  · exact hEdges
  · exact hNodup
  · exact fun id hId => forward.done id (hDone id hId)
  · exact hNodes
  · exact fun hSafe id hId hOther => hServed hSafe id (hFolded hSafe id hId hOther)

/-- A step that no visit depends on makes no record wrong. -/
theorem Recorded.sameFlow {state after : Folding} (recorded : Recorded watch state) (hTrace : after.trace = state.trace)
    (same : SameFlow state.graph after.graph) : Recorded watch after :=
  recorded.forward hTrace (.of_sameFlow same) (fun hSafe => same.size ▸ recorded.nodes hSafe)
    fun _ _ served => served.sameFlow same

/-- From nodes that fulfil the condition at its start a step with records comes to the same outcome as the other
step, and to the same state up to the records, which are right. If it succeeds, nodes fulfil the condition at its
end. -/
def Agrees (watch : Watch) (start : Graph → Prop) (step other : FoldingM α)
    (finish : α → Graph → Prop) : Prop :=
  ∀ (setting : Setting) (state : Folding), Recorded watch state → start state.graph →
    ∃ outcome after, (step (setting.recording true)).run.run state = (outcome, after) ∧
      (other (setting.recording watch.trace)).run.run (state.recording watch.trace) =
        (outcome, after.recording watch.trace) ∧
      Recorded watch after ∧ Forward state.graph after.graph ∧
      ∀ value, outcome = .ok value → finish value after.graph

namespace Agrees

variable {start weaker : Graph → Prop} {step other : FoldingM α} {next next' : α → FoldingM β}
  {middle finish : α → Graph → Prop} {final : β → Graph → Prop}

/-- Steps in sequence, where the second starts as the first one ends. -/
theorem bind (first : Agrees watch start step other middle)
    (second : ∀ value, Agrees watch (middle value) (next value) (next' value) final) :
    Agrees watch start (step >>= next) (other >>= next') final :=
  fun setting state recorded hStart => by
    obtain ⟨outcome, between, hRun, hOther, recorded', forward, hMiddle⟩ := first setting state recorded hStart
    rw [run_bind, run_bind, hRun, hOther]
    cases outcome with
    | error fault => exact ⟨_, between, rfl, rfl, recorded', forward, fun value hValue => by cases hValue⟩
    | ok value =>
        obtain ⟨outcome, after, hRun', hOther', recorded'', forward', hFinal⟩ :=
          second value setting between recorded' (hMiddle value rfl)
        exact ⟨outcome, after, hRun', hOther', recorded'', forward.trans forward', hFinal⟩

/-- What lasts need not be proved of a step. -/
theorem frame {condition : Graph → Prop} (agrees : Agrees watch start step other finish)
    (lasting : Lasting condition) :
    Agrees watch (fun graph => start graph ∧ condition graph) step other
      fun value graph => finish value graph ∧ condition graph :=
  fun setting state recorded hStart => by
    obtain ⟨outcome, after, hRun, hOther, recorded', forward, hFinish⟩ := agrees setting state recorded hStart.1
    exact ⟨outcome, after, hRun, hOther, recorded', forward,
      fun value hValue => ⟨hFinish value hValue, lasting _ _ forward hStart.2⟩⟩

/-- A step may be started with more than it asks for. -/
theorem strengthen (agrees : Agrees watch weaker step other finish)
    (hStart : ∀ graph, start graph → weaker graph) : Agrees watch start step other finish :=
  fun setting state recorded hState => agrees setting state recorded (hStart _ hState)

/-- Less may be passed on than a step gives. -/
theorem weaken (agrees : Agrees watch start step other middle)
    (hFinish : ∀ value graph, middle value graph → finish value graph) :
    Agrees watch start step other finish :=
  fun setting state recorded hState => by
    obtain ⟨outcome, after, hRun, hOther, recorded', forward, hMiddle⟩ := agrees setting state recorded hState
    exact ⟨outcome, after, hRun, hOther, recorded', forward, fun value hValue => hFinish _ _ (hMiddle value hValue)⟩

theorem pure {value : α} (hFinish : ∀ graph, start graph → finish value graph) :
    Agrees watch start (Pure.pure value) (Pure.pure value) finish :=
  fun _ state recorded hStart => ⟨.ok value, state, rfl, rfl, recorded, .refl _, fun _ hValue => by
    cases hValue
    exact hFinish _ hStart⟩

/-- A quiet step agrees with itself, and what is stable holds after it too. -/
theorem quiet (quiet : Quiet step) (stable : Stable start) :
    Agrees watch start step step fun _ => start := fun setting state recorded hStart => by
  obtain ⟨outcome, after, hRun, hOther, hTrace, same⟩ := quiet watch.trace (setting.recording true) state
  exact ⟨outcome, after, hRun, hOther, recorded.sameFlow hTrace same, .of_sameFlow same,
    fun _ _ => stable _ _ same hStart⟩

/-- A quiet step before others. -/
theorem after (first : Quiet step) (stable : Stable start)
    (second : ∀ value, Agrees watch start (next value) (next' value) final) :
    Agrees watch start (step >>= next) (step >>= next') final :=
  (quiet first stable).bind second

/-- A step that looks at a node. -/
theorem node {next next' : Node → FoldingM β} (id : NodeId) (second : ∀ node,
      Agrees watch (fun graph => start graph ∧ graph.node id = node) (next node) (next' node) final) :
    Agrees watch start (Folding.node id >>= next) (Folding.node id >>= next') final :=
  fun setting state recorded hStart => second _ setting state recorded ⟨hStart, rfl⟩

/-- A step that looks at the graph. -/
theorem graph {next next' : Graph → FoldingM β} (second : ∀ graph,
      Agrees watch (fun graph' => start graph' ∧ graph' = graph) (next graph) (next' graph) final) :
    Agrees watch start (Folding.currentGraph >>= next) (Folding.currentGraph >>= next') final :=
  fun setting state recorded hStart => second _ setting state recorded ⟨hStart, rfl⟩

/-- A step that looks at the state. -/
theorem get {next next' : Folding → FoldingM β} (second : ∀ state : Folding,
      Agrees watch start (next state) (next' (state.recording watch.trace)) final) :
    Agrees watch start (MonadState.get >>= next) (MonadState.get >>= next') final :=
  fun setting state recorded hStart => second state setting state recorded hStart

/-- A step that looks at the setting. -/
theorem read {next next' : Setting → FoldingM β} (second : ∀ setting : Setting, Agrees watch start
      (next (setting.recording true)) (next' (setting.recording watch.trace)) final) :
    Agrees watch start (MonadReader.read >>= next) (MonadReader.read >>= next') final :=
  fun setting state recorded hStart => second setting setting state recorded hStart

theorem changeGraph {change : Graph → Graph} {finish : Graph → Prop}
    (hForward : ∀ graph, Forward graph (change graph))
    (hNodes : ∀ graph, (change graph).nodes.size = graph.nodes.size)
    (hServed : ∀ graph id, graph.Served id → (change graph).Served id)
    (hChange : ∀ graph, start graph → finish (change graph)) :
    Agrees watch start (Folding.changeGraph change) (Folding.changeGraph change) fun _ => finish :=
  fun _ state recorded hStart => by
    refine ⟨_, _, rfl, rfl, ?_, hForward state.graph, fun _ _ => hChange _ hStart⟩
    exact recorded.forward rfl (hForward state.graph) (fun hSafe => (hNodes state.graph).symm ▸ recorded.nodes hSafe)
      fun _ => hServed state.graph

/-- A step that makes a node. -/
theorem make {make : Graph → α × Graph} (hForward : ∀ graph, start graph → Forward graph (make graph).2)
    (hNodes : ∀ graph, start graph → watch.safe → (make graph).2.nodes.size ≤ watch.nodes)
    (hServed : ∀ graph, start graph → watch.safe → ∀ id, graph.Served id → (make graph).2.Served id)
    (hMake : ∀ graph, start graph → finish (make graph).1 (make graph).2) :
    Agrees watch start (modifyGet make : GraphM α) (modifyGet make : GraphM α) finish :=
  fun _ state recorded hStart => by
    refine ⟨_, _, rfl, rfl, ?_, hForward state.graph hStart, fun value hValue => ?_⟩
    · exact recorded.forward rfl (hForward state.graph hStart) (hNodes state.graph hStart)
        (hServed state.graph hStart)
    · cases hValue
      exact hMake _ hStart

/-- The whole state changes, but no record is made and nothing that visits depend on changes. -/
theorem set {change : Folding → Folding} {next next' : Folding → FoldingM β} (stable : Stable start)
    (hTrace : ∀ state, (change state).trace = state.trace)
    (hFlow : ∀ state, SameFlow state.graph (change state).graph)
    (hSame : ∀ state : Folding, change (state.recording watch.trace) = (change state).recording watch.trace)
    (second : ∀ state : Folding,
      Agrees watch start (next state) (next' (state.recording watch.trace)) final) :
    Agrees watch start (do let state ← MonadState.get; MonadStateOf.set (change state); next state)
      (do let state ← MonadState.get; MonadStateOf.set (change state); next' state) final := by
  refine fun setting state recorded hStart => ?_
  have forward := Forward.of_sameFlow (hFlow state)
  have recorded' := recorded.sameFlow (hTrace state) (hFlow state)
  obtain ⟨outcome, after, hRun, hOther, recorded'', forward', hFinal⟩ :=
    second state setting (change state) recorded' (stable _ _ (hFlow state) hStart)
  refine ⟨outcome, after, hRun, ?_, recorded'', forward.trans forward', hFinal⟩
  rw [← hSame] at hOther
  exact hOther

theorem map (agrees : Agrees watch start step other fun _ => weaker) (convert : α → β) :
    Agrees watch start (convert <$> step) (convert <$> other) fun _ => weaker := by
  rw [map_eq_pure_bind, map_eq_pure_bind]
  exact agrees.bind fun value => .pure fun _ hGraph => hGraph

/-- Steps for a list of items, each of which leaves what it started with. -/
theorem mapM {step other : γ → FoldingM α} (items : List γ)
    (hStep : ∀ item, Agrees watch start (step item) (other item) fun _ => start) :
    Agrees watch start (items.mapM step) (items.mapM other) fun _ => start := by
  induction items with
  | nil =>
      rw [List.mapM_nil, List.mapM_nil]
      exact .pure fun _ hGraph => hGraph
  | cons item rest ih =>
      rw [List.mapM_cons, List.mapM_cons]
      exact (hStep item).bind fun first => ih.bind fun others => .pure fun _ hGraph => hGraph

theorem foldlM {step other : α → γ → FoldingM α} (items : List γ)
    (hStep : ∀ value item, Agrees watch start (step value item) (other value item) fun _ => start)
    (value : α) :
    Agrees watch start (items.foldlM step value) (items.foldlM other value) fun _ => start := by
  induction items generalizing value with
  | nil => exact .pure fun _ hGraph => hGraph
  | cons item rest ih =>
      rw [List.foldlM_cons, List.foldlM_cons]
      exact (hStep value item).bind ih

end Agrees

end Folding

end Decompiler
