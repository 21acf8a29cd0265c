import Decompiler.Proofs.Graph.Idle
import Decompiler.Proofs.Structure.Enclosing
import Decompiler.Proofs.Structure.Visiting

/-!
What steps of folding do to the arena. A step takes over some pending statements, and the statements that its
result names are pending after it, each with the constructs around it. Nodes that were visited to the end stay so, and
only they have statements. A construct is known at the nodes where it begins, ends or is tested, and nowhere else.
-/

namespace Decompiler

/-- The statement that a node became, whether it was visited to the end, and the constructs that it knows. -/
def Node.standing (node : Node) : Option StructureId × Bool × List BreakableId :=
  (node.statement, node.visit.isDone, node.breakables)

namespace Graph

variable {graph middle after : Graph} {id : NodeId}

/-- Only nodes that are not visited any more have become statements. -/
def StatementsDone (graph : Graph) : Prop :=
  ∀ id, (graph.node id).statement.isSome → (graph.node id).visit.isDone

/-- No node was visited to the end, became a statement, or learnt of a construct. -/
def SameStanding (before after : Graph) : Prop := ∀ id, (after.node id).standing = (before.node id).standing

namespace SameStanding

theorem refl (graph : Graph) : SameStanding graph graph := fun _ => rfl

theorem trans (first : SameStanding graph middle) (second : SameStanding middle after) : SameStanding graph after :=
  fun id => (second id).trans (first id)

theorem of_sameProgress (same : SameProgress graph after) : SameStanding graph after := fun id =>
  congrArg (fun progress => (progress.1, progress.2.1.isDone, progress.2.2)) (same id)

theorem update (graph : Graph) (id : NodeId) (change : Node → Node)
    (hKeep : ∀ node, (change node).standing = node.standing) : SameStanding graph (graph.update id change) :=
  fun _ => field_update Node.standing change (hKeep _)

theorem statement (same : SameStanding graph after) (id : NodeId) :
    (after.node id).statement = (graph.node id).statement := congrArg (·.1) (same id)

theorem isDone (same : SameStanding graph after) (id : NodeId) :
    (after.node id).visit.isDone = (graph.node id).visit.isDone := congrArg (·.2.1) (same id)

theorem known (same : SameStanding graph after) (id : NodeId) :
    (after.node id).breakables = (graph.node id).breakables := congrArg (·.2.2) (same id)

end SameStanding

/-- A node learns of a construct. -/
def tell (id : BreakableId) (graph : Graph) (place : NodeId) : Graph :=
  graph.update place fun node =>
    if node.breakables.contains id then node else { node with breakables := node.breakables ++ [id] }

theorem done_tell (id : BreakableId) (places : List NodeId) (graph : Graph) (other : NodeId) :
    (((places.foldl (tell id) graph).node other).statement, ((places.foldl (tell id) graph).node other).visit) =
      ((graph.node other).statement, (graph.node other).visit) := by
  induction places generalizing graph with
  | nil => rfl
  | cons place rest ih =>
      refine (ih (graph.tell id place)).trans (field_update (fun node => (node.statement, node.visit)) _ ?_)
      split <;> rfl

/-- Nothing else is learnt, and nowhere else. -/
theorem mem_breakables_tell {id known : BreakableId} {places : List NodeId} {graph : Graph} {other : NodeId}
    (hKnown : known ∈ ((places.foldl (tell id) graph).node other).breakables) :
    known ∈ (graph.node other).breakables ∨ known = id ∧ other ∈ places := by
  induction places generalizing graph with
  | nil => exact .inl hKnown
  | cons place rest ih =>
      rcases ih hKnown with hBefore | ⟨hSame, hPlace⟩
      · rw [tell, node_update] at hBefore
        split at hBefore
        · rename_i hAt
          split at hBefore
          · exact .inl hBefore
          · refine (List.mem_append.mp hBefore).imp_right fun hNew => ?_
            exact ⟨List.mem_singleton.mp hNew, hAt.1 ▸ List.mem_cons_self⟩
        · exact .inl hBefore
      · exact .inr ⟨hSame, List.mem_cons_of_mem _ hPlace⟩

/-- A node becomes a statement. -/
def note (graph : Graph) (id : NodeId) (statement : StructureId) : Graph :=
  graph.update id fun node => { node with statement := some statement }

theorem field_note {α : Type} (read : Node → α)
    (hRead : ∀ node statement, read { node with statement } = read node) (graph : Graph) (id : NodeId)
    (statement : StructureId) (other : NodeId) :
    read ((graph.note id statement).node other) = read (graph.node other) :=
  field_update read _ (hRead _ _)

theorem statement_note (graph : Graph) (id : NodeId) (statement : StructureId) (other : NodeId) :
    ((graph.note id statement).node other).statement = (graph.node other).statement ∨
      other = id ∧ ((graph.note id statement).node other).statement = some statement := by
  rw [note, node_update]
  split
  · rename_i hSame
    exact .inr ⟨hSame.1.symm, rfl⟩
  · exact .inl rfl

end Graph

/-! ### States of folding -/

/-- A statement that waits to be named, and the constructs that will stand around it. -/
structure Awaited where
  around : List BreakableId
  id : StructureId

/-- The statement waits for a name inside the given constructs. -/
def here (outer : List BreakableId) (id : StructureId) : List Awaited := [⟨outer, id⟩]

/-- What a statement names, if it stands inside the given constructs itself. -/
def Structure.awaits (outer : List BreakableId) (statement : Structure) : List Awaited :=
  statement.nested.map (Awaited.mk (statement.around outer)) ++ statement.follow?.toList.map (Awaited.mk outer)

@[simp] theorem Structure.map_id_awaits (outer : List BreakableId) (statement : Structure) :
    (statement.awaits outer).map Awaited.id = statement.children := by
  simp [awaits, children, Function.comp_def]

namespace Folding

open Decompiler.Graph Structure

/-- The node has not become a statement yet. -/
def Fresh (id : NodeId) (state : Folding) : Prop := (state.graph.node id).statement = none

/-- The construct is in the table, and tested at the given node, if anywhere. -/
def Opened (construct : BreakableId) (checkpoint : Option NodeId) (state : Folding) : Prop :=
  construct < state.breakables.size ∧ (state.breakables.getD construct default).checkpoint = checkpoint

/-- The node has become a statement, or a loop is tested at it. -/
def Handled (id : NodeId) (state : Folding) : Prop :=
  (state.graph.node id).statement.isSome ∨ ∃ construct, state.Opened construct (some id)

/-- Only nodes that are done with have become statements, of the arena, and the empty one is there. Nodes know of
constructs of the table that begin, end or are tested there. -/
structure Sound (state : Folding) : Prop where
  settled : state.graph.StatementsDone
  placed : ∀ place id, (state.graph.node place).statement = some id → id < state.structures.size
  empty : state.structures[emptyId]? = some .empty
  active_lt : ∀ id ∈ state.active, id < state.breakables.size
  known : ∀ place, ∀ id ∈ (state.graph.node place).breakables,
    id < state.breakables.size ∧ place ∈ (state.breakables.getD id default).places

/-- The pending statements are new ones, and each fits into the constructs around it. -/
structure Awaits (base : Array Structure) (pending : List Awaited) (state : Folding) : Prop where
  grows : Grows base state.structures (pending.map Awaited.id)
  enclosed : ∀ awaited ∈ pending, Enclosed state.structures state.breakables awaited.around awaited.id

/-- Folding went on inside the same constructs. -/
structure Continues (before after : Folding) : Prop where
  done : ∀ id, (before.graph.node id).visit.isDone → (after.graph.node id).visit.isDone
  noted : ∀ id, (before.graph.node id).statement.isSome → (after.graph.node id).statement.isSome
  sound : before.Sound → after.Sound
  active : after.active = before.active
  arena : ∀ (id : StructureId) (statement : Structure), before.structures[id]? = some statement →
    after.structures[id]? = some statement
  table : Extends before.breakables after.breakables

/-- Every node that was visited to the end meanwhile is handled. -/
structure Proceeds (before after : Folding) : Prop extends Continues before after where
  finished : ∀ id, (after.graph.node id).visit.isDone → (before.graph.node id).visit.isDone ∨ after.Handled id

/-- The arena and the constructs are the same, and no node has come further. -/
structure SameFolding (before after : Folding) : Prop where
  standing : SameStanding before.graph after.graph
  rest : (after.structures, after.breakables, after.active) = (before.structures, before.breakables, before.active)

section States

variable {state before middle after : Folding} {base : Array Structure} {pending : List Awaited} {id : NodeId}

theorem Sound.within (sound : state.Sound) {active : List BreakableId}
    (hActive : ∀ id ∈ active, id < state.breakables.size) : Sound { state with active } :=
  ⟨sound.settled, sound.placed, sound.empty, hActive, sound.known⟩

namespace Continues

theorem trans (first : Continues before middle) (second : Continues middle after) : Continues before after where
  done id := second.done id ∘ first.done id
  noted id := second.noted id ∘ first.noted id
  sound := second.sound ∘ first.sound
  active := second.active.trans first.active
  arena id statement := second.arena id statement ∘ first.arena id statement
  table := first.table.trans second.table

theorem opened {construct : BreakableId} {checkpoint : Option NodeId} (continues : Continues before after)
    (opened : before.Opened construct checkpoint) : after.Opened construct checkpoint :=
  ⟨opened.1.trans_le continues.table.size,
    (continues.table.field Breakable.checkpoint (fun _ => rfl) opened.1).trans opened.2⟩

theorem handled (continues : Continues before after) (handled : before.Handled id) : after.Handled id :=
  handled.imp (continues.noted id) fun ⟨construct, opened⟩ => ⟨construct, continues.opened opened⟩

/-- A node is visited for the last time. -/
theorem finish (state : Folding) (id : NodeId) : Continues state { state with graph := state.graph.finish id } := by
  have hDone (other : NodeId) : state.graph.Done other → (state.graph.finish id).Done other :=
    (Forward.finish state.graph id).done other
  have hStatement (other : NodeId) : ((state.graph.finish id).node other).statement =
      (state.graph.node other).statement := field_finish Node.statement (fun _ _ => rfl) id other
  have hKnown (other : NodeId) : ((state.graph.finish id).node other).breakables =
      (state.graph.node other).breakables := field_finish Node.breakables (fun _ _ => rfl) id other
  refine ⟨hDone, fun other hOther => (hStatement other).symm ▸ hOther, fun sound => ?_, rfl,
    fun _ _ hGet => hGet, .refl _⟩
  refine ⟨fun other hOther => hDone other (sound.settled other (hStatement other ▸ hOther)), fun place id hPlaced => ?_,
    sound.empty, sound.active_lt, fun place id hId => sound.known place id (hKnown place ▸ hId)⟩
  exact sound.placed place id ((hStatement place).symm.trans hPlaced)

end Continues

namespace Proceeds

theorem trans (first : Proceeds before middle) (second : Proceeds middle after) : Proceeds before after where
  toContinues := first.toContinues.trans second.toContinues
  finished id hDone := by
    rcases second.finished id hDone with hMiddle | handled
    · exact (first.finished id hMiddle).imp_right second.handled
    · exact .inr handled

/-- No node comes further, but a construct may come to need a label. -/
theorem of_standing (same : SameStanding before.graph after.graph) (hActive : after.active = before.active)
    (hArena : after.structures = before.structures) (table : Extends before.breakables after.breakables) :
    Proceeds before after where
  done id hDone := (same.isDone id).symm ▸ hDone
  noted id hStatement := (same.statement id).symm ▸ hStatement
  sound sound := by
    refine ⟨fun id hStatement => ?_, fun place id hPlaced => ?_, hArena ▸ sound.empty, fun id hId => ?_,
      fun place id hKnown => ?_⟩
    · exact (same.isDone id).symm ▸ sound.settled id (same.statement id ▸ hStatement)
    · exact hArena ▸ sound.placed place id ((same.statement place).symm.trans hPlaced)
    · exact (sound.active_lt id (hActive ▸ hId)).trans_le table.size
    · obtain ⟨hId, hPlace⟩ := sound.known place id (same.known place ▸ hKnown)
      exact ⟨hId.trans_le table.size, (table.field Breakable.places (fun _ => rfl) hId).symm ▸ hPlace⟩
  active := hActive
  arena _ _ hGet := hArena ▸ hGet
  table := table
  finished id hDone := .inl (same.isDone id ▸ hDone)

theorem refl (state : Folding) : Proceeds state state := .of_standing (.refl _) rfl rfl (.refl _)

theorem push (state : Folding) (statement : Structure) :
    Proceeds state { state with structures := state.structures.push statement } := by
  have hArena : ∀ (id : StructureId) (known : Structure), state.structures[id]? = some known →
      (state.structures.push statement)[id]? = some known := fun id known hGet => by
    obtain ⟨hSize, -⟩ := Array.getElem?_eq_some_iff.mp hGet
    rw [Array.getElem?_push, if_neg (Nat.ne_of_lt hSize), hGet]
  refine ⟨⟨fun _ => id, fun _ => id, fun sound => ?_, rfl, hArena, .refl _⟩, fun _ => .inl⟩
  refine ⟨sound.settled, fun place id hPlaced => ?_, hArena _ _ sound.empty, sound.active_lt, sound.known⟩
  exact (sound.placed place id hPlaced).trans_le (by simp)

/-- A new construct is known where it begins, ends or is tested. -/
theorem opens (state : Folding) (breakable : Breakable) {places : List NodeId} (hPlaces : places = breakable.places) :
    Proceeds state { state with
      graph := places.foldl (tell state.breakables.size) state.graph
      breakables := state.breakables.push breakable } := by
  have hSame := done_tell state.breakables.size places state.graph
  simp only [Prod.mk.injEq] at hSame
  have table := Extends.push state.breakables breakable
  refine ⟨⟨fun id hDone => (hSame id).2.symm ▸ hDone, fun id hStatement => (hSame id).1.symm ▸ hStatement,
    fun sound => ?_, rfl, fun _ _ => id, table⟩, fun id hDone => .inl ((hSame id).2 ▸ hDone)⟩
  refine ⟨fun id hStatement => ?_, fun place id hPlaced => ?_, sound.empty, fun id hId => ?_, fun place id hKnown => ?_⟩
  · exact (hSame id).2 ▸ sound.settled id ((hSame id).1 ▸ hStatement)
  · exact sound.placed place id ((hSame place).1.symm.trans hPlaced)
  · exact (sound.active_lt id hId).trans_le table.size
  · rcases mem_breakables_tell hKnown with hBefore | ⟨rfl, hPlace⟩
    · obtain ⟨hId, hPlace⟩ := sound.known place id hBefore
      exact ⟨hId.trans_le table.size, (table.field Breakable.places (fun _ => rfl) hId).symm ▸ hPlace⟩
    · simpa [Array.getD_eq_getD_getElem?] using hPlaces ▸ hPlace

/-- A node that was visited to the end becomes a statement. -/
theorem note (hDone : (state.graph.node id).visit.isDone) {statement : StructureId}
    (hPlaced : statement < state.structures.size) :
    Proceeds state { state with graph := state.graph.note id statement } := by
  have hVisit := field_note Node.visit (fun _ _ => rfl) state.graph id statement
  have hKnown := field_note Node.breakables (fun _ _ => rfl) state.graph id statement
  have hStatement := statement_note state.graph id statement
  refine ⟨⟨fun other hOther => (hVisit other).symm ▸ hOther, fun other hOther => ?_, fun sound => ?_, rfl,
    fun _ _ hGet => hGet, .refl _⟩, fun other hOther => .inl (hVisit other ▸ hOther)⟩
  · rcases hStatement other with hSame | ⟨-, hNew⟩
    · exact hSame.symm ▸ hOther
    · exact (congrArg Option.isSome hNew).trans rfl
  · refine ⟨fun other hOther => ?_, fun place other hOther => ?_, sound.empty, sound.active_lt,
      fun place other hOther => sound.known place other (hKnown place ▸ hOther)⟩
    · rw [hVisit]
      rcases hStatement other with hSame | ⟨rfl, -⟩
      · exact sound.settled other (hSame ▸ hOther)
      · exact hDone
    · rcases hStatement place with hSame | ⟨-, hNew⟩
      · exact sound.placed place other (hSame.symm.trans hOther)
      · exact Option.some.inj (hNew.symm.trans hOther) ▸ hPlaced

end Proceeds

theorem Awaits.proceed (awaits : before.Awaits base pending) (proceeds : Proceeds before after)
    (hArena : after.structures = before.structures) : after.Awaits base pending :=
  ⟨hArena ▸ awaits.grows, fun awaited hAwaited => (awaits.enclosed awaited hAwaited).mono proceeds.arena proceeds.table⟩

namespace SameFolding

theorem refl (state : Folding) : SameFolding state state := ⟨.refl _, rfl⟩

theorem trans (first : SameFolding before middle) (second : SameFolding middle after) : SameFolding before after :=
  ⟨first.standing.trans second.standing, second.rest.trans first.rest⟩

theorem structures (same : SameFolding before after) : after.structures = before.structures :=
  congrArg (·.1) same.rest

theorem breakables (same : SameFolding before after) : after.breakables = before.breakables :=
  congrArg (·.2.1) same.rest

theorem active (same : SameFolding before after) : after.active = before.active := congrArg (·.2.2) same.rest

theorem proceeds (same : SameFolding before after) : Proceeds before after :=
  .of_standing same.standing same.active same.structures (same.breakables ▸ .refl _)

theorem fresh {id : NodeId} (same : SameFolding before after) (fresh : before.Fresh id) : after.Fresh id :=
  (same.standing.statement id).trans fresh

end SameFolding

end States

variable {α β : Type}

theorem run_get_bind (next : Folding → FoldingM β) (setting : Setting) (state : Folding) :
    ((get >>= next) setting).run.run state = (next state setting).run.run state := rfl

theorem run_node_bind (id : NodeId) (next : Node → FoldingM β) (setting : Setting) (state : Folding) :
    ((Folding.node id >>= next) setting).run.run state = (next (state.graph.node id) setting).run.run state := rfl

theorem run_breakable_bind (id : BreakableId) (next : Breakable → FoldingM β) (setting : Setting) (state : Folding) :
    ((Folding.breakable id >>= next) setting).run.run state =
      (next (state.breakables.getD id default) setting).run.run state := rfl

/-! ### Steps that build nothing -/

/-- A step leaves the arena and the constructs alone, and no node comes further. -/
def Silent (action : FoldingM α) : Prop :=
  ∀ setting state value after, (action setting).run.run state = (.ok value, after) → SameFolding state after

namespace Silent

variable {action : FoldingM α} {next : α → FoldingM β}

theorem pure (value : α) : Silent (Pure.pure value) := fun _ state _ _ hRun => by
  cases hRun
  exact .refl _

theorem bind (first : Silent action) (second : ∀ value, Silent (next value)) : Silent (action >>= next) :=
  fun setting state _ _ hRun => by
    obtain ⟨value, middle, hFirst, hSecond⟩ := run_bind_ok hRun
    exact (first setting state value middle hFirst).trans (second value setting middle _ _ hSecond)

theorem map {convert : α → β} (silent : Silent action) : Silent (convert <$> action) := by
  rw [map_eq_pure_bind]
  exact silent.bind fun value => .pure _

theorem get : Silent (MonadState.get : FoldingM Folding) := fun _ state _ _ hRun => by
  cases hRun
  exact .refl _

theorem read : Silent (MonadReader.read : FoldingM Setting) := fun _ state _ _ hRun => by
  cases hRun
  exact .refl _

theorem change {change : Folding → Folding} (hChange : ∀ state, SameFolding state (change state)) :
    Silent (modify change : FoldingM Unit) := fun _ state _ _ hRun => by
  cases hRun
  exact hChange state

theorem changeGraph {change : Graph → Graph} (hChange : ∀ graph, SameStanding graph (change graph)) :
    Silent (Folding.changeGraph change) := Silent.change fun state => ⟨hChange state.graph, rfl⟩

theorem mapStack (id : NodeId) (change : List Operand → List Operand) :
    Silent (Folding.changeGraph (·.mapStack id change)) :=
  changeGraph fun graph => .of_sameProgress (.mapStack graph id change)

/-- A step of the graph. -/
theorem graph {step : GraphM α} (hStep : Idle step) : Silent (step : FoldingM α) := fun _ state _ _ hRun => by
  cases hRun
  exact ⟨.of_sameProgress (hStep state.graph), rfl⟩

theorem ask {query : GraphM α} (hQuery : OnlyAsks query) : Silent (query : FoldingM α) := .graph (.ask hQuery)

/-- A step of the supply. -/
theorem supply (step : SupplyM α) : Silent (step : FoldingM α) := fun _ state _ _ hRun => by
  cases hRun
  exact ⟨fun _ => rfl, rfl⟩

theorem fail (fault : StructuralFault) : Silent (Folding.fail fault : FoldingM α) := fun _ state _ _ hRun => by
  cases hRun

theorem node (id : NodeId) : Silent (Folding.node id) := get.bind fun _ => .pure _

theorem currentGraph : Silent Folding.currentGraph := get.bind fun _ => .pure _

theorem breakable (id : BreakableId) : Silent (Folding.breakable id) := get.bind fun _ => .pure _

end Silent

/-! ### Steps that build -/

variable {outer : List BreakableId} {start : Folding → Prop} {pending : List Awaited}

/-- From pending statements a step inside the given constructs leads to those that its result names, if the state
fulfils the condition at its start. -/
def Builds (outer : List BreakableId) (start : Folding → Prop) (pending : List Awaited) (action : FoldingM α)
    (named : α → List Awaited) : Prop :=
  ∀ setting (state : Folding) base, state.Sound → state.active = outer → start state → state.Awaits base pending →
    ∀ value after, (action setting).run.run state = (.ok value, after) →
      Proceeds state after ∧ after.Awaits base (named value)

/-- No condition on the state. -/
def Always (_ : Folding) : Prop := True

/-- If the node was visited to the end when the step is over, it is handled. -/
def Handles (id : NodeId) (action : FoldingM α) : Prop :=
  ∀ setting (state : Folding) value after, (action setting).run.run state = (.ok value, after) →
    (after.graph.node id).visit.isDone → after.Handled id

theorem Handles.after {id : NodeId} (action : FoldingM α) {next : α → FoldingM β}
    (second : ∀ value, Handles id (next value)) : Handles id (action >>= next) := by
  intro setting state _ _ hRun
  obtain ⟨value, middle, -, hSecond⟩ := run_bind_ok hRun
  exact second value setting middle _ _ hSecond

namespace Builds

variable {action : FoldingM α} {next : α → FoldingM β} {named : α → List Awaited} {final : β → List Awaited}

/-- A step before one that relies on what is known then. -/
theorem knowing {later : α → Folding → Prop} (first : Builds outer start pending action named)
    (hLater : ∀ setting (before : Folding) value after, start before →
      (action setting).run.run before = (.ok value, after) → Proceeds before after → later value after)
    (second : ∀ value, Builds outer (later value) (named value) (next value) final) :
    Builds outer start pending (action >>= next) final := by
  intro setting state base sound hOuter hStart awaits _ _ hRun
  obtain ⟨value, middle, hFirst, hSecond⟩ := run_bind_ok hRun
  obtain ⟨proceeds, hAwaits⟩ := first setting state base sound hOuter hStart awaits value middle hFirst
  obtain ⟨proceeds', hAwaits'⟩ := second value setting middle base (proceeds.sound sound)
    (proceeds.active.trans hOuter) (hLater setting state value middle hStart hFirst proceeds) hAwaits _ _ hSecond
  exact ⟨proceeds.trans proceeds', hAwaits'⟩

theorem bind (first : Builds outer start pending action named)
    (second : ∀ value, Builds outer Always (named value) (next value) final) :
    Builds outer start pending (action >>= next) final :=
  first.knowing (fun _ _ _ _ _ _ _ => trivial) second

/-- Statements that the step does not know of stay pending. -/
theorem frame (builds : Builds outer start [] action named) (pending : List Awaited) :
    Builds outer start pending action fun value => pending ++ named value := by
  intro setting state base sound hOuter hStart awaits value after hRun
  obtain ⟨proceeds, hAwaits⟩ :=
    builds setting state state.structures sound hOuter hStart ⟨.refl _, by simp⟩ value after hRun
  refine ⟨proceeds, ?_, fun awaited hAwaited => ?_⟩
  · rw [List.map_append]
    exact awaits.grows.trans hAwaits.grows
  · rcases List.mem_append.mp hAwaited with hPending | hNamed
    · exact (awaits.enclosed awaited hPending).mono proceeds.arena proceeds.table
    · exact hAwaits.enclosed awaited hNamed

/-- What a step builds from nothing joins the pending statements. -/
theorem andThen (first : Builds outer start [] action named)
    (second : ∀ value, Builds outer Always (pending ++ named value) (next value) final) :
    Builds outer start pending (action >>= next) final := (first.frame pending).bind second

/-- The condition may be strengthened. -/
theorem strengthen {weaker : Folding → Prop} (builds : Builds outer weaker pending action named)
    (hStart : ∀ state : Folding, state.Sound → start state → weaker state) : Builds outer start pending action named :=
  fun setting state base sound hOuter hBegin => builds setting state base sound hOuter (hStart _ sound hBegin)

theorem cases_on {other : Folding → Prop} (first : Builds outer start pending action named)
    (second : Builds outer other pending action named) :
    Builds outer (fun state => start state ∨ other state) pending action named :=
  fun setting state base sound hOuter hStart => hStart.elim (first setting state base sound hOuter)
    (second setting state base sound hOuter)

/-! #### Steps before others -/

/-- A step that makes no statement, before one that relies on what it achieves. -/
theorem proceed {later : α → Folding → Prop}
    (hFirst : ∀ setting (state : Folding) value after, start state →
      (action setting).run.run state = (.ok value, after) →
        Proceeds state after ∧ after.structures = state.structures ∧ later value after)
    (second : ∀ value, Builds outer (later value) pending (next value) final) :
    Builds outer start pending (action >>= next) final := by
  have first : Builds outer start pending action fun _ => pending := by
    intro setting state base sound hOuter hStart awaits value middle hRun
    obtain ⟨proceeds, hArena, -⟩ := hFirst setting state value middle hStart hRun
    exact ⟨proceeds, awaits.proceed proceeds hArena⟩
  refine first.knowing (fun setting before value after hStart hRun _ => ?_) second
  exact (hFirst setting before value after hStart hRun).2.2

/-- A step that builds nothing before one that builds. -/
theorem silently (first : Silent action)
    (hStart : ∀ before after, SameFolding before after → start before → start after)
    (second : ∀ value, Builds outer start pending (next value) final) :
    Builds outer start pending (action >>= next) final :=
  proceed (fun setting state value after hBegin hRun => by
    have same := first setting state value after hRun
    exact ⟨same.proceeds, same.structures, hStart _ _ same hBegin⟩) second

/-- A step that has nothing to do with nodes, statements and constructs. -/
theorem skip (hSkip : ∀ setting state value after, (action setting).run.run state = (.ok value, after) →
      ∃ trace, after = { state with trace })
    (hStart : ∀ (state : Folding) trace, start state → start { state with trace })
    (second : ∀ value, Builds outer start pending (next value) final) :
    Builds outer start pending (action >>= next) final :=
  proceed (fun setting state value after hBegin hRun => by
    obtain ⟨trace, rfl⟩ := hSkip setting state value after hRun
    exact ⟨.of_standing (.refl _) rfl rfl (.refl _), rfl, hStart _ _ hBegin⟩) second

/-- What is known of a construct is known after a step. -/
theorem keeping {construct : BreakableId} {checkpoint : Option NodeId}
    (first : Builds outer (Opened construct checkpoint) pending action named)
    (second : ∀ value, Builds outer (Opened construct checkpoint) (named value) (next value) final) :
    Builds outer (Opened construct checkpoint) pending (action >>= next) final :=
  first.knowing (fun _ _ _ _ opened _ proceeds => proceeds.opened opened) second

/-- A step that may know the node that it looks at. -/
theorem node {next : Node → FoldingM β} (id : NodeId)
    (second : ∀ node, Builds outer (fun state => start state ∧ state.graph.node id = node) pending (next node) final) :
    Builds outer start pending (Folding.node id >>= next) final :=
  fun setting state base sound hOuter hStart awaits _ _ hRun =>
    second _ setting state base sound hOuter ⟨hStart, rfl⟩ awaits _ _ (run_node_bind id next setting state ▸ hRun)

/-- A step that may know the construct that it looks up. -/
theorem breakable {next : Breakable → FoldingM β} (id : BreakableId)
    (second : ∀ breakable, Builds outer (fun state => start state ∧ state.breakables.getD id default = breakable)
      pending (next breakable) final) :
    Builds outer start pending (Folding.breakable id >>= next) final :=
  fun setting state base sound hOuter hStart awaits _ _ hRun =>
    second _ setting state base sound hOuter ⟨hStart, rfl⟩ awaits _ _ (run_breakable_bind id next setting state ▸ hRun)

/-- A step that begins with another state than it is given. -/
theorem getSet {change : Folding → Folding} {next : Folding → FoldingM β}
    (hChange : ∀ state, SameFolding state (change state))
    (second : ∀ state, Builds outer Always pending (next state) final) :
    Builds outer start pending (do let state ← get; set (change state); next state) final :=
  fun setting state base sound hOuter _ awaits _ _ hRun => by
    obtain ⟨_, _, hFirst, hRest⟩ := run_bind_ok hRun
    cases hFirst
    obtain ⟨_, _, hFirst, hSecond⟩ := run_bind_ok hRest
    cases hFirst
    have same := hChange state
    obtain ⟨proceeds, hAwaits⟩ := second state setting (change state) base (same.proceeds.sound sound)
      (same.active.trans hOuter) trivial (awaits.proceed same.proceeds same.structures) _ _ hSecond
    exact ⟨same.proceeds.trans proceeds, hAwaits⟩

/-! #### Steps with results -/

theorem of_silent (silent : Silent action) : Builds outer start pending action fun _ => pending :=
  fun setting state _ _ _ _ awaits value after hRun =>
    have same := silent setting state value after hRun
    ⟨same.proceeds, awaits.proceed same.proceeds same.structures⟩

/-- The result names what is pending. -/
theorem pure {value : α} (hNamed : named value = pending) : Builds outer start pending (Pure.pure value) named :=
  fun _ state _ _ _ _ awaits _ _ hRun => by
    cases hRun
    exact ⟨.refl _, hNamed ▸ awaits⟩

/-- A step that fails has no result. -/
theorem fail (fault : StructuralFault) : Builds outer start pending (Folding.fail fault) named := by
  intro _ _ _ _ _ _ _ _ _ hRun
  cases hRun

/-- The empty statement is always there. -/
theorem empty : Builds outer start [] (Pure.pure emptyId : FoldingM StructureId) (here outer) := by
  intro _ state base sound hOuter _ awaits _ _ hRun
  cases hRun
  refine ⟨.refl _, by simpa [here] using awaits.grows.trans (.empty _), fun awaited hAwaited => ?_⟩
  obtain rfl := List.mem_singleton.mp hAwaited
  exact .intro sound.empty (hOuter ▸ sound.active_lt) trivial (by simp [nested]) (by simp [follow?])

/-- A new statement names what was pending, inside constructs of the table. -/
theorem push_within {around : List BreakableId} {statement : Structure} (hNames : statement.awaits around = pending)
    (hAround : ∀ (state : Folding) base, state.Sound → state.active = outer → start state → state.Awaits base pending →
      (∀ id ∈ around, id < state.breakables.size) ∧ statement.Fits state.breakables around) :
    Builds outer start pending (Folding.push statement) (here around) := by
  intro _ state base sound hOuter hStart awaits _ _ hRun
  cases hRun
  obtain ⟨hTable, fits⟩ := hAround state base sound hOuter hStart awaits
  subst hNames
  have proceeds := Proceeds.push state statement
  have hChild : ∀ awaited ∈ statement.awaits around,
      Enclosed (state.structures.push statement) state.breakables awaited.around awaited.id := fun awaited hAwaited =>
    (awaits.enclosed awaited hAwaited).mono proceeds.arena proceeds.table
  refine ⟨proceeds, ?_, fun awaited hAwaited => ?_⟩
  · exact (statement.map_id_awaits around ▸ awaits.grows).push
  · obtain rfl := List.mem_singleton.mp hAwaited
    refine .intro Array.getElem?_push_size hTable fits (fun child hNested => ?_) fun child hFollow => ?_
    · exact hChild ⟨_, child⟩ (List.mem_append_left _ (List.mem_map_of_mem hNested))
    · exact hChild ⟨_, child⟩ (List.mem_append_right _ (List.mem_map_of_mem (Option.mem_toList.mpr hFollow)))

/-- A new statement names what was pending. -/
theorem push {statement : Structure} (hNames : statement.awaits outer = pending)
    (hFits : ∀ table, statement.Fits table outer) :
    Builds outer start pending (Folding.push statement) (here outer) :=
  push_within hNames fun state _ sound hOuter _ _ => ⟨hOuter ▸ sound.active_lt, hFits state.breakables⟩

/-- The statements of a node stand where those that follow stand. -/
theorem fragment (id : NodeId) (around : List BreakableId) (follow : StructureId) :
    Builds outer start (here around follow) (Folding.fragment id follow) (here around) :=
  push_within rfl fun _ _ _ _ _ awaits =>
    ⟨(awaits.enclosed ⟨around, follow⟩ (List.mem_singleton_self _)).active_lt, trivial⟩

/-! #### Constructs -/

/-- The step after that knows that the construct is in the table. -/
theorem opens {kind : BreakableKind} {entrance first : NodeId} {exit checkpoint : Option NodeId}
    {next : BreakableId → FoldingM β}
    (second : ∀ id, Builds outer (Opened id checkpoint) pending (next id) final) :
    Builds outer start pending (openBreakable kind entrance first exit checkpoint >>= next) final :=
  proceed (fun _ state _ _ _ hRun => by
    cases hRun
    exact ⟨.opens state _ rfl, rfl, by simp, by simp [Array.getD_eq_getD_getElem?]⟩) second

/-- What is built inside a construct is pending after it. -/
theorem inside (id : BreakableId) {checkpoint : Option NodeId}
    (builds : Builds (id :: outer) Always [] action named) :
    Builds outer (Opened id checkpoint) [] (Folding.inside id action) named := by
  intro setting state base sound hOuter opened awaits _ _ hRun
  obtain ⟨_, _, hFirst, hRun⟩ := run_bind_ok hRun
  cases hFirst
  obtain ⟨value, left, hBody, hRun⟩ := run_bind_ok hRun
  obtain ⟨_, _, hLast, hRun⟩ := run_bind_ok hRun
  cases hLast
  cases hRun
  have hEntered : Sound { state with active := id :: state.active } :=
    sound.within fun other hOther => (List.mem_cons.mp hOther).elim (· ▸ opened.1) (sound.active_lt other)
  obtain ⟨proceeds, hAwaits⟩ := builds setting { state with active := id :: state.active } base hEntered
    (congrArg (id :: ·) hOuter) trivial ⟨awaits.grows, awaits.enclosed⟩ _ left hBody
  refine ⟨⟨⟨proceeds.done, proceeds.noted, fun _ => ?_, congrArg (List.drop 1) proceeds.active, proceeds.arena,
    proceeds.table⟩, proceeds.finished⟩, hAwaits.grows, hAwaits.enclosed⟩
  have hLeft := proceeds.sound hEntered
  exact hLeft.within fun other hOther => hLeft.active_lt other (List.mem_of_mem_drop hOther)

/-- The node where a loop is tested is visited for the last time. -/
theorem finish {construct : BreakableId} {id : NodeId} : Builds outer (Opened construct (some id)) pending
    (Folding.changeGraph (·.finish id)) fun _ => pending := by
  intro _ state base sound hOuter opened awaits _ _ hRun
  have continues := Continues.finish state id
  have proceeds : Proceeds state { state with graph := state.graph.finish id } := by
    refine ⟨continues, fun other hDone => ?_⟩
    rcases eq_or_done_of_finish hDone with rfl | hBefore
    · exact .inr (.inr ⟨construct, continues.opened opened⟩)
    · exact .inl hBefore
  cases hRun
  exact ⟨proceeds, awaits.proceed proceeds rfl⟩

/-- A node is visited for the last time, before a step that sees to it. -/
theorem enter {later : Graph → Prop} {next : Unit → FoldingM β} {id : NodeId}
    (hLater : ∀ graph : Graph, later (graph.finish id))
    (handles : Handles id (next ()))
    (second : Builds outer (fun state => later state.graph) pending (next ()) final) :
    Builds outer start pending (Folding.changeGraph (·.finish id) >>= next) final := by
  intro setting state base sound hOuter _ awaits value after hRun
  obtain ⟨_, middle, hFirst, hSecond⟩ := run_bind_ok hRun
  have continues := Continues.finish state id
  cases hFirst
  obtain ⟨proceeds, hAwaits⟩ := second setting _ base (continues.sound sound) hOuter (hLater state.graph)
    ⟨awaits.grows, awaits.enclosed⟩ value after hSecond
  refine ⟨⟨continues.trans proceeds.toContinues, fun other hDone => ?_⟩, hAwaits⟩
  rcases proceeds.finished other hDone with hEntered | handled
  · rcases eq_or_done_of_finish hEntered with rfl | hBefore
    · exact .inr (handles setting _ value after hSecond hDone)
    · exact .inl hBefore
  · exact .inr handled

/-! #### Several steps -/

/-- What the result names may be told in other words. -/
theorem map {convert : α → β} (builds : Builds outer start pending action named)
    (hNamed : ∀ value, final (convert value) = named value) :
    Builds outer start pending (convert <$> action) final := by
  rw [map_eq_pure_bind]
  exact builds.bind fun value => .pure (hNamed value)

theorem mapM {γ : Type} {step : γ → FoldingM α} {body : α → StructureId} (items : List γ)
    (hStep : ∀ item, Builds outer Always [] (step item) fun value => here outer (body value)) :
    Builds outer start [] (items.mapM step) fun values => (values.map body).map (Awaited.mk outer) := by
  induction items generalizing start with
  | nil => exact List.mapM_nil (m := FoldingM) ▸ .pure rfl
  | cons item rest ih =>
      rw [List.mapM_cons]
      refine ((hStep item).strengthen fun _ _ _ => trivial).bind fun first => ?_
      exact ih.andThen fun others => .pure rfl

theorem foldlM {γ : Type} {step : StructureId → γ → FoldingM StructureId} (items : List γ)
    (hStep : ∀ id item, Builds outer Always (here outer id) (step id item) (here outer)) (id : StructureId) :
    Builds outer Always (here outer id) (items.foldlM step id) (here outer) := by
  induction items generalizing id with
  | nil => exact .pure rfl
  | cons item rest ih =>
      rw [List.foldlM_cons]
      exact (hStep id item).bind ih

end Builds

end Folding

end Decompiler
