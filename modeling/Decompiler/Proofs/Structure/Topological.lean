import Decompiler.Proofs.Execution.Idle
import Decompiler.Proofs.Structure.Ordered

/-!
Whole runs of folding. Every node is folded at most once, when precisely the visits that it requires have come, and
the nodes of a graph that is safe to fold are folded within a bound on the depth.
-/

namespace Decompiler

open Decompiler.Graph

namespace Folding

variable {watch : Watch} {work : Nat} {id : NodeId}
  {fold fold' : NodeId → FoldingM StructureId} {state : Folding} {graph : Graph}

/-! ### One node -/

/-- The state when a node is entered. -/
def enter (state : Folding) (id : NodeId) : Folding :=
  { state with
    graph := state.graph.finish id
    trace := .node .folded (state.graph.finish id) id :: state.trace }

theorem run_foldNode (hStatement : (state.graph.node id).statement = none) (setting : Setting) (trace : Bool) :
    (foldNode fold id (setting.recording trace)).run.run (state.recording trace) =
      (foldEntered fold id (setting.recording trace)).run.run ((state.enter id).recording trace) := by
  rw [foldNode, run_node_bind, show (state.recording trace).graph = state.graph from rfl, hStatement]
  cases trace <;> rfl

/-- The record of a node that is entered when it is due is right. -/
theorem Recorded.enter (recorded : Recorded watch state) (due : state.graph.Due watch work id) :
    Recorded watch (state.enter id) := by
  obtain ⟨hExact, hEdges, hNodup, hDone, hNodes, hServed⟩ := recorded
  have hFolded : (TraceEntry.node .folded (state.graph.finish id) id).folded? =
      if id < state.graph.nodes.size then some id else none := by
    rw [TraceEntry.folded?, capacity, Graph.finish, size_update]
  have hVisits (hOther : id ≠ watch.entry) : ((state.graph.finish id).node id).VisitsExact :=
    (due.exact hOther).congr (arrivals_finish id id) (field_finish Node.forwardIncoming (fun _ _ => rfl) id id)
      (field_finish Node.additionalCalls (fun _ _ => rfl) id id)
  refine ⟨fun graph other hOther hEntry => ?_, fun hSafe graph other hOther => ?_, ?_, fun other hOther => ?_,
    fun hSafe => ?_, fun hSafe other hOther hEntry => ?_⟩
  · rcases List.mem_cons.mp hOther with hNew | hOld
    · cases hNew
      exact hVisits hEntry
    · exact hExact graph other hOld hEntry
  · rcases List.mem_cons.mp hOther with hNew | hOld
    · cases hNew
      exact fun back hBack => ((due.budget hSafe).edges_finish id id hBack).1
    · exact hEdges hSafe graph other hOld
  · rw [Folding.enter, List.filterMap_cons, hFolded]
    split
    · exact hNodup
    · rename_i hInside
      split at hInside <;> cases hInside
      exact List.nodup_cons.mpr ⟨fun hOld => due.unfinished (hDone id hOld), hNodup⟩
  · rw [Folding.enter, List.filterMap_cons, hFolded] at hOther
    split at hOther
    · exact (Forward.finish state.graph id).done other (hDone other hOther)
    · rename_i hInside
      split at hInside <;> cases hInside
      rcases List.mem_cons.mp hOther with rfl | hOld
      · exact done_finish_self ‹_›
      · exact (Forward.finish state.graph id).done other (hDone other hOld)
  · exact (size_update state.graph id _).symm ▸ hNodes hSafe
  · rw [Folding.enter, List.filterMap_cons, hFolded] at hOther
    split at hOther
    · exact (hServed hSafe other hOther hEntry).finish id
    · rename_i hInside
      split at hInside <;> cases hInside
      rcases List.mem_cons.mp hOther with rfl | hOld
      · exact ⟨done_finish_self ‹_›, hVisits hEntry⟩
      · exact (hServed hSafe other hOld hEntry).finish id

/-- A node that is due is entered. Nothing happens if it is a statement already. -/
theorem agrees_foldNode {start finish : Graph → Prop} (later : Graph → Prop)
    (hDue : ∀ graph, start graph → graph.Due watch work id)
    (hStatement : ∀ graph, start graph → finish graph) (hLater : ∀ graph, start graph → later (graph.finish id))
    (hEntered : Agrees watch later (foldEntered fold id) (foldEntered fold' id) fun _ => finish) :
    Agrees watch start (foldNode fold id) (foldNode fold' id) fun _ => finish := by
  intro setting state recorded hStart
  cases hNone : (state.graph.node id).statement with
  | some statement =>
      refine ⟨.ok statement, state, ?_, ?_, recorded, .refl _, fun _ _ => hStatement _ hStart⟩
      · rw [foldNode, run_node_bind, hNone]
        rfl
      · rw [foldNode, run_node_bind, show (state.recording watch.trace).graph = state.graph from rfl, hNone]
        rfl
  | none =>
      obtain ⟨outcome, after, hRun, hOther, recorded', forward, hFinish⟩ :=
        hEntered setting (state.enter id) (recorded.enter (hDue _ hStart)) (hLater _ hStart)
      have hFirst : (foldNode fold id (setting.recording true)).run.run state =
          (foldEntered fold id (setting.recording true)).run.run (state.enter id) := run_foldNode hNone setting true
      refine ⟨outcome, after, hFirst.trans hRun, (run_foldNode hNone setting watch.trace).trans hOther, recorded', ?_,
        hFinish⟩
      exact (Forward.finish state.graph id).trans forward

/-- Folding what is no node makes an empty fragment. -/
theorem run_foldEntered_outside (setting : Setting) (state : Folding) (hOutside : state.graph.nodes.size ≤ id) :
    (foldEntered fold id setting).run.run state = (.ok state.structures.size,
      { state with
        structures := state.structures.push (.fragment id Structure.emptyId)
        graph := state.graph.note id state.structures.size }) := by
  rw [foldEntered, run_node_bind, node_of_size_le hOutside]
  dsimp only
  rw [run_bind, run_foldBody_outside hOutside]
  rfl

theorem agrees_foldNode_outside (fold fold' : NodeId → FoldingM StructureId) (id : NodeId) :
    Agrees watch (fun graph => graph.Due watch work id ∧ graph.nodes.size ≤ id)
      (foldNode fold id) (foldNode fold' id) fun _ => InOrder watch work := by
  refine agrees_foldNode (fun graph => graph.InOrder watch work ∧ graph.nodes.size ≤ id)
    (fun _ hStart => hStart.1) (fun _ hStart => hStart.1.toInOrder) (fun graph hStart => ?_) ?_
  · exact ⟨hStart.1.toInOrder.finish id, (size_update graph id _).symm ▸ hStart.2⟩
  · intro setting state recorded hStart
    have same : SameFlow state.graph (state.graph.note id state.structures.size) := .update _ _ _ fun _ => rfl
    refine ⟨_, _, run_foldEntered_outside _ state hStart.2,
      run_foldEntered_outside _ (state.recording watch.trace) hStart.2, ?_, .of_sameFlow same,
      fun _ _ => hStart.1.sameFlow same⟩
    exact recorded.sameFlow rfl same

theorem agrees_foldEntered (orderly : Orderly watch work fold fold') (id : NodeId) :
    Agrees watch (Opening watch work id) (foldEntered fold id) (foldEntered fold' id)
      fun _ => InOrder watch work := by
  have stable := stable_working watch work id
  refine .after (.node id) (stable_opening id) fun node => ?_
  have hFinish : ∀ statement, Agrees watch (Working watch work id) (do
      changeGraph (·.update id fun node => { node with statement := some statement })
      return statement) (do
      changeGraph (·.update id fun node => { node with statement := some statement })
      return statement) fun _ => InOrder watch work := fun statement =>
    .after (.changeGraph fun graph => .update graph id _ fun _ => rfl) stable fun _ => .pure fun _ hGraph => hGraph.1
  dsimp only
  split
  · exact (agrees_foldBody orderly id).bind hFinish
  · exact (agrees_foldRegions orderly id _).bind hFinish

/-- A node takes one off the work that is left for the nodes that are folded inside it. -/
theorem agrees_foldNode_inside (orderly : Orderly watch work fold fold') (id : NodeId) :
    Agrees watch (fun graph => graph.Due watch (work + 1) id ∧ id < graph.nodes.size)
      (foldNode fold id) (foldNode fold' id) fun _ => InOrder watch (work + 1) :=
  agrees_foldNode _ (fun _ hStart => hStart.1) (fun _ hStart => hStart.1.toInOrder)
    (fun _ hStart => hStart.1.finish hStart.2)
    ((agrees_foldEntered orderly id).weaken fun _ _ inOrder => inOrder.mono)

theorem Agrees.cases_on {α : Type} {start first second : Graph → Prop} {step other : FoldingM α}
    {finish : α → Graph → Prop} (hStart : ∀ graph, start graph → first graph ∨ second graph)
    (hFirst : Agrees watch first step other finish)
    (hSecond : Agrees watch second step other finish) :
    Agrees watch start step other finish := fun setting state recorded hState =>
  (hStart _ hState).elim (hFirst setting state recorded) (hSecond setting state recorded)

theorem orderly_foldNode (orderly : Orderly watch work fold fold') :
    Orderly watch (work + 1) (foldNode fold) (foldNode fold') := fun id =>
  .cases_on (fun graph due => (Nat.lt_or_ge id graph.nodes.size).imp (⟨due, ·⟩) (⟨due, ·⟩))
    (agrees_foldNode_inside orderly id) (agrees_foldNode_outside fold fold' id)

/-! ### Any depth -/

/-- Folding agrees with itself, if as much work is left as it may go deep. -/
theorem orderly_foldWithin (watch : Watch) (depth : Nat) :
    Orderly watch depth (foldWithin depth) (foldWithin depth) := by
  induction depth with
  | zero => exact fun id => .pure fun _ due => due.toInOrder
  | succ depth ih => exact orderly_foldNode ih

/-- Deeper than the work that is left, the depth does not matter. -/
theorem orderly_deeper (hSafe : watch.safe) {depth depth' : Nat} (hDepth : work < depth) (hDepth' : work < depth') :
    Orderly watch work (foldWithin depth) (foldWithin depth') := by
  induction work generalizing depth depth' with
  | zero =>
      obtain ⟨depth, rfl⟩ := Nat.exists_eq_succ_of_ne_zero hDepth.ne'
      obtain ⟨depth', rfl⟩ := Nat.exists_eq_succ_of_ne_zero hDepth'.ne'
      refine fun id => (agrees_foldNode_outside _ _ id).strengthen fun graph due => ⟨due, ?_⟩
      -- A node that can be folded would be work that is left.
      by_contra hInside
      have hOpen := Finset.card_pos.mpr ⟨id, mem_unfinished.mpr ⟨Nat.not_le.mp hInside, due.unfinished⟩⟩
      have hWork := (due.budget hSafe).work
      omega
  | succ work ih =>
      obtain ⟨depth, rfl⟩ := Nat.exists_eq_succ_of_ne_zero (Nat.ne_zero_of_lt hDepth)
      obtain ⟨depth', rfl⟩ := Nat.exists_eq_succ_of_ne_zero (Nat.ne_zero_of_lt hDepth')
      exact orderly_foldNode (ih (Nat.lt_of_succ_lt_succ hDepth) (Nat.lt_of_succ_lt_succ hDepth'))

/-! ### Whole runs -/

theorem InOrder.of_unvisited (hUnvisited : ∀ id, (graph.node id).visit = .unvisited)
    (hBudget : watch.safe → graph.Budget work watch.nodes) : graph.Due watch work watch.entry where
  expects other _ := .of_unvisited (hUnvisited other)
  visitors other source hSource := by
    rw [hUnvisited] at hSource
    exact absurd hSource List.not_mem_nil
  budget := hBudget
  unfinished done := by
    rw [Done, hUnvisited] at done
    cases done
  exact hOther := absurd rfl hOther

theorem Recorded.initial (body : MethodBody) (hNodes : watch.safe → body.graph.nodes.size ≤ watch.nodes) :
    Recorded watch { toMethodBody := body } where
  exact _ _ hRecord := absurd hRecord List.not_mem_nil
  edges _ _ _ hRecord := absurd hRecord List.not_mem_nil
  nodup := List.nodup_nil
  done _ hRecord := absurd hRecord List.not_mem_nil
  nodes := hNodes
  served _ _ hRecord := absurd hRecord List.not_mem_nil

theorem recording_initial (body : MethodBody) (trace : Bool) :
    ({ toMethodBody := body } : Folding).recording trace = { toMethodBody := body } := by
  cases trace <;> rfl

/-- What is left to do when the nodes are folded. -/
def foldRest (root : StructureId) : FoldingM StructureTree := do
  modify fun state => { state with structures := omitContinues state.structures }
  let state ← get
  match state.graph.unstructured with
  | [] => return { structures := state.structures, breakables := state.breakables, root }
  | lost => fail (.lost (lost.map fun id => (state.graph.node id).name))

theorem run_foldGraph {entry : NodeId} (hEntry : state.graph.entry? = some entry) (setting : Setting) :
    (foldGraph setting).run.run state =
      ((foldWithin (4 * state.graph.searchBound) entry >>= foldRest) setting).run.run state := by
  rw [foldGraph, run_currentGraph_bind, hEntry]
  rfl

theorem agrees_foldRest (root : StructureId) :
    Agrees watch (InOrder watch work) (foldRest root) (foldRest root)
      fun _ => InOrder watch work := by
  have stable : Stable (InOrder watch work) := fun _ _ same inOrder => inOrder.sameFlow same
  refine .after (fun _ _ _ => ⟨_, _, rfl, rfl, rfl, .refl _⟩) stable fun _ => .get fun state => ?_
  dsimp only [recording]
  split
  · exact .pure fun _ inOrder => inOrder
  · exact .quiet (.fail _) stable

/-- A run and the one that keeps records of it come to the same outcome, and the records are right. -/
theorem exists_recorded {body : MethodBody} {entry : NodeId} (hEntry : body.graph.entry? = some entry)
    (hUnvisited : ∀ id, (body.graph.node id).visit = .unvisited) (setting : Setting) (safe : Prop) (nodes : Nat)
    (hBudget : safe → body.graph.Budget (4 * body.graph.searchBound) nodes)
    (hNodes : safe → body.graph.nodes.size ≤ nodes) :
    ∃ outcome after, (foldGraph (setting.recording true)).run.run { toMethodBody := body } = (outcome, after) ∧
      (foldGraph setting).run.run { toMethodBody := body } = (outcome, after.recording setting.options.trace) ∧
      Recorded { safe, nodes, entry, trace := setting.options.trace } after := by
  let watch : Watch := { safe, nodes, entry, trace := setting.options.trace }
  have agrees := (orderly_foldWithin watch (4 * body.graph.searchBound) entry).bind fun root => agrees_foldRest root
  obtain ⟨outcome, after, hRecorded, hRun, records, -, -⟩ := agrees setting { toMethodBody := body }
    (.initial body hNodes) (InOrder.of_unvisited hUnvisited hBudget)
  rw [recording_initial] at hRun
  exact ⟨outcome, after, (run_foldGraph hEntry _).trans hRecorded, (run_foldGraph hEntry _).trans hRun, records⟩

end Folding

/-- Nodes are folded in topological order. Whenever a node other than the entry is entered, the visits that it
received came from precisely those of its predecessors at that time whose edges close no cycle, from each once, and it
was granted precisely the visits to expect beside those. The nodes that are entered are those that a run records; a run
without records does the same. -/
theorem MethodBody.fold_visitsExact {unit : CompiledUnit} {building : Setting} {body : MethodBody}
    (hBody : (MethodBody.ofUnit unit building).1 = .ok body) (setting : Setting) :
    let recorded := body.fold (setting.recording true)
    (body.fold setting).1 = recorded.1 ∧ (body.fold setting).2.1 = recorded.2.1 ∧
      ∀ graph id, .node .folded graph id ∈ recorded.2.2 → some id ≠ body.graph.entry? →
        (graph.node id).VisitsExact := by
  intro recorded
  have hUnvisited (id : NodeId) : (body.graph.node id).visit = .unvisited :=
    congrArg (·.2.1) (MethodBody.progress_ofUnit hBody id)
  suffices hRuns : ∃ outcome after, (Folding.foldGraph (setting.recording true)).run.run { toMethodBody := body } =
      (outcome, after) ∧ (Folding.foldGraph setting).run.run { toMethodBody := body } =
        (outcome, after.recording setting.options.trace) ∧
      ∀ graph id, .node .folded graph id ∈ after.trace → some id ≠ body.graph.entry? →
        (graph.node id).VisitsExact by
    obtain ⟨outcome, after, hRecorded, hRun, hExact⟩ := hRuns
    simp only [recorded, MethodBody.fold, hRecorded, hRun, List.mem_reverse]
    exact ⟨trivial, rfl, hExact⟩
  cases hEntry : body.graph.entry? with
  | none =>
      have hFails (setting : Setting) : (Folding.foldGraph setting).run.run { toMethodBody := body } =
          (.error (.structural body.signature .noNodes), { toMethodBody := body }) := by
        rw [Folding.foldGraph, Folding.run_currentGraph_bind, hEntry]
        rfl
      refine ⟨_, _, hFails _, (hFails setting).trans ?_, fun _ _ hRecord => absurd hRecord List.not_mem_nil⟩
      rw [Folding.recording_initial]
  | some entry =>
      obtain ⟨outcome, after, hRecorded, hRun, records⟩ :=
        Folding.exists_recorded hEntry hUnvisited setting False 0 False.elim False.elim
      exact ⟨outcome, after, hRecorded, hRun, fun graph id hRecord hOther =>
        records.exact graph id hRecord fun hSame => hOther (congrArg some hSame)⟩

/-- A method with a call on one of two ways that meet again. -/
def meeting : CompiledUnit where
  owner := "A"
  name := "m"
  descriptor := "(I)V"
  isStatic := true
  events :=
    [.var .iload 0, .jump .ifeq 2, .label 1, .method .invokestatic { owner := "A", name := "f", descriptor := "()V" },
      .label 2, .frame .same 0 0, .insn .vreturn]

theorem exists_body {unit : CompiledUnit} {holds : MethodBody → Prop} [DecidablePred holds]
    (hHolds : (MethodBody.ofUnit unit {}).1.toOption.any fun body => holds body) :
    ∃ body, (MethodBody.ofUnit unit {}).1 = .ok body ∧ holds body := by
  cases hRun : (MethodBody.ofUnit unit {}).1 with
  | error fault =>
      rw [hRun] at hHolds
      exact absurd hHolds Bool.false_ne_true
  | ok body =>
      rw [hRun] at hHolds
      exact ⟨body, rfl, of_decide_eq_true hHolds⟩

/-- The record says that a node other than the entry was entered after visits of two others. -/
def TraceEntry.meets (entry : Option NodeId) : TraceEntry → Bool
  | .node .folded graph id => some id ≠ entry && (graph.node id).visit.arrivals.sources.length == 2
  | _ => false

/-- The node where the ways meet is entered when both have come to it. -/
theorem fold_visitsExact_meeting : ∃ body, (MethodBody.ofUnit meeting {}).1 = .ok body ∧
    ∃ graph id, .node .folded graph id ∈ (body.fold (Setting.recording {} true)).2.2 ∧
      some id ≠ body.graph.entry? ∧ (graph.node id).visit.arrivals.sources.length = 2 ∧
      (graph.node id).VisitsExact := by
  have hChecked : ∃ body, (MethodBody.ofUnit meeting {}).1 = .ok body ∧
      (body.fold (Setting.recording {} true)).2.2.any (TraceEntry.meets body.graph.entry?) :=
    exists_body (by decide +kernel)
  obtain ⟨body, hBody, hAny⟩ := hChecked
  obtain ⟨record, hRecord, hMeets⟩ := List.any_eq_true.mp hAny
  obtain ⟨-, -, hExact⟩ := MethodBody.fold_visitsExact hBody {}
  unfold TraceEntry.meets at hMeets
  split at hMeets
  · rename_i graph id
    simp only [Bool.and_eq_true, decide_eq_true_eq, beq_iff_eq] at hMeets
    exact ⟨body, hBody, graph, id, hRecord, hMeets.1, hMeets.2, hExact graph id hRecord hMeets.1⟩
  · cases hMeets

end Decompiler
