import Decompiler.Proofs.Graph.Running

/-!
When a graph runs as another one does. Joining the conditions on top of a node is such a change: what a run of the node
does and where control goes stay the same, if only the uppermost condition names a node to fail to, the destination.
-/

namespace Decompiler.Graph

open StateTransition

variable {σ : Type} (meaning : Meaning σ) {graph before middle after : Graph} {id : NodeId}

/-! ### Runs of two graphs -/

/-- Control stands at a node that is not disposed of, or has ended. -/
def Control.Stands (graph : Graph) : Control → Prop
  | .entering id => (graph.node id).disposed = false
  | .ended _ => True

/-- Wherever control stands in the one graph, the other one runs in the same way, perhaps in more steps. -/
def Refines (after before : Graph) : Prop :=
  Respects (after.step meaning) (before.step meaning) fun now then' => now = then' ∧ now.1.Stands after

variable {meaning}

/-- A change may be made in steps, as long as no node is brought back. -/
theorem Refines.trans (first : Refines meaning middle before) (second : Refines meaning after middle)
    (hLive : ∀ id, (after.node id).disposed = false → (middle.node id).disposed = false) :
    Refines meaning after before := by
  rintro now _ ⟨rfl, hStands⟩
  have hMiddle : now.1.Stands middle := by
    rcases now with ⟨id | id, state⟩
    · exact hLive id hStands
    · trivial
  have hSecond := second ⟨rfl, hStands⟩
  cases hStep : after.step meaning now with
  | none =>
      rw [hStep] at hSecond
      have hFirst := first ⟨rfl, hMiddle⟩
      rw [show middle.step meaning now = none from hSecond] at hFirst
      exact hFirst
  | some next =>
      rw [hStep] at hSecond
      obtain ⟨_, ⟨rfl, hNext⟩, hReaches⟩ := hSecond
      obtain ⟨_, ⟨rfl, -⟩, hReaches⟩ := tr_reaches₁ first ⟨rfl, hMiddle⟩ hReaches
      exact ⟨next, ⟨rfl, hNext⟩, hReaches⟩

/-- What a graph that runs as another one does has in common with it, from where control stands. -/
theorem Refines.runs (refines : Refines meaning after before) {start : Control × σ} (hStart : start.1.Stands after) :
    eval (after.step meaning) start = eval (before.step meaning) start ∧
      (∀ config, StateTransition.Reaches (after.step meaning) start config →
        StateTransition.Reaches (before.step meaning) start config) ∧
      ∀ config, StateTransition.Reaches (before.step meaning) start config →
        ∃ later, StateTransition.Reaches (before.step meaning) config later ∧
          StateTransition.Reaches (after.step meaning) start later := by
  refine ⟨Part.ext fun config => ⟨fun hEnds => ?_, fun hEnds => ?_⟩, fun config hReaches => ?_,
    fun config hReaches => ?_⟩
  · obtain ⟨_, ⟨rfl, -⟩, hSame⟩ := tr_eval refines ⟨rfl, hStart⟩ hEnds
    exact hSame
  · obtain ⟨_, ⟨rfl, -⟩, hSame⟩ := tr_eval_rev refines ⟨rfl, hStart⟩ hEnds
    exact hSame
  · obtain ⟨_, ⟨rfl, -⟩, hSame⟩ := tr_reaches refines ⟨rfl, hStart⟩ hReaches
    exact hSame
  · obtain ⟨_, _, hLater, ⟨rfl, -⟩, hSame⟩ := tr_reaches_rev refines ⟨rfl, hStart⟩ hReaches
    exact ⟨_, hLater, hSame⟩

/-- From nodes that are not disposed of control goes to such nodes only. -/
structure StaysLive (graph : Graph) : Prop where
  jumps : ∀ id, (graph.node id).disposed = false → ∀ operand ∈ (graph.node id).stack, ∀ target,
    operand.jump? = some (some target) → (graph.node target).disposed = false
  leads : ∀ id, (graph.node id).disposed = false → ∀ target,
    graph.leadsTo id = some target → (graph.node target).disposed = false

variable (meaning) in
/-- A visit of a node leads to one that is there. -/
theorem StaysLive.runNode (stays : StaysLive graph) (hLive : (graph.node id).disposed = false) (state : σ) :
    ∀ target, ((graph.runNode meaning id).run state).1 = some target → (graph.node target).disposed = false := by
  refine foldr_act_induction meaning
    (motive := fun go => ∀ target, go = some target → (graph.node target).disposed = false) ?_ ?_ state
  · intro operand hOperand _ hJump target hTarget
    exact stays.jumps id hLive operand hOperand target (hJump.trans (congrArg some hTarget))
  · exact fun _ => stays.leads id hLive

/-- Control stands at nodes that are there, after every step. -/
theorem StaysLive.stands_step (stays : StaysLive graph) {now next : Control × σ} (hStands : now.1.Stands graph)
    (hStep : graph.step meaning now = some next) : next.1.Stands graph := by
  rcases now with ⟨id | id, state⟩
  · obtain rfl := Option.some.inj hStep
    have hRunNode := stays.runNode meaning hStands state
    cases hTarget : ((graph.runNode meaning id).run state).1 with
    | none => exact hTarget ▸ trivial
    | some target => exact hTarget ▸ hRunNode target hTarget
  · cases hStep

/-- A change after which every node runs as before. -/
theorem StaysLive.refines (stays : StaysLive after)
    (hRunNode : ∀ id, after.runNode meaning id = before.runNode meaning id) : Refines meaning after before := by
  have hStep : after.step meaning = before.step meaning := by
    funext now
    rcases now with ⟨id | id, state⟩
    · simp only [step, hRunNode]
    · rfl
  rintro now _ ⟨rfl, hStands⟩
  cases hNow : after.step meaning now with
  | none => exact hStep ▸ hNow
  | some next => exact ⟨next, ⟨rfl, stays.stands_step hStands hNow⟩, .single (hStep ▸ hNow)⟩

/-! ### Joining the run on top of a node -/

variable {latest top : Operand} {rest others joined : List Operand} {supply : Supply} {other : NodeId}

/-- If conditions stand on top of the node, only the uppermost one may name a node to fail to, the destination. -/
def FallsThrough (graph : Graph) (id : NodeId) : Prop :=
  (graph.runParts id).above = [] →
    (∀ latest ∈ (graph.runParts id).run.head?, latest.falls = none ∨ latest.falls = graph.leadsTo id) ∧
      ∀ operand ∈ (graph.runParts id).run.tail, operand.falls = none

instance (graph : Graph) (id : NodeId) : Decidable (graph.FallsThrough id) := inferInstanceAs (Decidable (_ → _ ∧ _))

/-- Nothing but conditions stands on the uppermost condition of the node, and once it fails to the destination those
below it may be joined. -/
def Joinable (graph : Graph) (id : NodeId) : Prop :=
  ∀ latest rest, (graph.runParts id).run = latest :: rest →
    (graph.runParts id).above = [] ∧ (latest.falls = none ∨ latest.falls = graph.leadsTo id) ∧
      FailsUpwards (latest.mapCondition (completeTop (graph.leadsTo id))) rest

theorem falls_completeTop {destination : Option NodeId} (hFalls : latest.falls = none ∨ latest.falls = destination) :
    (latest.mapCondition (completeTop destination)).falls = none ∨
      (latest.mapCondition (completeTop destination)).falls = destination := by
  unfold Operand.falls at *
  rw [Operand.condition?_mapCondition]
  cases hTest : latest.condition? with
  | none => exact .inl rfl
  | some test =>
      rw [hTest] at hFalls
      simp only [Option.map_some, Option.bind_some, completeTop] at hFalls ⊢
      split
      · exact .inr rfl
      · exact hFalls

/-- The run on top of a node is joined to one that has nothing left to join, and in which only the uppermost condition
names a node to fail to. -/
structure JoinsTop (graph : Graph) (id : NodeId) (top : Operand) (others : List Operand) (after : Graph) : Prop where
  order : after.order = graph.order
  size : after.nodes.size = graph.nodes.size
  other : ∀ other, other ≠ id → after.node other = graph.node other
  self : after.node id =
    { graph.node id with stack := (graph.runParts id).below.reverse ++ (top :: others).reverse }
  folded : Folded (top :: others)
  topFalls : top.falls = none ∨ top.falls = graph.leadsTo id
  complete : top.mapCondition (completeTop (graph.leadsTo id)) = top
  othersFall : ∀ operand ∈ others, operand.falls = none
  jumps : ∀ operand ∈ top :: others, ∃ origin ∈ (graph.node id).stack, operand.jump? = origin.jump?
  run : ∀ {σ : Type} (meaning : Meaning σ), (top :: others).reverse.foldr meaning.act (pure (graph.leadsTo id)) =
    (graph.runParts id).run.reverse.foldr meaning.act (pure (graph.leadsTo id))

/-- Where nothing lies above the run, the stack is the run on what lies below. -/
theorem stack_eq_of_above (hAbove : (graph.runParts id).above = []) :
    (graph.node id).stack = (graph.runParts id).below.reverse ++ (graph.runParts id).run.reverse := by
  have hStack := ConditionRun.stack_eq (graph.node id).stack
  rw [← runParts, hAbove, List.reverse_nil, List.append_nil] at hStack
  exact hStack.symm

/-- The joined run takes the place of the run, and does the same. -/
theorem joinsTop_withRun (joinable : graph.Joinable id) (hRun : (graph.runParts id).run = latest :: rest) :
    ∃ top others supply, graph.runJoined id latest rest = ((top :: others).reverse, supply) ∧
      JoinsTop graph id top others (graph.withRun id (top :: others).reverse supply) := by
  obtain ⟨hAbove, hFalls, hFails⟩ := joinable latest rest hRun
  have hStack := stack_eq_of_above hAbove
  have hId : id < graph.nodes.size := lt_of_run (hRun ▸ List.cons_ne_nil _ _)
  obtain ⟨hLatest, hRest⟩ :=
    List.forall_mem_cons.mp (hRun ▸ (ConditionRun.uppermost_ofStack (graph.node id).stack).run)
  have hCompleted := falls_completeTop hFalls
  have hJump := jump?_completeTop (graph.leadsTo id) latest
  have hAct {σ : Type} (meaning : Meaning σ) := meaning.act_completeTop (graph.leadsTo id) latest
  have hCondition := Operand.isCondition_mapCondition (completeTop (graph.leadsTo id)) latest
  have hJoined : graph.runJoined id latest rest =
    (joinRun (latest.mapCondition (completeTop (graph.leadsTo id))) rest).run graph.supply := rfl
  have hComplete {top : Operand} := @mapCondition_completeTop latest top (graph.leadsTo id)
  generalize latest.mapCondition (completeTop (graph.leadsTo id)) = completed at *
  obtain ⟨top, others, hFolded, hWays, folded⟩ := joinRun_folded (hCondition.trans hLatest) hRest graph.supply
  have joins := runJoins_joinRun completed rest graph.supply
  rw [hFolded, List.reverse_reverse] at joins
  obtain ⟨_, _, hSplit, -, hOthers⟩ := joins.fails hFails
  obtain ⟨rfl, rfl⟩ := List.cons.inj hSplit
  refine ⟨top, others, _, hJoined.trans (Prod.ext hFolded rfl), ?_⟩
  refine ⟨rfl, size_update _ _ _, fun other hOther => node_update_of_ne (Ne.symm hOther) _, ?_, folded, ?_,
    hComplete hWays, hOthers, ?_, ?_⟩
  · refine (@node_update_self { graph with supply := _ } id hId _).trans ?_
    rw [hAbove, List.reverse_nil, List.append_nil]
  · exact Operand.falls_of_ways hWays ▸ hCompleted
  · intro operand hOperand
    obtain ⟨origin, hOrigin, hSame⟩ := joins.ways operand hOperand
    rw [hStack, hRun]
    rcases List.mem_cons.mp hOrigin with rfl | hOrigin
    · exact ⟨latest, by simp, (Operand.jump?_of_ways hSame).trans hJump⟩
    · exact ⟨origin, by simp [hOrigin], Operand.jump?_of_ways hSame⟩
  · intro σ meaning
    rw [joins.run meaning hFails (hCompleted.imp_right fun h => congrArg pure h.symm), hRun, List.reverse_cons,
      List.reverse_cons, List.foldr_append, List.foldr_append, List.foldr_cons, List.foldr_cons, hAct]

/-- Joining leaves the node as it should be, and yields the node before it only if that goes on into it. -/
theorem joinTop_of_joinable (hLive : (graph.node id).disposed = false) (joinable : graph.Joinable id)
    (hRun : (graph.runParts id).run = latest :: rest) :
    ∃ fold after top others, graph.joinTop id = (fold, after) ∧ JoinsTop graph id top others after ∧
      ∀ previous, fold = some previous → (graph.runParts id).below = [] ∧ (graph.node id).previous = some previous ∧
        ∃ tail, (after.node previous).top? = some tail ∧ tail.falls = some id ∧
          tail.fits ((top :: others).getLast (List.cons_ne_nil _ _)) = true := by
  obtain ⟨top, others, supply, hJoined, joins⟩ := joinsTop_withRun joinable hRun
  refine ⟨_, _, top, others, joinTop_of_run hLive hRun hJoined, joins, fun previous hFold => ?_⟩
  rw [foldTarget?] at hFold
  split at hFold
  · next hFills =>
      obtain ⟨hBelow, -⟩ := Bool.and_eq_true_iff.mp (Bool.and_eq_true_iff.mp hFills).1
      obtain ⟨hPrevious, hContinues⟩ := Option.filter_eq_some_iff.mp hFold
      rw [joins.self] at hPrevious
      refine ⟨List.isEmpty_iff.mp hBelow, hPrevious, ?_⟩
      split at hContinues
      · next test test' hTail hHead =>
          obtain ⟨tail, hTop, hTest⟩ := Option.bind_eq_some_iff.mp hTail
          obtain ⟨hFalls, hMerge⟩ := Bool.and_eq_true_iff.mp hContinues
          rw [List.head?_reverse, List.getLast?_eq_getLast_of_ne_nil (List.cons_ne_nil _ _), Option.bind_some] at hHead
          refine ⟨tail, hTop, (Operand.falls_eq hTest).trans (by simpa using hFalls), ?_⟩
          rw [Operand.fits, hTest, hHead]
          exact hMerge
      · cases hContinues
  · cases hFold

/-- Control comes to the node only from the node before it, where nothing has jumped, and goes on from it to another node
in any case. -/
structure PassedThrough (graph : Graph) (id : NodeId) : Prop where
  placed : id ∈ graph.order
  jumps : ∀ other, (graph.node other).disposed = false → ∀ operand ∈ (graph.node other).stack,
    operand.jump? ≠ some (some id)
  leads : ∀ other, (graph.node other).disposed = false → graph.leadsTo other = some id →
    (graph.node id).previous = some other
  goesOn : (graph.leadsTo id).isSome
  own : ∀ operand ∈ (graph.node id).stack, operand.jump? ≠ some none

namespace JoinsTop

variable (joins : JoinsTop graph id top others after)

include joins

/-- A field other than the stack. -/
theorem field {α : Type} (read : Node → α)
    (hStack : ∀ (node : Node) (stack : List Operand), read { node with stack } = read node) (other : NodeId) :
    read (after.node other) = read (graph.node other) := by
  by_cases hOther : other = id
  · rw [hOther, joins.self, hStack]
  · rw [joins.other other hOther]

theorem leadsTo (other : NodeId) : after.leadsTo other = graph.leadsTo other :=
  joins.field (fun node => node.destination.bind Destination.node?) (fun _ _ => rfl) other

theorem disposed (other : NodeId) : (after.node other).disposed = (graph.node other).disposed :=
  joins.field Node.disposed (fun _ _ => rfl) other

theorem linked (linked : Linked graph) : Linked after :=
  linked.congr joins.order joins.size joins.disposed (joins.field Node.previous fun _ _ => rfl)
    (joins.field Node.next fun _ _ => rfl)

variable (hAbove : (graph.runParts id).above = [])

include hAbove

/-- A visit of any node does what it did and goes on where it went on. -/
theorem runNode (meaning : Meaning σ) (other : NodeId) : after.runNode meaning other = graph.runNode meaning other := by
  rw [Graph.runNode, Graph.runNode, joins.leadsTo]
  by_cases hOther : other = id
  · subst hOther
    rw [joins.self, stack_eq_of_above hAbove, List.foldr_append, List.foldr_append, joins.run]
  · rw [joins.other other hOther]

/-- No condition jumps where none has jumped before. -/
theorem jump {operand : Operand} (hOperand : operand ∈ (after.node other).stack) :
    ∃ origin ∈ (graph.node other).stack, operand.jump? = origin.jump? := by
  by_cases hOther : other = id
  · subst hOther
    rw [joins.self, List.mem_append] at hOperand
    rcases hOperand with hBelow | hRun
    · exact ⟨operand, stack_eq_of_above hAbove ▸ List.mem_append_left _ hBelow, rfl⟩
    · exact joins.jumps operand (List.mem_reverse.mp hRun)
  · exact ⟨operand, joins.other other hOther ▸ hOperand, rfl⟩

/-- All that is led to is there as before. -/
theorem stays (stays : StaysLive graph) : StaysLive after where
  jumps other hLive operand hOperand target hTarget := by
    obtain ⟨origin, hOrigin, hJump⟩ := joins.jump hAbove hOperand
    rw [joins.disposed] at hLive ⊢
    exact stays.jumps other hLive origin hOrigin target (hJump ▸ hTarget)
  leads other hLive target hTarget := by
    rw [joins.disposed] at hLive ⊢
    exact stays.leads other hLive target (joins.leadsTo other ▸ hTarget)

/-- Joining at one node takes no other node's way. -/
theorem passedThrough (passed : PassedThrough graph other) : PassedThrough after other where
  placed := joins.order ▸ passed.placed
  jumps place hLive operand hOperand := by
    obtain ⟨origin, hOrigin, hJump⟩ := joins.jump hAbove hOperand
    rw [hJump]
    exact passed.jumps place (joins.disposed place ▸ hLive) origin hOrigin
  leads place hLive hLeads := by
    rw [joins.field Node.previous fun _ _ => rfl]
    exact passed.leads place (joins.disposed place ▸ hLive) (joins.leadsTo place ▸ hLeads)
  goesOn := joins.leadsTo other ▸ passed.goesOn
  own operand hOperand := by
    obtain ⟨origin, hOrigin, hJump⟩ := joins.jump hAbove hOperand
    rw [hJump]
    exact passed.own origin hOrigin

end JoinsTop

end Decompiler.Graph
