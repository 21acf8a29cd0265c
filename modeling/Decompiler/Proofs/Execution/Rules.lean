import Decompiler.Execution.Instruction
import Decompiler.Proofs.Graph.Layout
import Decompiler.Proofs.Region.Rules

/-!
Rules for the steps of an execution. What relates the two ends of the few steps that make, place or dispose of nodes, and
of every step that leaves the layout alone, relates the two ends of all that is made of them, and so of every event.
-/

namespace Decompiler

namespace Graph

variable {α β : Type}

/-- The step leaves the layout of the graph alone. -/
def Stays (step : GraphM α) : Prop := ∀ graph, SameLayout graph (step.run graph).2

namespace Stays

variable {step : GraphM α} {next : α → GraphM β}

theorem pure (value : α) : Stays (Pure.pure value) := fun graph => .refl graph

theorem bind (first : Stays step) (second : ∀ value, Stays (next value)) : Stays (step >>= next) := fun graph =>
  (first graph).trans (second _ _)

/-- Steps in sequence, loops and passes over lists are covered at once by this. -/
theorem compositional : Compositional @Stays := ⟨pure, bind⟩

theorem get : Stays (MonadState.get : GraphM Graph) := fun graph => .refl graph

theorem change {change : Graph → Graph} (hChange : ∀ graph, SameLayout graph (change graph)) :
    Stays (modify change : GraphM Unit) := hChange

theorem ite {condition : Prop} [Decidable condition] {other : GraphM α} (first : Stays step) (second : Stays other) :
    Stays (if condition then step else other) := by
  split
  · exact first
  · exact second

theorem ask (asks : OnlyAsks step) : Stays step := fun graph => .of_sameFacts (asks graph)

theorem supply (step : SupplyM α) : Stays (step : GraphM α) := fun graph => .supply graph _

end Stays

end Graph

namespace Execution

open Decompiler.Graph

/-! ### Idioms that look at the graph -/

/-- The values and the condition are the three topmost entries. The values lie apart, and the jump of the condition leads
to the upper one. -/
structure Branches.Fits (branches : Branches) (graph : Graph) (here : NodeId) : Prop where
  right : (graph.locate? here 0).map Prod.fst = some branches.right
  left : (graph.locate? here 1).map Prod.fst = some branches.left
  holder : (graph.locate? here 2).map Prod.fst = some branches.holder
  apart : branches.right ≠ branches.left
  jumps : ∃ target, ((graph.peek? here 2).bind Operand.condition?).bind Condition.onTrue = some target ∧
    branches.right ∈ emptyChain graph target

/-- The parts of a conditional expression that are found fit the graph as it is before the queries. -/
theorem fits_branches? (graph : Graph) (here : NodeId) :
    ∀ branches ∈ ((branches? here).run graph).1, branches.Fits graph here := by
  have hAsk {α : Type} (step : GraphM α) : GraphM.Ensures (fun _ => True) step fun _ => True :=
    fun _ _ => ⟨trivial, trivial⟩
  rw [branches?, StateT.run_bind, StateT.run_get]
  refine ((?_ : GraphM.Ensures (fun _ => True) _ fun found : Option Branches =>
    ∀ branches ∈ found, branches.Fits graph here) graph trivial).1
  dsimp only
  split
  · rename_i right _ left _ holder _ hRight hLeft hHolder
    split
    · exact .pure nofun
    · rename_i target hTarget
      split
      · exact .pure nofun
      · rename_i hValues
        have hFits (dominated nested : Bool) : ∀ branches ∈ (if (emptyChain graph target).contains right && dominated
            && !nested then some { right, left, holder : Branches } else none), branches.Fits graph here := by
          split
          · next hJoin =>
              rintro _ ⟨⟩
              simp only [Bool.and_eq_true, List.contains_iff_mem] at hJoin
              refine ⟨congrArg (Option.map Prod.fst) hRight, congrArg (Option.map Prod.fst) hLeft,
                congrArg (Option.map Prod.fst) hHolder, fun hSame => hValues ?_, target, hTarget, hJoin.1.1⟩
              rw [decide_eq_true (show right = left from hSame)]
              rfl
          · nofun
        have hNested (dominated : Bool) : GraphM.Ensures (fun _ => True) (do
            let nested ← if holder = left then pure false else hasDominator right left
            return if (emptyChain graph target).contains right && dominated && !nested
              then some { right, left, holder : Branches } else none) fun found =>
              ∀ branches ∈ found, branches.Fits graph here := by
          split
          · exact .pure (hFits dominated false)
          · exact (hAsk _).bind fun nested _ => .pure (hFits dominated nested)
        refine (hAsk (hasDominator left holder)).bind fun dominated _ => ?_
        split
        · exact (hAsk (hasDominator right holder)).bind fun dominated _ => hNested dominated
        · exact hNested false
  · exact .pure nofun

/-- Looking for the parts of a conditional expression asks for dominators only. -/
theorem HoldsOfQueries.branches? {property : ∀ {α : Type}, GraphM α → Prop} (kept : HoldsOfQueries @property)
    (here : NodeId) : property (branches? here) := by
  refine kept.bind kept.get fun graph => ?_
  split
  · rename_i right _ left _ holder _ _ _ _
    split
    · exact kept.pure _
    · rename_i target _
      dsimp only
      split
      · exact kept.pure _
      · have hNested (dominated : Bool) : property (do
            let nested ← if holder = left then pure false else hasDominator right left
            return if (emptyChain graph target).contains right && dominated && !nested
              then some { right, left, holder : Branches } else none) := by
          split
          · exact kept.pure _
          · exact kept.bind (kept.hasDominator _ _) fun nested => kept.pure _
        refine kept.bind (kept.hasDominator left holder) fun dominated => ?_
        split
        · exact kept.bind (kept.hasDominator right holder) hNested
        · exact hNested false
  · exact kept.pure _

/-- The search for a conditional expression leaves the graph as it found it. -/
theorem onlyAsks_branches? (here : NodeId) : OnlyAsks (branches? here) := HoldsOfQueries.branches? onlyAsks_queries here

/-- Whether a switch leaves a value is found out by queries and looks. -/
theorem onlyAsks_yieldsValue (head : NodeId) (first last : Nat) (source : NodeId) :
    OnlyAsks (yieldsValue head first last source) := by
  refine OnlyAsks.get.bind fun graph => ?_
  dsimp only
  split
  · exact .pure _
  · refine (onlyAsks_hasDominator _ _).bind fun dominated => ?_
    split
    · exact .pure _
    · exact OnlyAsks.get.bind fun graph => .pure _

/-- The value of an arm becomes its yield where it lies. -/
theorem stays_yieldTop (source : NodeId) : Stays (yieldTop source) := by
  refine Stays.get.bind fun graph => ?_
  split
  · exact .pure _
  · exact (Stays.supply _).bind fun yielded => (Stays.change fun graph => .mapStack graph source _).bind fun _ => .pure _

/-- A recipe is put together from operands and new identities. -/
theorem stays_concatenation (arguments : List Operand) (recipe : Option String) :
    Stays (concatenation arguments recipe) := by
  unfold concatenation
  extract_lets join rest
  have hJoin : ∀ parts, Stays (join parts) := by
    intro parts
    cases parts with
    | nil => exact .supply _
    | cons first others => exact Stays.compositional.foldlM (fun left right => .supply _) others first
  have hRest : ∀ parts, Stays (rest parts) := fun parts =>
    Stays.get.bind fun graph => .ite (hJoin parts) ((Stays.supply _).bind fun empty => hJoin (empty :: parts))
  cases recipe with
  | none => exact hRest arguments
  | some recipe => exact (Stays.supply _).bind hRest

/-! ### Relations between the ends of a step -/

/-- The states before and after the step are related, if it succeeds. -/
def Relates (R : Execution → Execution → Prop) {α : Type} (step : ExecutionM α) : Prop :=
  ∀ setting state value after, (step setting).run.run state = (.ok value, after) → R state after

/-- From a state with the first property the step leads, if it succeeds, to a state with the second one. -/
def Ensures (before : Execution → Prop) {α : Type} (step : ExecutionM α) (after : α → Execution → Prop) : Prop :=
  ∀ setting state value later, before state → (step setting).run.run state = (.ok value, later) → after value later

/-- A refusal is no success. -/
theorem run_refuse_ne {α : Type} {fault : IdiomFault} {setting : Setting} {state after : Execution} {value : α} :
    (refuse fault setting).run.run state ≠ (.ok value, after) := fun hRun => by
  obtain ⟨_, _, _, hRun⟩ := run_bind_ok hRun
  obtain ⟨_, _, _, hRun⟩ := run_bind_ok hRun
  cases hRun

namespace Ensures

variable {α β : Type} {before : Execution → Prop} {step other : ExecutionM α} {next : α → ExecutionM β}
  {middle after : α → Execution → Prop} {final : β → Execution → Prop}

theorem pure {value : α} (hValue : ∀ state, before state → after value state) :
    Ensures before (Pure.pure value) after := fun _ state _ _ hBefore hRun => by
  cases hRun
  exact hValue state hBefore

theorem bind (first : Ensures before step middle) (second : ∀ value, Ensures (middle value) (next value) final) :
    Ensures before (step >>= next) final := fun setting state value later hBefore hRun => by
  obtain ⟨found, between, hFirst, hSecond⟩ := run_bind_ok hRun
  exact second found setting between value later (first setting state found between hBefore hFirst) hSecond

theorem refuse (fault : IdiomFault) : Ensures before (Execution.refuse fault) after := fun _ _ _ _ _ hRun =>
  (run_refuse_ne hRun).elim

theorem ite {condition : Prop} [Decidable condition] (first : Ensures before step after)
    (second : Ensures before other after) : Ensures before (if condition then step else other) after := by
  split
  · exact first
  · exact second

/-- Less may be claimed of the state after. -/
theorem weaken {weaker : α → Execution → Prop} (ensures : Ensures before step after)
    (hWeaker : ∀ value state, after value state → weaker value state) : Ensures before step weaker :=
  fun setting state value later hBefore hRun => hWeaker value later (ensures setting state value later hBefore hRun)

/-- A step that may know the state that it looks at. -/
theorem look {next : Execution → ExecutionM β}
    (second : ∀ state, before state → Ensures (· = state) (next state) final) :
    Ensures before (MonadState.get >>= next) final := fun setting state value later hBefore hRun =>
  second state hBefore setting state value later rfl hRun

theorem change {change : Execution → Execution} {final : Execution → Prop}
    (hChange : ∀ state, before state → final (change state)) :
    Ensures before (modify change : ExecutionM Unit) fun _ => final := fun _ state _ _ hBefore hRun => by
  cases hRun
  exact hChange state hBefore

/-- What is known of the state before may be more than the step asks for. -/
theorem strengthen {stronger : Execution → Prop} (ensures : Ensures before step after)
    (hStronger : ∀ state, stronger state → before state) : Ensures stronger step after :=
  fun setting state value later hBefore hRun => ensures setting state value later (hStronger state hBefore) hRun

/-- Two things that are ensured at once. -/
theorem and {other : α → Execution → Prop} (first : Ensures before step middle) (second : Ensures before step other) :
    Ensures before step fun value state => middle value state ∧ other value state :=
  fun setting state value later hBefore hRun =>
    ⟨first setting state value later hBefore hRun, second setting state value later hBefore hRun⟩

/-- A step that is seen from each state on its own. -/
theorem each (ensures : ∀ state, before state → Ensures (· = state) step after) : Ensures before step after :=
  fun setting state value later hBefore hRun => ensures state hBefore setting state value later rfl hRun

/-- What is known beside the state. -/
theorem of_fact {fact : Prop} (ensures : fact → Ensures before step after) :
    Ensures (fun state => before state ∧ fact) step after :=
  fun setting state value later hBefore hRun => ensures hBefore.2 setting state value later hBefore.1 hRun

/-- A step that goes on from a node of the graph. -/
theorem node {id : NodeId} {next : Node → ExecutionM β}
    (second : ∀ state, before state → Ensures (· = state) (next (state.graph.node id)) final) :
    Ensures before (Execution.node id >>= next) final := fun setting state value later hBefore hRun => by
  obtain ⟨_, _, hNode, hRun⟩ := run_bind_ok hRun
  cases hNode
  exact second state hBefore setting state value later rfl hRun

/-- A loop whose rounds each deal with the next item. -/
theorem forIn {γ : Type} {remaining : List γ → Execution → Prop} {round : γ → PUnit → ExecutionM (ForInStep PUnit)}
    (items : List γ) (hRound : ∀ item rest, Ensures (remaining (item :: rest)) (round item ⟨⟩)
      fun outcome state => outcome = .yield ⟨⟩ ∧ remaining rest state) :
    Ensures (remaining items) (forIn items ⟨⟩ round) fun _ => remaining [] := by
  induction items with
  | nil => exact .pure fun _ hDone => hDone
  | cons item rest ih =>
      rw [List.forIn_cons]
      refine (hRound item rest).bind fun outcome => ?_
      cases outcome with
      | done => exact fun _ _ _ _ hBefore => nomatch hBefore.1
      | yield => exact fun setting state value later hBefore => ih setting state value later hBefore.2

end Ensures

/-- The current node is there already, or it is made and placed. -/
theorem run_here {setting : Setting} {state after : Execution} {id : NodeId}
    (hRun : (here setting).run.run state = (.ok id, after)) :
    (state.current = some id ∧ after = state) ∨
      state.current = none ∧ id = state.graph.nodes.size ∧ after.current = some id ∧
        after.graph = state.graph.createAnonymous.2.append id := by
  rw [here] at hRun
  obtain ⟨_, _, hState, hRun⟩ := run_bind_ok hRun
  cases hState
  cases hCurrent : state.current with
  | some found =>
      rw [hCurrent] at hRun
      cases hRun
      exact .inl ⟨rfl, rfl⟩
  | none =>
      rw [hCurrent] at hRun
      cases hRun
      exact .inr ⟨rfl, rfl, rfl, rfl⟩

/-- The relation goes through steps in sequence, and it relates the ends of a step that leaves the layout and the current
node alone, and of one that makes sure of a current node. So it relates the ends of all steps on operands. -/
class HoldsOfOperands (R : Execution → Execution → Prop) : Prop where
  trans : ∀ {before middle after}, R before middle → R middle after → R before after
  stay : ∀ {before after : Execution}, SameLayout before.graph after.graph → after.current = before.current →
    R before after
  relates_here : Relates R here

/-- The relation holds of the steps that make nodes for labels, and of the idioms that dispose of nodes. So it relates the
ends of all events that open no label. -/
class HoldsOfIdioms (R : Execution → Execution → Prop) : Prop extends HoldsOfOperands R where
  relates_nodeOfLabel : ∀ label, Relates R (GraphM.create (·.nodeOfLabel label) : ExecutionM NodeId)
  relates_mergeHere : Relates R (here >>= mergeBefore)
  relates_joinBranches : Relates R joinBranches
  relates_foldAssertion : ∀ thrown, Relates R (foldAssertion thrown)
  relates_foldBooleanReturn : Relates R foldBooleanReturn
  relates_openAssertion : Relates R openAssertion

open HoldsOfOperands HoldsOfIdioms

variable {α β : Type} {R : Execution → Execution → Prop}

section Operands

variable [HoldsOfOperands R]

namespace Relates

variable {step other : ExecutionM α} {next : α → ExecutionM β}

theorem pure (value : α) : Relates R (Pure.pure value : ExecutionM α) := fun _ state _ _ hRun => by
  cases hRun
  exact stay (.refl _) rfl

theorem bind (first : Relates R step) (second : ∀ value, Relates R (next value)) : Relates R (step >>= next) :=
  fun setting state _ _ hRun => by
    obtain ⟨value, middle, hFirst, hSecond⟩ := run_bind_ok hRun
    exact trans (first setting state value middle hFirst) (second value setting middle _ _ hSecond)

theorem compositional : Compositional (@Relates R) := ⟨pure, bind⟩

omit [HoldsOfOperands R] in
theorem ite {condition : Prop} [Decidable condition] (first : Relates R step) (second : Relates R other) :
    Relates R (if condition then step else other) := by
  split
  · exact first
  · exact second

theorem get : Relates R (MonadState.get : ExecutionM Execution) := fun _ state _ _ hRun => by
  cases hRun
  exact stay (.refl _) rfl

theorem read : Relates R (MonadReader.read : ExecutionM Setting) := fun _ state _ _ hRun => by
  cases hRun
  exact stay (.refl _) rfl

/-- A change that leaves the layout and the current node alone. -/
theorem change {change : Execution → Execution}
    (hChange : ∀ state, SameLayout state.graph (change state).graph ∧ (change state).current = state.current) :
    Relates R (modify change : ExecutionM Unit) := fun _ state _ _ hRun => by
  cases hRun
  exact stay (hChange state).1 (hChange state).2

/-- A change beside the graph and the current node. -/
theorem note {change : Execution → Execution}
    (hKeep : ∀ state, ((change state).graph, (change state).current) = (state.graph, state.current)) :
    Relates R (modify change : ExecutionM Unit) := .change fun state => by
  obtain ⟨hGraph, hCurrent⟩ := Prod.mk.inj (hKeep state)
  exact ⟨hGraph ▸ .refl state.graph, hCurrent⟩

/-- A change of the graph beside its layout. -/
theorem changeGraph {change : Graph → Graph} (hChange : ∀ graph, SameLayout graph (change graph)) :
    Relates R (Execution.changeGraph change) := .change fun state => ⟨hChange state.graph, rfl⟩

/-- A step of the graph. -/
theorem graph {step : GraphM α} (stays : Stays step) : Relates R (step : ExecutionM α) := fun _ state _ _ hRun => by
  cases hRun
  exact stay (stays state.graph) rfl

/-- A step of the supply. -/
theorem supply (step : SupplyM α) : Relates R (step : ExecutionM α) := fun _ state _ _ hRun => by
  cases hRun
  exact stay (.supply _ _) rfl

omit [HoldsOfOperands R] in
/-- A failed step has no end to relate. -/
theorem throw (error : Error) : Relates R (MonadExcept.throw error : ExecutionM α) := fun _ _ _ _ hRun => by
  cases hRun

omit [HoldsOfOperands R] in
/-- A step that may know the state that it looks at. -/
theorem look {next : Execution → ExecutionM β}
    (second : ∀ setting state value after, (next state setting).run.run state = (.ok value, after) → R state after) :
    Relates R (MonadState.get >>= next) := fun setting state value after hRun => second setting state value after hRun

end Relates

/-! ### The operand stack -/

omit [HoldsOfOperands R] in
theorem relates_refuse (fault : IdiomFault) : Relates R (refuse fault : ExecutionM α) := fun _ _ _ _ hRun =>
  (run_refuse_ne hRun).elim

theorem relates_node (id : NodeId) : Relates R (node id) := Relates.get.bind fun _ => .pure _

/-- The history of instructions is kept beside the graph. -/
theorem relates_record (op : Opcode) : Relates R (record op) :=
  (Relates.compositional.map relates_here _).bind fun _ => .note fun _ => rfl

theorem relates_endsIn (template : List Pattern) : Relates R (endsIn template) := Relates.get.bind fun _ => .pure _

theorem relates_push (operand : Operand) : Relates R (push operand) :=
  relates_here.bind fun here => .changeGraph fun graph => .push graph here operand

theorem relates_pushStatement (operand : Operand) : Relates R (pushStatement operand) := relates_push _

/-- An operand is popped from the node that holds it, or the unit fails. -/
theorem relates_pop (depth : Nat) : Relates R (pop depth) := by
  refine relates_here.bind fun here => .look fun setting state value after hRun => ?_
  cases hPopped : state.graph.pop? here depth with
  | some taken =>
      rw [hPopped] at hRun
      cases hRun
      exact stay (.pop? hPopped) rfl
  | none =>
      rw [hPopped] at hRun
      exact relates_refuse _ _ _ _ _ hRun

/-- An operand is taken out of the stack from any depth, or the unit fails. -/
theorem relates_take (depth : Nat) : Relates R (take depth) := by
  refine relates_here.bind fun here => .look fun setting state value after hRun => ?_
  cases hTaken : state.graph.take? here depth with
  | some taken =>
      rw [hTaken] at hRun
      cases hRun
      exact stay (.take? hTaken) rfl
  | none =>
      rw [hTaken] at hRun
      exact relates_refuse _ _ _ _ _ hRun

theorem relates_peek? (depth : Nat) : Relates R (peek? depth) := Relates.get.bind fun _ => .pure _

theorem relates_changeEntry (depth : Nat) (change : Operand → Operand) : Relates R (changeEntry depth change) :=
  relates_here.bind fun here => .changeGraph fun graph => .changeEntry graph here depth change

theorem relates_typeOf (operand : Operand) : Relates R (typeOf operand) := Relates.get.bind fun _ => .pure _

theorem relates_recordNode (phase : Phase) (id : NodeId) : Relates R (recordNode phase id) :=
  Relates.read.bind fun _ => .ite (.note fun _ => rfl) (.pure _)

/-- Arguments are popped from the last to the first. -/
theorem relates_popArguments (parameters : List JvmType) : Relates R (popArguments parameters) := by
  refine (Relates.compositional.mapM (fun type => ?_) _).bind fun _ => .pure _
  exact (relates_pop 0).bind fun _ => .supply _

/-! ### Idioms -/

/-- A switch expression takes the place of its switch by changes to operands. -/
theorem relates_joinSwitch : Relates R joinSwitch := by
  refine Relates.get.bind fun state => ?_
  dsimp only
  split
  · rename_i here id table _ _
    have hJoined : ∀ type : TypeRef, Relates R (do
        let value ← Operand.make (.switch table.head) type
        modify fun state =>
          { state with
            graph := (state.graph.push here value).update here fun node =>
              { node with yieldConvergence := true }
            switches := state.switches.set id { table with expression := true } }) :=
      fun type => (Relates.supply _).bind fun value =>
        .change fun state => ⟨(SameLayout.push state.graph here value).trans (.update _ here _ fun _ => rfl), rfl⟩
    split
    · refine Relates.read.bind fun setting => .ite ?_ (.pure _)
      refine (Relates.compositional.allM (fun source => .graph (.ask (onlyAsks_yieldsValue _ _ _ source))) _).bind ?_
      refine fun yields => .ite ?_ (.pure _)
      refine (Relates.compositional.filterMapM (fun source => .graph (stays_yieldTop source)) _).bind fun types => ?_
      split
      · exact (Relates.pure _).bind hJoined
      · exact (Relates.supply _).bind hJoined
    · exact .pure _
  · exact .pure _

theorem relates_returnsConstants (first second : Opcode) : Relates R (returnsConstants first second) :=
  (relates_endsIn _).bind fun _ => .ite (.pure _) (relates_endsIn _)

theorem relates_endsInStep (template : List Pattern) : Relates R (endsInStep template) :=
  (relates_endsIn _).bind fun _ => .ite (.pure _) (relates_endsIn _)

theorem relates_incrementOrder? (after before : List Pattern) : Relates R (incrementOrder? after before) :=
  (relates_endsInStep _).bind fun _ => .ite (.pure _) ((relates_endsInStep _).bind fun _ => .ite (.pure _) (.pure _))

/-- The increment takes the place of the loaded local and the sum over it. -/
theorem relates_foldLocalIncrement (op : Opcode) (slot : UInt16) : Relates R (foldLocalIncrement op slot) := by
  unfold foldLocalIncrement
  split
  case h_4 => exact .pure _
  all_goals
    refine (relates_endsInStep _).bind fun _ => .ite (.pure _) (Relates.get.bind fun state => ?_)
    refine (Relates.supply _).bind fun found => (Relates.note ?_).bind fun _ => ?_
    · exact fun _ => rfl
    refine (relates_peek? 1).bind fun below => (relates_peek? 0).bind fun top => ?_
    split
    · refine .ite (.pure _) ((Relates.compositional.map (relates_take 0) _).bind fun _ =>
        (relates_take 0).bind fun loaded => ?_)
      exact (Relates.supply _).bind fun _ => (relates_push _).bind fun _ => .pure _
    · exact .pure _

/-- An increment of a field takes its reads off the stack. -/
theorem relates_foldFieldIncrement (type : JvmType) : Relates R (foldFieldIncrement type) := by
  refine (relates_incrementOrder? _ _).bind fun order => (relates_peek? 0).bind fun top => ?_
  split
  · refine (relates_take 0).bind fun value => (Relates.compositional.map (relates_pop 0) _).bind fun _ => ?_
    split
    · exact (Relates.supply _).bind fun _ => (Relates.supply _).bind fun _ => (relates_push _).bind fun _ => .pure _
    · exact .pure _
  · exact .pure _

theorem relates_foldStaticIncrement (field : Operand) : Relates R (foldStaticIncrement field) := by
  refine (relates_incrementOrder? _ _).bind fun order => (relates_peek? 0).bind fun top => ?_
  split
  · refine (Relates.compositional.map (relates_take 0) _).bind fun _ => ?_
    extract_lets rest
    have hRest : ∀ taken, Relates R (rest taken) := fun _ =>
      (Relates.supply _).bind fun _ => (relates_push _).bind fun _ => .pure _
    exact .ite ((Relates.compositional.map (relates_take 0) _).bind hRest) (hRest ())
  · exact .pure _

/-- An increment of an element takes the array and the index off the stack. -/
theorem relates_foldElementIncrement : Relates R foldElementIncrement := by
  refine (relates_incrementOrder? _ _).bind fun order => (relates_peek? 0).bind fun top => ?_
  split
  · refine (relates_take 0).bind fun value => ?_
    extract_lets rest
    have hRest : ∀ taken, Relates R (rest taken) := by
      refine fun _ => (Relates.compositional.map (relates_pop 0) _).bind fun _ => ?_
      refine (Relates.compositional.map (relates_pop 0) _).bind fun _ => ?_
      split
      · exact (Relates.supply _).bind fun _ => (relates_push _).bind fun _ => .pure _
      · exact .pure _
    exact .ite ((Relates.compositional.map (relates_take 0) _).bind hRest) (hRest ())
  · exact .pure _

/-- An assignment is a new operand, compound if it reads what it writes. -/
theorem relates_assignment (target value : Operand) (asValue : Bool) : Relates R (assignment target value asValue) := by
  refine Relates.read.bind fun setting => ?_
  dsimp only
  split
  · exact .supply _
  · refine (relates_typeOf target).bind fun type => ?_
    split
    · exact .ite (.supply _) (.supply _)
    · exact .supply _

/-- The current node goes on to the one of the next label. -/
theorem relates_fallInto (next : NodeId) : Relates R (fallInto next) := by
  refine Relates.get.bind fun state => ?_
  split
  · rename_i current _
    refine .ite (.changeGraph fun graph => ?_) (.pure _)
    exact (SameLayout.connect graph current next).trans (.setDestination _ current _)
  · exact .pure _

end Operands

section Idioms

variable [HoldsOfIdioms R]

/-! ### Frames and debug information -/

/-- A frame is where idioms join values and conditions, and nothing beside them. -/
theorem relates_frame (kind : FrameKind) (locals stack : UInt16) : Relates R (frame kind locals stack) := by
  refine (relates_record _).bind fun _ => ?_
  cases kind with
  | full => exact relates_joinBranches.bind fun _ => .ite relates_joinSwitch (.pure _)
  | same => exact .ite (relates_joinBranches.bind fun _ => relates_mergeHere) (.pure _)
  | same1 => exact .ite (relates_joinBranches.bind fun _ => relates_joinSwitch) (.pure _)
  | new | append | chop => exact .pure _

theorem relates_lineNumber (line : UInt32) (label : Label) : Relates R (lineNumber line label) := by
  refine (relates_nodeOfLabel label).bind fun id => .changeGraph fun graph => ?_
  exact .update graph id _ fun _ => rfl

/-- The name of a local goes to the table of locals. -/
theorem relates_localName (slot : UInt16) (name descriptor : String) : Relates R (localName slot name descriptor) := by
  refine Relates.get.bind fun state => (Relates.supply _).bind fun locals => .note ?_
  exact fun _ => rfl

/-! ### Instructions without operands -/

theorem relates_elementTypeOf (array : Operand) : Relates R (elementTypeOf array) :=
  (relates_typeOf array).bind fun _ => .pure _

theorem relates_markDuplicated (depth : Nat) : Relates R (markDuplicated depth) :=
  (Relates.compositional.map relates_here _).bind fun _ => (relates_peek? depth).bind fun _ =>
    (relates_changeEntry depth _).bind fun _ => .pure _

/-- A copy is a mark on the entry, not an entry of its own. -/
theorem relates_duplicate (op : Opcode) : Relates R (duplicate op) := by
  refine (relates_endsIn _).bind fun created => .ite (.pure _) ((relates_markDuplicated 0).bind fun found => ?_)
  extract_lets copyBelow copy
  have hBelow : ∀ wide, Relates R (copyBelow wide) := fun wide =>
    .ite (.pure _) (Relates.compositional.map (relates_markDuplicated 1) _)
  have hCopy : ∀ refused, Relates R (copy refused) := by
    refine fun _ => .ite ((relates_peek? 0).bind fun top => ?_) (.pure _)
    split
    · exact (relates_typeOf _).bind fun type => (Relates.pure _).bind hBelow
    · exact (Relates.pure _).bind hBelow
  exact .ite ((relates_refuse _).bind hCopy) (hCopy ())

/-- A value that is dropped stays as a statement, unless it was a check that the compiler inserted. -/
theorem relates_popStatement : Relates R popStatement := by
  refine relates_here.bind fun here => (relates_peek? 0).bind fun top => Relates.get.bind fun state => .ite (.pure _) ?_
  refine (relates_endsIn _).bind fun _ => (relates_pop 0).bind fun value => .ite (.pure _) (relates_pushStatement value)

theorem relates_applyBinary (operator : BinaryOperator) (type : JvmType) : Relates R (applyBinary operator type) := by
  refine (relates_pop 0).bind fun right => (relates_pop 0).bind fun left => ?_
  refine (relates_typeOf left).bind fun _ => (relates_typeOf right).bind fun _ => ?_
  exact .ite ((Relates.supply _).bind relates_push) ((Relates.supply _).bind relates_push)

/-- A cast is pushed over the value that was popped. -/
theorem relates_pushCast (value : Operand) (type : JvmType) : Relates R (pushCast value type) := by
  unfold pushCast
  extract_lets character
  cases character
  · exact (Relates.supply _).bind relates_push
  · exact (Relates.supply _).bind relates_push

theorem relates_pushWidened (value : Operand) (type : JvmType) : Relates R (pushWidened value type) := relates_push _

theorem relates_loadElement (op : Opcode) : Relates R (loadElement op) := by
  refine (relates_pop 0).bind fun index => (relates_pop 0).bind fun array => ?_
  split
  · exact (Relates.pure _).bind fun _ => (Relates.supply _).bind relates_push
  · exact (relates_elementTypeOf array).bind fun _ => (Relates.supply _).bind relates_push

theorem relates_pushAssignment (assignment : Operand) (asValue : Bool) : Relates R (pushAssignment assignment asValue) :=
  .ite (relates_push _) (relates_pushStatement _)

theorem relates_assign (target value : Operand) (asValue : Bool) : Relates R (assign target value asValue) :=
  (relates_assignment target value asValue).bind fun assignment => relates_pushAssignment assignment asValue

/-- A store may be an increment, the next element of a new array, or an assignment. -/
theorem relates_storeElement (op : Opcode) : Relates R (storeElement op) := by
  refine relates_foldElementIncrement.bind fun folded => .ite (.pure _) ((relates_take 0).bind fun value => ?_)
  extract_lets store
  have hStore : ∀ value, Relates R (store value) := by
    refine fun value => (relates_pop 0).bind fun index => (Relates.compositional.map relates_here _).bind fun _ => ?_
    refine (relates_peek? 0).bind fun top => ?_
    split
    · exact relates_changeEntry _ _
    · refine (relates_pop 0).bind fun array => (relates_elementTypeOf array).bind fun type => ?_
      exact (Relates.supply _).bind fun target => relates_assign _ _ _
  split
  · exact (Relates.supply _).bind hStore
  · refine (relates_peek? 1).bind fun array => ?_
    split
    · exact (relates_elementTypeOf _).bind fun type => .ite ((Relates.supply _).bind hStore) ((Relates.pure _).bind hStore)
    · exact (Relates.pure _).bind hStore
  · exact (Relates.pure _).bind hStore

/-- A return is a statement of the current node. -/
theorem relates_returnValue (op : Opcode) : Relates R (returnValue op) := by
  refine relates_here.bind fun start => ?_
  extract_lets finish rest
  have hFinish : ∀ pushed, Relates R (finish pushed) := fun _ =>
    Relates.get.bind fun state => .changeGraph fun graph => .setDestination graph _ _
  have hRest : ∀ folded, Relates R (rest folded) := fun _ =>
    Relates.get.bind fun state => (relates_pop 0).bind fun value => (Relates.supply _).bind fun value =>
      (Relates.supply _).bind fun returned => (relates_pushStatement returned).bind hFinish
  refine .ite ((Relates.supply _).bind fun returned => (relates_pushStatement returned).bind hFinish) ?_
  exact .ite (relates_foldBooleanReturn.bind hRest) (hRest ())

theorem relates_throwValue : Relates R throwValue := by
  refine (relates_pop 0).bind fun value => (relates_foldAssertion value).bind fun folded => .ite (.pure _) ?_
  refine (Relates.supply _).bind fun thrown => (relates_pushStatement _).bind fun _ => relates_here.bind fun here => ?_
  exact .changeGraph fun graph => .setDestination graph here _

/-- Instructions without operands of their own, case by case. -/
theorem relates_plain (op : Opcode) : Relates R (plain op) := by
  refine (relates_record op).bind fun _ => ?_
  split
  · exact (Relates.supply _).bind relates_push
  · exact relates_applyBinary _ _
  · exact (relates_take 0).bind fun value => relates_pushWidened value _
  · exact (relates_pop 0).bind fun value => relates_pushCast value _
  · split
    case h_1 | h_5 | h_6 | h_16 | h_17 | h_18 | h_19 | h_20 => exact .pure _
    case h_2 => exact (Relates.supply _).bind relates_push
    case h_3 | h_4 => exact relates_duplicate _
    case h_7 | h_8 => exact (relates_markDuplicated 0).bind fun _ => .ite (relates_refuse _) (.pure _)
    case h_9 =>
      exact (relates_take 0).bind fun top => (relates_take 0).bind fun below =>
        (relates_push top).bind fun _ => relates_push below
    case h_10 | h_11 => exact relates_popStatement
    case h_12 | h_13 | h_14 | h_15 | h_21 => exact (relates_pop 0).bind fun _ => (Relates.supply _).bind relates_push
    case h_22 => exact relates_throwValue
    case h_23 | h_24 => exact Relates.compositional.map (relates_pop 0) _
    case h_25 =>
      exact .ite (relates_loadElement _) (.ite (relates_storeElement _) (.ite (relates_returnValue _) (relates_refuse _)))

/-! ### Instructions with operands -/

theorem relates_int (op : Opcode) (operand : Int32) : Relates R (int op operand) := by
  refine (relates_record op).bind fun _ => ?_
  split
  · exact (Relates.supply _).bind relates_push
  · exact (Relates.supply _).bind relates_push
  · have hArray : ∀ element, Relates R (do
        let size ← pop 0
        push (← newArray element size)) := fun element =>
      (relates_pop 0).bind fun size => (Relates.supply _).bind relates_push
    exact .ite ((relates_refuse _).bind fun _ => hArray _) (hArray _)
  · exact relates_refuse _

theorem relates_constant (value : Constant) : Relates R (constant value) := by
  refine (relates_record _).bind fun _ => ?_
  cases value <;> exact (Relates.supply _).bind relates_push

/-- A step of the table of locals, which may make identities. -/
theorem relates_withVariables (step : LocalVariables → SupplyM (α × LocalVariables)) : Relates R (withVariables step) := by
  refine Relates.get.bind fun state => (Relates.supply _).bind fun found => (Relates.note ?_).bind fun _ => .pure _
  exact fun _ => rfl

/-- A load after an increment of the local takes the increment as its value. -/
theorem relates_reuseIncrement (op : Opcode) (slot : UInt16) : Relates R (reuseIncrement op slot) := by
  refine (relates_endsIn _).bind fun ends => Relates.get.bind fun state => .ite (.pure _) ?_
  refine (relates_withVariables _).bind fun id => (Relates.compositional.map relates_here _).bind fun _ => ?_
  refine (relates_peek? 0).bind fun top => ?_
  split
  · exact .ite ((relates_changeEntry 0 _).bind fun _ => .pure _) (.pure _)
  · exact .pure _

theorem relates_loadLocal (op : Opcode) (slot : UInt16) : Relates R (loadLocal op slot) := by
  refine (relates_reuseIncrement op slot).bind fun reused => .ite (.pure _) ?_
  exact (relates_withVariables _).bind relates_push

/-- The store that begins a handler tells its region which local is caught. -/
theorem relates_storeCaught (handler : NodeId) (slot : UInt16) : Relates R (storeCaught handler slot) := by
  refine (relates_withVariables _).bind fun id => Relates.get.bind fun state => .change fun state => ?_
  exact ⟨.supply _ _, rfl⟩

theorem relates_storeLocal (op : Opcode) (slot : UInt16) : Relates R (storeLocal op slot) := by
  refine relates_here.bind fun here => (relates_peek? 0).bind fun top => Relates.get.bind fun state => ?_
  refine .ite (relates_storeCaught here slot) ((relates_foldLocalIncrement op slot).bind fun folded => .ite ?_ (.pure _))
  refine (relates_take 0).bind fun value => (relates_withVariables _).bind fun target => ?_
  refine (relates_typeOf target).bind fun type => ?_
  exact (Relates.supply _).bind fun stored => relates_assign target stored _

theorem relates_var (op : Opcode) (slot : UInt16) : Relates R (var op slot) := by
  refine (relates_record op).bind fun _ => (Relates.note ?_).bind fun _ => ?_
  · exact fun _ => rfl
  · exact .ite (relates_loadLocal op slot) (.ite (relates_storeLocal op slot) (relates_refuse _))

theorem relates_changeLocal (target : Operand) (amount : Int32) (after : Bool) :
    Relates R (changeLocal target amount after) := by
  unfold changeLocal
  split
  · refine .ite ((relates_pop 0).bind fun loaded => (Relates.supply _).bind relates_push) ?_
    exact (Relates.supply _).bind relates_pushStatement
  · exact (Relates.supply _).bind fun value => (Relates.supply _).bind relates_pushStatement

/-- An increment changes the local after the load before it, or is a statement. -/
theorem relates_iinc (slot : UInt16) (amount : Int32) : Relates R (iinc slot amount) := by
  refine (relates_record _).bind fun _ => (Relates.note ?_).bind fun _ => (relates_withVariables _).bind fun id => ?_
  · exact fun _ => rfl
  · refine Relates.get.bind fun state => (Relates.supply _).bind fun target => (relates_peek? 0).bind fun top => ?_
    exact (relates_endsIn _).bind fun ends => Relates.get.bind fun state => relates_changeLocal target amount _

/-- A member that is not known fails the unit. -/
theorem relates_resolve (step : Symbols → Except Error α) : Relates R (resolve step) := by
  refine Relates.read.bind fun setting => ?_
  split
  · exact .pure _
  · exact .throw _

/-- Reads and writes of fields pop what they need. -/
theorem relates_accessField (op : Opcode) (name : MemberName) : Relates R (accessField op name) := by
  refine (relates_record op).bind fun _ => (relates_resolve _).bind fun member => ?_
  split
  · exact (Relates.supply _).bind relates_push
  · exact (relates_pop 0).bind fun receiver => (Relates.supply _).bind relates_push
  · refine (relates_foldFieldIncrement _).bind fun folded => .ite (.pure _) ((relates_take 0).bind fun value => ?_)
    refine (relates_pop 0).bind fun receiver => (relates_endsIn _).bind fun ends => (Relates.supply _).bind fun stored => ?_
    exact (Relates.supply _).bind fun target => relates_assign target stored _
  · refine (Relates.supply _).bind fun field => (relates_foldStaticIncrement field).bind fun folded => .ite (.pure _) ?_
    refine (relates_take 0).bind fun value => (Relates.supply _).bind fun stored => ?_
    exact (Relates.supply _).bind fun target => relates_assign target stored _
  · exact relates_refuse _

theorem relates_field (op : Opcode) (name : MemberName) : Relates R (field op name) := by
  refine .ite (.note ?_) (relates_accessField op name)
  exact fun _ => rfl

/-- A constructor completes a new object, or it is called on the instance under construction. -/
theorem relates_construct (name : MemberName) (arguments : List Operand) : Relates R (construct name arguments) := by
  refine (relates_pop 0).bind fun receiver => Relates.get.bind fun state => ?_
  split
  · exact (Relates.supply _).bind relates_push
  · have hCalled : Relates R (do
        if name.owner = "java/lang/Object" && arguments.isEmpty then return
        let kind : ConstructorKind := if name.owner = state.owner then .this else .super
        pushStatement (← Operand.typed (.construct name.owner name.descriptor kind arguments) .void)) :=
      .ite (.pure _) ((Relates.supply _).bind relates_pushStatement)
    exact .ite ((relates_refuse _).bind fun _ => hCalled) hCalled
  · exact relates_refuse _

/-- A call pops its arguments and its receiver, and pushes its value or becomes a statement. -/
theorem relates_method (op : Opcode) (name : MemberName) : Relates R (method op name) := by
  refine (relates_record op).bind fun _ => (relates_resolve _).bind fun member => ?_
  refine (relates_popArguments _).bind fun arguments => ?_
  extract_lets call
  have hCall : ∀ receiver special, Relates R (call receiver special) := fun receiver special =>
    (Relates.supply _).bind fun result => .ite (relates_pushStatement result) (relates_push result)
  split
  · exact hCall _ _
  · exact (relates_pop 0).bind fun receiver => hCall _ _
  · exact (relates_pop 0).bind fun receiver => hCall _ _
  · refine .ite (relates_construct name arguments) ((relates_pop 0).bind fun receiver => ?_)
    exact Relates.get.bind fun state => hCall _ _
  · exact relates_refuse _

/-- A call site is a concatenation, or a function with what it captures. -/
theorem relates_invokeDynamic (name descriptor : String) (bootstrap : MemberName) (implementation : Option MemberName)
    (recipe : Option String) : Relates R (invokeDynamic name descriptor bootstrap implementation recipe) := by
  refine (relates_record _).bind fun _ => ?_
  split
  · exact .throw _
  · refine (relates_popArguments _).bind fun captures => ?_
    split
    · exact (Relates.graph (stays_concatenation captures recipe)).bind relates_push
    · exact (Relates.supply _).bind relates_push
    · exact relates_refuse _

theorem relates_type (op : Opcode) (descriptor : String) : Relates R (type op descriptor) := by
  refine (relates_record op).bind fun _ => ?_
  dsimp only
  split
  · have hPush : Relates R (do push (← Operand.typed (.uninitialized descriptor) (JvmType.ofInternalName descriptor))) :=
      (Relates.supply _).bind relates_push
    refine Relates.get.bind fun state =>
      .ite ((Relates.note ?_).bind fun _ => relates_openAssertion.bind fun _ => hPush) hPush
    exact fun _ => rfl
  · exact (relates_pop 0).bind fun size => (Relates.supply _).bind relates_push
  · exact (relates_pop 0).bind fun value => (Relates.supply _).bind relates_push
  · exact (relates_pop 0).bind fun value => (Relates.supply _).bind relates_push
  · exact relates_refuse _

theorem relates_multiNewArray (descriptor : String) (dimensions : UInt8) :
    Relates R (multiNewArray descriptor dimensions) := by
  refine (relates_record _).bind fun _ => ?_
  split
  · exact .throw _
  · exact (Relates.compositional.mapM (fun _ => relates_pop 0) _).bind fun sizes => (Relates.supply _).bind relates_push

/-! ### Control -/

/-- Whether a jump compares with zero or with another operand is told by the instruction. -/
theorem relates_comparesTwo (op : Opcode) : Relates R (comparesTwo op) := Relates.get.bind fun _ => .pure _

theorem relates_comparand (op : Opcode) (value : Operand) : Relates R (comparand op value) :=
  .ite (.supply _) ((relates_typeOf value).bind fun _ => .ite (.supply _) (.supply _))

/-- A conditional jump connects its node to the target and leaves a condition behind. -/
theorem relates_branch (op : Opcode) (label : Label) : Relates R (branch op label) := by
  refine (relates_record op).bind fun _ => (relates_nodeOfLabel label).bind fun target => relates_here.bind fun here => ?_
  refine .ite (.changeGraph fun graph => ?_) (.ite (relates_refuse _) ((relates_pop 0).bind fun last => ?_))
  · exact ((SameLayout.pin graph here).trans (.connect _ here target)).trans (.setDestination _ here _)
  · extract_lets finish
    have hFinish : ∀ pair, Relates R (finish pair) := fun pair =>
      (Relates.supply _).bind fun _ => (Relates.supply _).bind fun compared => (relates_push compared).bind fun _ =>
        .changeGraph fun graph => .connect graph here target
    refine (relates_comparesTwo op).bind fun two => .ite ?_ ?_
    · exact (relates_pop 0).bind fun left => (Relates.pure _).bind hFinish
    · exact (relates_comparand op last).bind fun right => (Relates.pure _).bind hFinish

/-- A jump connects its node to the target and ends it. -/
theorem relates_jump (op : Opcode) (label : Label) : Relates R (jump op label) := by
  refine Relates.get.bind fun state => .ite (.note ?_) (relates_branch op label)
  exact fun _ => rfl

/-- A switch connects its node to the nodes of all labels. -/
theorem relates_switch (default : Label) (keys : List Int32) (targets : List Label) :
    Relates R (switch default keys targets) := by
  refine (relates_record _).bind fun _ => ?_
  extract_lets rest
  have hRest : ∀ checked, Relates R (rest checked) := by
    refine fun _ => (relates_take 0).bind fun selector => relates_here.bind fun head =>
      (relates_push selector).bind fun _ => ?_
    refine (relates_nodeOfLabel default).bind fun default => ?_
    refine (Relates.compositional.mapM (fun label => relates_nodeOfLabel label) targets).bind fun targets => ?_
    refine (Relates.compositional.forIn (fun target _ => ?_) _ _).bind fun _ => .change fun state => ?_
    · refine (Relates.changeGraph fun graph => ?_).bind fun _ => .pure _
      exact (SameLayout.connect graph head target).trans (.pin _ target)
    · exact ⟨(SameLayout.setDestination state.graph head _).trans (.update _ head _ (by exact fun _ => rfl)), rfl⟩
  exact .ite ((relates_refuse _).bind hRest) (hRest ())

/-- An entry of the exception table makes the nodes of its labels and adds to the regions. -/
theorem relates_tryCatch (start stop handler : Label) (exception : Option String) :
    Relates R (tryCatch start stop handler exception) := by
  refine (relates_nodeOfLabel start).bind fun start => (relates_nodeOfLabel stop).bind fun stop => ?_
  refine (relates_nodeOfLabel handler).bind fun handler => .change fun state => ?_
  exact ⟨.addRegion state.regions state.graph start stop handler exception, rfl⟩

/-- Every event other than a label. -/
theorem relates_accept (event : Event) (hLabel : ∀ id, event = .label id → Relates R (label id)) :
    Relates R (accept event) := by
  cases event with
  | label id => exact hLabel id rfl
  | insn op => exact relates_plain op
  | int op operand => exact relates_int op operand
  | ldc value => exact relates_constant value
  | var op slot => exact relates_var op slot
  | iinc slot amount => exact relates_iinc slot amount
  | field op name => exact relates_field op name
  | method op name => exact relates_method op name
  | invokeDynamic name descriptor bootstrap implementation recipe =>
      exact relates_invokeDynamic name descriptor bootstrap implementation recipe
  | type op descriptor => exact relates_type op descriptor
  | multiNewArray descriptor dimensions => exact relates_multiNewArray descriptor dimensions
  | jump op target => exact relates_jump op target
  | switch default keys targets => exact relates_switch default keys targets
  | tryCatch start stop handler exception => exact relates_tryCatch start stop handler exception
  | lineNumber line label => exact relates_lineNumber line label
  | localVariable slot name descriptor => exact relates_localName slot name descriptor
  | frame kind locals stack => exact relates_frame kind locals stack

end Idioms

end Execution

end Decompiler
