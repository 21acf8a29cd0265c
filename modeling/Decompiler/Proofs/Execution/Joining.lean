import Decompiler.Proofs.Execution.Anchored
import Decompiler.Proofs.Execution.Block
import Decompiler.Proofs.Execution.Conditional
import Decompiler.Proofs.Graph.Topmost

/-!
How the values of two-way branches are joined. The last three operands of all, a condition and two values, become one
conditional expression in the node of the condition. All other operands stay in their nodes, in their order. Every step
leaves two operands less, so there is a last one.
-/

namespace Decompiler.Execution

open Decompiler.Graph

variable {setting : Setting} {state after : Execution} {pending : List Label} {before now later : Graph}
  {here holder id : NodeId} {place : Branches} {gone ids others : List NodeId}

/-! ### Empty nodes -/

/-- Nodes without operands are gone. The others hold what they held, up to targets. -/
structure Emptied (holder : NodeId) (gone : List NodeId) (before after : Graph) : Prop where
  order : after.order = before.order.filter (· ∉ gone)
  bare : ∀ id ∈ gone, (before.node id).stack = [] ∧ id ≠ holder
  holds : ∀ id, SameOperands gone (before.node id).stack (after.node id).stack
  operands : SameOperands gone before.operands after.operands

namespace Emptied

theorem refl (holder : NodeId) (graph : Graph) : Emptied holder [] graph graph :=
  ⟨by simp, nofun, fun _ => .refl _ _, .refl _ _⟩

theorem disposeOne (emptied : Emptied holder gone before now) (linked : Linked now) (hPlaced : id ∈ now.order)
    (hEmpty : (now.node id).stack = []) (hOther : id ≠ holder) :
    Emptied holder (gone ++ [id]) before (now.disposeOne id false) where
  order := by rw [filter_disposeOne linked, emptied.order, filter_notMem_append]
  bare other hGone := by
    rcases List.mem_append.mp hGone with hBefore | hNow
    · exact emptied.bare other hBefore
    · obtain rfl := List.mem_singleton.mp hNow
      exact ⟨List.forall₂_nil_right_iff.mp (hEmpty ▸ emptied.holds other), hOther⟩
  holds other := ((emptied.holds other).mono (List.subset_append_left _ _)).trans
    ((sameOperands_disposeEmpty linked hPlaced hEmpty other).mono (List.subset_append_right _ _))
  operands := (emptied.operands.mono (List.subset_append_left _ _)).trans
    ((sameOperands_disposeOne linked hPlaced (.inr hEmpty)).mono (List.subset_append_right _ _))

end Emptied

/-! ### One step -/

/-- A condition and the two values after it become a conditional expression in the node of the condition. They are the
last operands of all, and the condition jumps to the node of the second value. -/
structure Joining (place : Branches) (before after : Graph) where
  test : Operand
  first : Operand
  second : Operand
  /-- What each node keeps of its operands. -/
  kept : NodeId → List Operand
  gone : List NodeId
  jumps : ∃ target, test.condition?.bind Condition.onTrue = some target ∧ place.right ∈ emptyChain before target
  left : (before.node place.left).stack.getLast? = some first
  right : (before.node place.right).stack.getLast? = some second
  starts : ∀ id, kept id <+: (before.node id).stack
  operands : before.operands = before.order.flatMap kept ++ [test, first, second]
  order : after.order = before.order.filter (· ∉ gone)
  bare : ∀ id ∈ gone, kept id = [] ∧ id ≠ place.holder
  holds : ∀ id, SameOperands gone
    (if id = place.holder then kept id ++ [((conditional test first second).run before.supply).1] else kept id)
    (after.node id).stack
  joined : SameOperands gone (before.order.flatMap kept ++ [((conditional test first second).run before.supply).1])
    after.operands

namespace Joining

/-- What the condition and the values become. -/
def expression (joining : Joining place before later) : Operand :=
  ((conditional joining.test joining.first joining.second).run before.supply).1

/-- The expression is the second value where the condition jumps, and the first one where it does not. -/
theorem value_expression (joining : Joining place before later) {σ α : Type} {valuation : Valuation σ α}
    (negates : valuation.decision.Negates) (hFirst : valuation.ReadsBit joining.first)
    (hSecond : valuation.ReadsBit joining.second) :
    joining.expression.value valuation = (do
      if ← joining.test.truth valuation.decision then joining.second.value valuation
      else joining.first.value valuation) :=
  value_conditional negates hFirst hSecond joining.test before.supply

/-- Two operands less are left. -/
theorem length_operands (joining : Joining place before later) :
    later.operands.length + 2 = before.operands.length := by
  have hAfter := joining.joined.length_eq
  have hBefore := congrArg List.length joining.operands
  simp only [List.length_append, List.length_cons, List.length_nil] at hAfter hBefore
  omega

end Joining

/-- A condition and two values on the top of the stack at a node. They are taken one after the other. -/
structure Taken (graph : Graph) (here : NodeId) (place : Branches) where
  test : Operand
  first : Operand
  second : Operand
  less : Graph
  fewer : Graph
  rest : Graph
  takeSecond : graph.take? here 0 = some (second, less)
  takeFirst : less.take? here 0 = some (first, fewer)
  takeTest : fewer.take? here 0 = some (test, rest)
  peeked : graph.peek? here 2 = some test
  left : (graph.node place.left).stack.getLast? = some first
  right : (graph.node place.right).stack.getLast? = some second
  supply : rest.supply = graph.supply
  layout : SameLayout graph rest
  starts : ∀ id, (rest.node id).stack <+: (graph.node id).stack
  operands : graph.operands = rest.operands ++ [test, first, second]
  put : ∀ joined, (rest.push place.holder joined).operands = rest.operands ++ [joined]
  holds : ∀ joined id, ((rest.push place.holder joined).node id).stack =
    if id = place.holder then (rest.node id).stack ++ [joined] else (rest.node id).stack

theorem exists_taken {graph : Graph} (linked : Linked graph) (hLast : graph.order.getLast? = some here)
    (hRight : (graph.locate? here 0).map Prod.fst = some place.right)
    (hLeft : (graph.locate? here 1).map Prod.fst = some place.left)
    (hHolder : (graph.locate? here 2).map Prod.fst = some place.holder) (hApart : place.right ≠ place.left) :
    Nonempty (Taken graph here place) := by
  obtain ⟨ids, others, last⟩ := LastStack.exists_of_last linked hLast
  obtain ⟨second, hSecond, -⟩ := last.nodes.getElem?_held last.bound hRight
  obtain ⟨first, hFirst, -⟩ := last.nodes.getElem?_held last.bound hLeft
  obtain ⟨test, hTest, hPeek⟩ := last.nodes.getElem?_held last.bound hHolder
  obtain ⟨rest, hHeld⟩ : ∃ rest,
      graph.held ids = (place.right, second) :: (place.left, first) :: (place.holder, test) :: rest := by
    generalize graph.held ids = held at hSecond hFirst hTest
    match held with
    | [] | [_] | [_, _] => simp at hTest
    | _ :: _ :: _ :: rest => exact ⟨rest, by simp_all⟩
  obtain ⟨lower, top, hHeld⟩ := last.exists_top hHeld
  have last := last.mapStack place.right fun _ => lower
  obtain ⟨lower', top', hHeld⟩ := last.exists_top hHeld
  have last := last.mapStack place.left fun _ => lower'
  obtain ⟨lower'', top'', -⟩ := last.exists_top hHeld
  refine ⟨{
    test, first, second
    less := _
    fewer := _
    rest := _
    takeSecond := top.take
    takeFirst := top'.take
    takeTest := top''.take
    peeked := hPeek
    left := by rw [← stack_mapStack_of_ne hApart fun _ => lower, top'.stack, List.getLast?_concat]
    right := by rw [top.stack, List.getLast?_concat]
    supply := rfl
    layout := (SameLayout.mapStack _ _ _).trans ((SameLayout.mapStack _ _ _).trans (.mapStack _ _ _))
    starts := fun id => (top''.starts id).trans ((top'.starts id).trans (top.starts id))
    operands := by rw [top.operands, top'.operands, top''.operands]; simp
    put := fun joined => by rw [push_mapStack, top''.put]
    holds := fun joined id => by
      rw [push_mapStack, top''.stack_put, top''.stack_taken]
      split <;> rfl }⟩

namespace Taken

variable {graph : Graph} (taken : Taken graph here place)

/-- What the operands become, and the supply after it. -/
def answer : Operand × Supply := (conditional taken.test taken.first taken.second).run taken.rest.supply

/-- The graph with the expression in place of the three operands. -/
def pushed : Graph := { taken.rest with supply := taken.answer.2 }.push place.holder taken.answer.1

theorem layout_pushed : SameLayout graph taken.pushed :=
  taken.layout.trans ((SameLayout.supply _ _).trans (.push _ _ _))

/-- The step is done when the nodes that are empty then are gone. -/
def joining (fits : place.Fits before here) (same : SameFacts before graph) (hSupply : graph.supply = before.supply)
    (emptied : Emptied place.holder gone taken.pushed later) : Joining place before later :=
  have hOrder : before.order.flatMap (fun id => (taken.rest.node id).stack) = taken.rest.operands := by
    rw [Graph.operands, taken.layout.order, same.order]
  have hAnswer : (conditional taken.test taken.first taken.second).run before.supply = taken.answer := by
    rw [answer, taken.supply, hSupply]
  { test := taken.test
    first := taken.first
    second := taken.second
    kept := fun id => (taken.rest.node id).stack
    gone
    jumps := by
      obtain ⟨target, hTarget, hReaches⟩ := fits.jumps
      rw [← same.peek?_eq, taken.peeked] at hTarget
      exact ⟨target, hTarget, hReaches⟩
    left := same.field (fun node => node.stack.getLast?) (fun _ => rfl) place.left ▸ taken.left
    right := same.field (fun node => node.stack.getLast?) (fun _ => rfl) place.right ▸ taken.right
    starts := fun id => same.field Node.stack (fun _ => rfl) id ▸ taken.starts id
    operands := by rw [hOrder, ← same.operands_eq, taken.operands]
    order := emptied.order.trans (congrArg _ (taken.layout_pushed.order.trans same.order))
    bare := fun id hId => by
      obtain ⟨hBare, hOther⟩ := emptied.bare id hId
      have hHolds := taken.holds taken.answer.1 id
      rw [if_neg hOther] at hHolds
      exact ⟨hHolds.symm.trans hBare, hOther⟩
    holds := fun id => by
      rw [hAnswer, ← taken.holds]
      exact emptied.holds id
    joined := by
      rw [hAnswer, hOrder, ← taken.put]
      exact emptied.operands }

end Taken

/-! ### Steps that come to an end -/

/-- The step gives a value, whatever the state is. -/
def Succeeds {α : Type} (step : ExecutionM α) : Prop :=
  ∀ setting state, ∃ value after, Yields setting step state value after

theorem Succeeds.compositional : Compositional @Succeeds where
  pure value _ state := ⟨value, state, rfl⟩
  bind first second setting state := by
    obtain ⟨value, middle, hFirst⟩ := first setting state
    obtain ⟨result, after, hSecond⟩ := second value setting middle
    exact ⟨result, after, hFirst.bind hSecond⟩

theorem succeeds_dispose (id : NodeId) (clearStack : Bool) : Succeeds (dispose id clearStack) :=
  fun setting _ => ⟨(), _, @run_followDisposal setting _ _ _⟩

theorem succeeds_disposeIfEmpty (here holder id : NodeId) : Succeeds (disposeIfEmpty here holder id) := by
  have hNode : Succeeds (node id) := fun _ state => ⟨state.graph.node id, state, rfl⟩
  refine Succeeds.compositional.bind hNode fun found => ?_
  split
  · exact Succeeds.compositional.bind (succeeds_dispose id false) fun _ => Succeeds.compositional.pure _
  · exact Succeeds.compositional.pure _

theorem yields_here (hCurrent : state.current = some here) : Yields setting Execution.here state here state := by
  refine (yields_get state).bind ?_
  rw [hCurrent]
  exact yields_pure here state

theorem yields_take {graph : Graph} {operand : Operand} (hCurrent : state.current = some here)
    (hTake : graph.take? here 0 = some (operand, later)) :
    Yields setting (take 0) { state with graph } operand { state with graph := later } := by
  have hHere : Yields setting Execution.here { state with graph } here { state with graph } := yields_here hCurrent
  refine hHere.bind ((yields_get _).bind ?_)
  rw [hTake]
  exact (yields_modify (fun state => { state with graph := later }) _).bind (yields_pure operand _)

theorem yields_branches? {found : Option Branches} (hFound : ((branches? here).run state.graph).1 = found) :
    Yields setting (branches? here : ExecutionM (Option Branches)) state found
      { state with graph := ((branches? here).run state.graph).2 } := by
  rw [← hFound]
  rfl

/-- The step that joins the values that are found. The loop goes on from the state after it. -/
theorem exists_joining (anchored : Anchored pending state) (hCurrent : state.current = some here)
    (hFound : ((branches? here).run state.graph).1 = some place) (setting : Setting) :
    ∃ middle, Nonempty (Joining place state.graph middle.graph) ∧ Anchored pending middle ∧
      ∀ {fuel after}, Yields setting (joinBranchesWithin fuel) middle () after →
        Yields setting (joinBranchesWithin (fuel + 1)) state () after := by
  let asked := ((branches? here).run state.graph).2
  have same : SameFacts state.graph asked := onlyAsks_branches? here state.graph
  have hSupply : asked.supply = state.graph.supply := HoldsOfQueries.branches? keepsSupply_queries here state.graph
  have fits := fits_branches? state.graph here place hFound
  obtain ⟨taken⟩ := exists_taken ((SameLayout.of_sameFacts same).linked anchored.linked)
    (same.order ▸ anchored.getLast? hCurrent) ((congrArg _ (same.locate?_eq here 0)).trans fits.right)
    ((congrArg _ (same.locate?_eq here 1)).trans fits.left) ((congrArg _ (same.locate?_eq here 2)).trans fits.holder)
    fits.apart
  have layout : SameLayout state.graph taken.pushed := (SameLayout.of_sameFacts same).trans taken.layout_pushed
  let joined : Execution := { state with graph := taken.pushed }
  have hOffers : Offers pending [place.right, place.left] joined := offers_values anchored hCurrent fits ⟨layout, rfl⟩
  -- The nodes of the values may be empty now.
  obtain ⟨_, middle, hLoop⟩ := Succeeds.compositional.forIn (fun id _ => succeeds_disposeIfEmpty here place.holder id)
    [place.right, place.left] ⟨⟩ setting joined
  obtain ⟨anchoredMiddle, gone, emptied⟩ := offers_disposeIfEmpty
    (fun now => ∃ gone, Emptied place.holder gone taken.pushed now)
    (fun linked hPlaced hEmpty hOther ⟨gone, emptied⟩ =>
      ⟨_, emptied.disposeOne linked hPlaced (List.isEmpty_iff.mp hEmpty) hOther⟩)
    [place.right, place.left] setting joined _ middle ⟨hOffers, [], .refl _ _⟩ hLoop
  refine ⟨middle, ⟨taken.joining fits same hSupply emptied⟩, anchoredMiddle, fun {fuel after} hRest => ?_⟩
  refine (yields_get state).bind ?_
  rw [hCurrent]
  refine (yields_branches? hFound).bind ?_
  refine (yields_take hCurrent taken.takeSecond).bind ((yields_take hCurrent taken.takeFirst).bind ?_)
  exact (yields_take hCurrent taken.takeTest).bind ((yields_supply _ _).bind ((yields_changeGraph _ _).bind
    (hLoop.bind hRest)))

/-! ### All steps -/

/-- What looking for values to join finds, and the state after it. -/
def lookForValues (state : Execution) : Option Branches × Execution :=
  match state.current with
  | none => (none, state)
  | some here => (((branches? here).run state.graph).1, { state with graph := ((branches? here).run state.graph).2 })

/-- Values are joined as long as some are found. -/
inductive JoinsAll : Execution → Execution → Prop
  | done {state : Execution} (hNone : (lookForValues state).1 = none) : JoinsAll state (lookForValues state).2
  | step {state middle after : Execution} {place : Branches} (hFound : (lookForValues state).1 = some place)
      (joining : Joining place state.graph middle.graph) (rest : JoinsAll middle after) : JoinsAll state after

theorem lookForValues_eq (hCurrent : state.current = some here) : lookForValues state =
    (((branches? here).run state.graph).1, { state with graph := ((branches? here).run state.graph).2 }) := by
  rw [lookForValues, hCurrent]

theorem Anchored.lookForValues (anchored : Anchored pending state) : Anchored pending (lookForValues state).2 := by
  cases hCurrent : state.current with
  | none => rwa [Execution.lookForValues, hCurrent]
  | some here =>
      rw [lookForValues_eq hCurrent]
      exact anchored.stay (.of_sameFacts (onlyAsks_branches? here state.graph)) rfl

theorem yields_joinBranchesWithin_done (hNone : (lookForValues state).1 = none) (fuel : Nat) :
    Yields setting (joinBranchesWithin (fuel + 1)) state () (lookForValues state).2 := by
  refine (yields_get state).bind ?_
  cases hCurrent : state.current with
  | none =>
      rw [lookForValues, hCurrent]
      exact yields_pure () state
  | some here =>
      rw [lookForValues_eq hCurrent] at hNone ⊢
      exact (yields_branches? hNone).bind (yields_pure () _)

/-- Joining the values of two-way branches comes to an end, with any number of steps that exceeds the number of
operands. -/
theorem joinsAll_within (anchored : Anchored pending state) (setting : Setting) :
    ∃ after, JoinsAll state after ∧ Anchored pending after ∧
      ∀ fuel, state.graph.operands.length < fuel → Yields setting (joinBranchesWithin fuel) state () after := by
  induction hLength : state.graph.operands.length using Nat.strong_induction_on generalizing state with
  | _ length ih =>
      subst hLength
      cases hFound : (lookForValues state).1 with
      | none =>
          refine ⟨_, .done hFound, anchored.lookForValues, fun fuel hFuel => ?_⟩
          obtain ⟨fuel, rfl⟩ := Nat.exists_eq_add_one_of_ne_zero (Nat.ne_zero_of_lt hFuel)
          exact yields_joinBranchesWithin_done hFound fuel
      | some place =>
          obtain ⟨here, hCurrent⟩ : ∃ here, state.current = some here :=
            Option.ne_none_iff_exists'.mp fun hCurrent => by simp [lookForValues, hCurrent] at hFound
          obtain ⟨middle, ⟨joining⟩, anchoredMiddle, hStep⟩ :=
            exists_joining anchored hCurrent (by rwa [lookForValues_eq hCurrent] at hFound) setting
          have hLess := joining.length_operands
          obtain ⟨after, joins, anchoredAfter, hAfter⟩ := ih _ (by omega) anchoredMiddle rfl
          refine ⟨after, .step hFound joining joins, anchoredAfter, fun fuel hFuel => ?_⟩
          obtain ⟨fuel, rfl⟩ := Nat.exists_eq_add_one_of_ne_zero (Nat.ne_zero_of_lt hFuel)
          exact hStep (hAfter fuel (by omega))

/-- The bound that is taken exceeds the number of operands, so it cuts nothing off. -/
theorem joinBranches_joinsAll (anchored : Anchored pending state) (hJoins : setting.options.fuseTernary = true) :
    ∃ after, Yields setting joinBranches state () after ∧ Anchored pending after ∧ JoinsAll state after := by
  obtain ⟨after, joins, anchoredAfter, hAfter⟩ := joinsAll_within anchored setting
  refine ⟨after, (yields_read state).bind ?_, anchoredAfter, joins⟩
  rw [if_pos hJoins]
  exact (yields_get state).bind (hAfter _ (Nat.lt_succ_self _))

end Decompiler.Execution
