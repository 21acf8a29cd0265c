import Decompiler.Proofs.Graph.Joining
import Decompiler.Proofs.Graph.Splicing

/-!
Folding conditions keeps where control goes. A node that is folded into the node before it is passed over from then on,
if control came to it from that node alone, when nothing had jumped there; from every other node a run ends in the same
node and the same state, or goes on for ever as before.
-/

namespace Decompiler.Graph

open StateTransition

variable {σ : Type} {graph before middle after : Graph} {id other : NodeId} {latest top : Operand}
  {rest others : List Operand}

/-! ### Folding a node into the node before it -/

namespace ConditionRun

/-- Changes all operands. -/
def map (change : Operand → Operand) (parts : ConditionRun) : ConditionRun :=
  { above := parts.above.map change, run := parts.run.map change, below := parts.below.map change }

/-- A change that keeps conditions conditions keeps the run where it is. -/
theorem ofStack_map {change : Operand → Operand} (hSame : ∀ operand, (change operand).isCondition = operand.isCondition)
    (stack : List Operand) : ofStack (stack.map change) = (ofStack stack).map change := by
  simp only [ofStack, map, ← List.map_reverse, List.takeWhile_map, List.dropWhile_map, Function.comp_def, hSame]

/-- Conditions that are put on a stack join the run on top of it. -/
theorem ofStack_append {stack conditions : List Operand} (hAbove : (ofStack stack).above = [])
    (hConditions : ∀ operand ∈ conditions, operand.isCondition = true) (hSome : conditions ≠ []) :
    ofStack (stack ++ conditions.reverse) = { ofStack stack with run := conditions ++ (ofStack stack).run } := by
  have uppermost := uppermost_ofStack stack
  have hStack := stack_eq stack
  have hParts : Uppermost { ofStack stack with run := conditions ++ (ofStack stack).run } :=
    ⟨uppermost.above, List.forall_mem_append.mpr ⟨hConditions, uppermost.run⟩, uppermost.below⟩
  rw [hAbove, List.reverse_nil, List.append_nil] at hStack
  refine Eq.trans ?_ (ofStack_eq hParts (by simp [hSome]))
  simp only [hAbove, List.reverse_append, List.reverse_nil, List.append_nil, ← List.append_assoc, hStack]

/-- The run on top of a stack begins with the uppermost operand. -/
theorem ofStack_of_getLast? {stack : List Operand} {tail : Operand} (hTop : stack.getLast? = some tail)
    (hCondition : tail.isCondition = true) :
    (ofStack stack).above = [] ∧ ∃ rest, (ofStack stack).run = tail :: rest := by
  obtain ⟨lower, rfl⟩ := List.getLast?_eq_some_iff.mp hTop
  simp [ofStack, hCondition]

end ConditionRun

/-- Links are mutual. -/
theorem Linked.next_of_previous (linked : Linked graph) (hId : id ∈ graph.order)
    (hPrevious : (graph.node id).previous = some other) : (graph.node other).next = some id := by
  obtain ⟨front, back, hOrder⟩ := List.append_of_mem hId
  rw [(linked.previous_next hOrder).1] at hPrevious
  obtain ⟨front, rfl⟩ := List.getLast?_eq_some_iff.mp hPrevious
  exact (linked.previous_next (by simpa using hOrder)).2

theorem Linked.previous_of_next (linked : Linked graph) (hId : id ∈ graph.order)
    (hNext : (graph.node id).next = some other) : (graph.node other).previous = some id := by
  obtain ⟨front, back, hOrder⟩ := List.append_of_mem hId
  rw [(linked.previous_next hOrder).2] at hNext
  obtain ⟨back, rfl⟩ := List.head?_eq_some_iff.mp hNext
  have hShifted : graph.order = (front ++ [id]) ++ other :: back := by simpa using hOrder
  simpa using (linked.previous_next hShifted).1

theorem leadsTo_eq_some {target : NodeId} :
    graph.leadsTo id = some target ↔ (graph.node id).destination = some (.node target) := by
  unfold leadsTo
  rcases (graph.node id).destination with _ | _ | _ <;> simp [Destination.node?]

/-- Operands that do not jump to a node that is gone run as before. -/
theorem foldr_act_same (meaning : Meaning σ) {gone : List NodeId} {stack kept : List Operand}
    (same : SameOperands gone stack kept) (hJumps : ∀ operand ∈ stack, ∀ id ∈ gone, operand.jump? ≠ some (some id))
    (above : StateM σ (Option NodeId)) : kept.foldr meaning.act above = stack.foldr meaning.act above := by
  induction same with
  | nil => rfl
  | cons retargeted _ ih =>
      obtain ⟨hFirst, hRest⟩ := List.forall_mem_cons.mp hJumps
      rw [List.foldr_cons, List.foldr_cons, ih hRest, meaning.act_retargeted retargeted hFirst]

/-- What a node keeps or takes over lay on one of the two stacks. -/
theorem exists_origin {gone : List NodeId} {stack kept : List Operand} (same : SameOperands gone stack kept)
    {operand : Operand} (hOperand : operand ∈ kept) : ∃ origin ∈ stack, Operand.Retargeted gone origin operand := by
  induction same with
  | nil => cases hOperand
  | cons retargeted _ ih =>
      rcases List.mem_cons.mp hOperand with rfl | hOperand
      · exact ⟨_, List.mem_cons_self, retargeted⟩
      · obtain ⟨origin, hOrigin, retargeted⟩ := ih hOperand
        exact ⟨origin, List.mem_cons_of_mem _ hOrigin, retargeted⟩

/-- A retargeted operand jumps where it did, unless that was to a node that is gone. -/
theorem jump?_of_retargeted {gone : List NodeId} {first second : Operand}
    (retargeted : Operand.Retargeted gone first second) (hKept : ∀ id ∈ gone, first.jump? ≠ some (some id)) :
    second.jump? = first.jump? := by
  obtain ⟨change, hChange, rfl⟩ := retargeted
  rw [Operand.jump?_mapTargets]
  cases hJump : first.jump? with
  | none => rfl
  | some target =>
      exact congrArg some (hChange target fun id hId hSame => hKept id hId (hJump.trans (congrArg some hSame)))

section Fold

variable (linked : Linked graph) (hId : id ∈ graph.order)

include linked hId

/-- The operands that a node keeps, and those that it takes over. -/
theorem exists_kept (hOther : other ≠ id) :
    ∃ kept, SameOperands [id] (graph.node other).stack kept ∧
      ((graph.disposeOne id false).node other).stack =
        kept ++ if (graph.node id).previous = some other then (graph.node id).stack else [] := by
  have hStack := stack_disposeOne linked hId false other
  rw [if_neg hOther] at hStack
  by_cases hPlaced : other ∈ graph.order
  · refine ⟨_, .redirect id (graph.redirection id) (graph.node other).stack, ?_⟩
    rw [hStack]
    simp only [hPlaced, ↓reduceIte, and_true]
    split <;> simp
  · refine ⟨_, .refl [id] (graph.node other).stack, ?_⟩
    rw [hStack]
    simp only [hPlaced, ↓reduceIte, and_true]
    split <;> simp

variable (passed : PassedThrough graph id)

include passed

/-- A node that is passed through leads to another one. -/
theorem leadsTo_ne_self : graph.leadsTo id ≠ some id := fun hSelf =>
  linked.previous_ne hId (passed.leads id (linked.live id hId) hSelf)

theorem redirection_eq_leadsTo : graph.redirection id = graph.leadsTo id := by
  have hOther := leadsTo_ne_self linked hId passed
  obtain ⟨target, hTarget⟩ := Option.isSome_iff_exists.mp passed.goesOn
  have hDestination := leadsTo_eq_some.mp hTarget
  rw [hTarget] at hOther ⊢
  simpa [redirection, resolvedDestination?, hDestination] using fun h => hOther (congrArg some h)

/-- Nodes that led to the folded one lead to where it led. -/
theorem leadsTo_disposeOne (hLive : (graph.node other).disposed = false) (hOther : other ≠ id) :
    (graph.disposeOne id false).leadsTo other =
      if graph.leadsTo other = some id then graph.leadsTo id else graph.leadsTo other := by
  rw [leadsTo, destination_disposeOne linked hId, redirection_eq_leadsTo linked hId passed]
  by_cases hLeads : graph.leadsTo other = some id
  · have hPlaced := linked.mem_of_previous hId (passed.leads other hLive hLeads)
    rw [if_pos ⟨hPlaced, hOther, leadsTo_eq_some.mp hLeads⟩, if_pos hLeads]
    cases graph.leadsTo id <;> rfl
  · rw [if_neg fun h => hLeads (leadsTo_eq_some.mpr h.2.2), if_neg hLeads]
    rfl

/-- Goes on from the node at once. -/
def through (meaning : Meaning σ) (graph : Graph) (id : NodeId) (target : Option NodeId) : StateM σ (Option NodeId) :=
  if target = some id then graph.runNode meaning id else pure target

/-- A visit of a node goes on from the node that was folded, where it came to that one before. -/
theorem runNode_disposeOne (meaning : Meaning σ)
    (hBefore : ∀ other, (graph.node id).previous = some other → graph.leadsTo other = some id)
    (hLive : (graph.node other).disposed = false) (hOther : other ≠ id) :
    (graph.disposeOne id false).runNode meaning other = graph.runNode meaning other >>= graph.through meaning id := by
  obtain ⟨kept, same, hStack⟩ := exists_kept linked hId hOther
  have hJumps : ∀ operand ∈ (graph.node other).stack, operand.jump? ≠ some (some id) := passed.jumps other hLive
  rw [runNode, hStack, List.foldr_append, foldr_act_same meaning same (by simpa using hJumps),
    leadsTo_disposeOne linked hId passed hLive hOther, runNode, ← foldr_act_bind]
  · congr 1
    rw [pure_bind]
    by_cases hPrevious : (graph.node id).previous = some other
    · have hLeads := hBefore other hPrevious
      rw [if_pos hPrevious, if_pos hLeads, through, if_pos hLeads]
      rfl
    · have hLeads : graph.leadsTo other ≠ some id := mt (passed.leads other hLive) hPrevious
      rw [if_neg hPrevious, if_neg hLeads, through, if_neg hLeads]
      rfl
  · rintro operand hOperand target hTarget
    exact if_neg fun hSame => hJumps operand hOperand (hTarget.trans (congrArg some hSame))

/-- No condition of a node jumps where none has jumped before. -/
theorem jump_disposeOne (hLive : (graph.node other).disposed = false) (hOther : other ≠ id) {operand : Operand}
    (hOperand : operand ∈ ((graph.disposeOne id false).node other).stack) :
    ∃ place, (graph.node place).disposed = false ∧ (place = other ∨ place = id) ∧
      ∃ origin ∈ (graph.node place).stack, operand.jump? = origin.jump? := by
  obtain ⟨kept, same, hStack⟩ := exists_kept linked hId hOther
  rw [hStack, List.mem_append] at hOperand
  rcases hOperand with hKept | hTaken
  · obtain ⟨origin, hOrigin, retargeted⟩ := exists_origin same hKept
    have hJumps : ∀ gone ∈ [id], origin.jump? ≠ some (some gone) := by
      simpa using passed.jumps other hLive origin hOrigin
    exact ⟨other, hLive, .inl rfl, origin, hOrigin, jump?_of_retargeted retargeted hJumps⟩
  · split at hTaken
    · exact ⟨id, linked.live id hId, .inr rfl, operand, hTaken, rfl⟩
    · cases hTaken

/-- The node itself is passed through to another node that is not disposed of. -/
theorem runNode_self (stays : StaysLive graph) (meaning : Meaning σ) (state : σ) :
    ∃ target, ((graph.runNode meaning id).run state).1 = some target ∧ target ≠ id ∧
      (graph.node target).disposed = false := by
  have hLive := linked.live id hId
  have hSome : ((graph.runNode meaning id).run state).1 ≠ none ∧
      ((graph.runNode meaning id).run state).1 ≠ some id := by
    refine foldr_act_induction meaning (motive := fun target => target ≠ none ∧ target ≠ some id) ?_ ?_ state
    · intro operand hOperand target hTarget
      refine ⟨?_, ?_⟩
      · rintro rfl
        exact passed.own operand hOperand hTarget
      · rintro rfl
        exact passed.jumps id hLive operand hOperand hTarget
    · exact fun _ => ⟨Option.isSome_iff_ne_none.mp passed.goesOn, leadsTo_ne_self linked hId passed⟩
  obtain ⟨target, hTarget⟩ := Option.ne_none_iff_exists'.mp hSome.1
  exact ⟨target, hTarget, fun hSame => hSome.2 (hTarget.trans (congrArg some hSame)),
    stays.runNode meaning hLive state target hTarget⟩

omit passed in
/-- The folded node is the only one that goes. -/
theorem live_disposeOne : ((graph.disposeOne id false).node other).disposed = false ↔
    other ≠ id ∧ (graph.node other).disposed = false := by
  rw [disposed_disposeOne linked hId, Bool.or_eq_false_iff, decide_eq_false_iff_not]

/-- Runs of the graph without the node, step by step, are runs of the graph with it. -/
theorem refines_disposeOne (stays : StaysLive graph) (meaning : Meaning σ)
    (hBefore : ∀ other, (graph.node id).previous = some other → graph.leadsTo other = some id) :
    Refines meaning (graph.disposeOne id false) graph := by
  rintro ⟨place | place, state⟩ _ ⟨rfl, hStands⟩
  · obtain ⟨hOther, hLive⟩ := (live_disposeOne linked hId).mp hStands
    have hFirst := stays.runNode meaning hLive state
    rcases hRun : (graph.runNode meaning place).run state with ⟨target, middle⟩
    rw [hRun] at hFirst
    have hBeforeStep : graph.step meaning (.entering place, state) = some (.after place target, middle) := by
      rw [step, hRun]
    have hAfterStep : (graph.disposeOne id false).step meaning (.entering place, state) =
        some (.after place ((graph.through meaning id target).run middle).1,
          ((graph.through meaning id target).run middle).2) := by
      rw [step, runNode_disposeOne linked hId passed meaning hBefore hLive hOther, StateT.run_bind, hRun]
      rfl
    rw [hAfterStep]
    by_cases hTarget : target = some id
    · subst hTarget
      obtain ⟨next, hNext, hApart, hStandsNext⟩ := runNode_self linked hId passed stays meaning middle
      rw [through, if_pos rfl, hNext]
      refine ⟨_, ⟨rfl, (live_disposeOne linked hId).mpr ⟨hApart, hStandsNext⟩⟩, .tail (.single hBeforeStep) ?_⟩
      exact congrArg (fun target => some (Control.after id target, _)) hNext
    · rw [through, if_neg hTarget]
      refine ⟨_, ⟨rfl, ?_⟩, .single hBeforeStep⟩
      cases target with
      | none => trivial
      | some target =>
          exact (live_disposeOne linked hId).mpr ⟨fun hSame => hTarget (congrArg some hSame), hFirst target rfl⟩
  · rfl

/-- What led to the folded node is led on, so all that is led to is there. -/
theorem staysLive_disposeOne (stays : StaysLive graph) : StaysLive (graph.disposeOne id false) where
  jumps place hPlace operand hOperand target hTarget := by
    obtain ⟨hOther, hLive⟩ := (live_disposeOne linked hId).mp hPlace
    obtain ⟨place, hLive, -, origin, hOrigin, hJump⟩ := jump_disposeOne linked hId passed hLive hOther hOperand
    rw [hJump] at hTarget
    refine (live_disposeOne linked hId).mpr ⟨?_, stays.jumps place hLive origin hOrigin target hTarget⟩
    rintro rfl
    exact passed.jumps place hLive origin hOrigin hTarget
  leads place hPlace target hTarget := by
    obtain ⟨hOther, hLive⟩ := (live_disposeOne linked hId).mp hPlace
    rw [leadsTo_disposeOne linked hId passed hLive hOther] at hTarget
    refine (live_disposeOne linked hId).mpr ?_
    split at hTarget
    · refine ⟨?_, stays.leads id (linked.live id hId) target hTarget⟩
      rintro rfl
      exact leadsTo_ne_self linked hId passed hTarget
    · next hLeads =>
        refine ⟨?_, stays.leads place hLive target hTarget⟩
        rintro rfl
        exact hLeads hTarget

/-- Another node that may be folded may still be. -/
theorem passedThrough_disposeOne (hOther : other ≠ id) (passed' : PassedThrough graph other) :
    PassedThrough (graph.disposeOne id false) other where
  placed := by
    rw [order_disposeOne, linked.nodup.mem_erase_iff]
    exact ⟨hOther, passed'.placed⟩
  jumps place hPlace operand hOperand := by
    obtain ⟨hApart, hLive⟩ := (live_disposeOne linked hId).mp hPlace
    obtain ⟨place, hLive, -, origin, hOrigin, hJump⟩ := jump_disposeOne linked hId passed hLive hApart hOperand
    rw [hJump]
    exact passed'.jumps place hLive origin hOrigin
  leads place hPlace hLeads := by
    obtain ⟨hApart, hLive⟩ := (live_disposeOne linked hId).mp hPlace
    rw [leadsTo_disposeOne linked hId passed hLive hApart] at hLeads
    rw [previous_disposeOne linked hId false other (linked.lt other passed'.placed)]
    split at hLeads
    · next hFirst =>
        have hBetween := passed'.leads id (linked.live id hId) hLeads
        rw [if_pos (linked.next_of_previous passed'.placed hBetween)]
        exact passed.leads place hLive hFirst
    · have hBefore := passed'.leads place hLive hLeads
      rw [if_neg fun hNext => hApart (Option.some.inj (hBefore.symm.trans (linked.previous_of_next hId hNext)))]
      exact hBefore
  goesOn := by
    rw [leadsTo_disposeOne linked hId passed (linked.live other passed'.placed) hOther]
    split
    · exact passed.goesOn
    · exact passed'.goesOn
  own operand hOperand := by
    obtain ⟨place, -, hPlace, origin, hOrigin, hJump⟩ :=
      jump_disposeOne linked hId passed (linked.live other passed'.placed) hOther hOperand
    rw [hJump]
    rcases hPlace with rfl | rfl
    · exact passed'.own origin hOrigin
    · exact passed.own origin hOrigin

/-! ### The run on top of the other nodes -/

omit passed in
/-- A node keeps its operands, and the one before takes those of the folded node over. -/
theorem stack_disposeOne_placed (hPlaced : other ∈ graph.order) (hOther : other ≠ id) :
    ((graph.disposeOne id false).node other).stack =
      (graph.node other).stack.map (Operand.redirect id (graph.redirection id)) ++
        if (graph.node id).previous = some other then (graph.node id).stack else [] := by
  rw [stack_disposeOne linked hId, if_neg hOther]
  simp only [hPlaced, ↓reduceIte, and_true]
  split <;> simp

/-- A node that takes no operands over falls through as before. -/
theorem fallsThrough_disposeOne (hPlaced : other ∈ graph.order) (hOther : other ≠ id)
    (hBefore : (graph.node id).previous ≠ some other) (fallsThrough : FallsThrough graph other) :
    FallsThrough (graph.disposeOne id false) other := by
  have hLive := linked.live other hPlaced
  have hLeads : graph.leadsTo other ≠ some id := mt (passed.leads other hLive) hBefore
  have hParts : (graph.disposeOne id false).runParts other =
      (graph.runParts other).map (Operand.redirect id (graph.redirection id)) := by
    rw [runParts, stack_disposeOne_placed linked hId hPlaced hOther, if_neg hBefore, List.append_nil]
    exact ConditionRun.ofStack_map (fun operand => Operand.isCondition_redirect operand _ _) _
  rw [FallsThrough, hParts, leadsTo_disposeOne linked hId passed hLive hOther, if_neg hLeads]
  intro hAbove
  obtain ⟨hLatest, hRest⟩ := fallsThrough (List.map_eq_nil_iff.mp hAbove)
  simp only [ConditionRun.map, List.head?_map, Option.mem_map, ← List.map_tail, List.mem_map]
  refine ⟨?_, ?_⟩
  · rintro _ ⟨latest, hHead, rfl⟩
    rw [Operand.falls_redirect]
    rcases hLatest latest hHead with hFalls | hFalls
    · simp [hFalls]
    · rw [hFalls, if_neg hLeads]
      exact .inr rfl
  · rintro _ ⟨operand, hOperand, rfl⟩
    simp [Operand.falls_redirect, hRest operand hOperand]

/-- The node that takes the operands of the folded one can be joined again: its own uppermost condition is joined with
them, and nothing else is. -/
theorem joinable_disposeOne {previous : NodeId} {tail : Operand} (hPrevious : (graph.node id).previous = some previous)
    (hTop : (graph.node previous).top? = some tail) (hTail : tail.falls = some id)
    (fallsThrough : FallsThrough graph previous) (hStack : (graph.node id).stack = (top :: others).reverse)
    (folded : Folded (top :: others))
    (hComplete : top.mapCondition (completeTop (graph.leadsTo id)) = top)
    (hTopFalls : top.falls = none ∨ top.falls = graph.leadsTo id)
    (hOthers : ∀ operand ∈ others, operand.falls = none)
    (hFits : tail.fits ((top :: others).getLast (List.cons_ne_nil _ _)) = true) :
    graph.leadsTo previous = some id ∧ Joinable (graph.disposeOne id false) previous := by
  have hPlaced := linked.mem_of_previous hId hPrevious
  have hOther : previous ≠ id := fun hSame => linked.previous_ne hId (hSame ▸ hPrevious)
  have hCondition : tail.isCondition = true := by
    cases hTest : tail.condition? with
    | none => simp [Operand.falls, hTest] at hTail
    | some test => simp [Operand.isCondition, hTest]
  obtain ⟨hAbove, rest, hRun⟩ := ConditionRun.ofStack_of_getLast? hTop hCondition
  obtain ⟨hLatest, hRest⟩ := fallsThrough hAbove
  rw [runParts, hRun] at hLatest hRest
  have hFalls := hLatest tail rfl
  have hLeads : graph.leadsTo previous = some id :=
    (hFalls.resolve_left (by simp [hTail])).symm.trans hTail
  have hJump : (tail.redirect id (graph.redirection id)).jump? = tail.jump? :=
    jump?_of_retargeted (.redirect (List.mem_singleton_self id) _ tail)
      (by simpa using passed.jumps previous (linked.live previous hPlaced) tail (List.mem_of_getLast? hTop))
  have hParts : (graph.disposeOne id false).runParts previous =
      { above := []
        run := (top :: others) ++ (tail :: rest).map (Operand.redirect id (graph.redirection id))
        below := (graph.runParts previous).below.map (Operand.redirect id (graph.redirection id)) } := by
    have hKept := ConditionRun.ofStack_map
      (fun operand => Operand.isCondition_redirect operand id (graph.redirection id)) (graph.node previous).stack
    rw [runParts, stack_disposeOne_placed linked hId hPlaced hOther, if_pos hPrevious, hStack,
      ConditionRun.ofStack_append (hKept ▸ congrArg _ hAbove) folded.conditions (List.cons_ne_nil _ _), hKept]
    simp only [ConditionRun.map, hAbove, hRun, List.map_nil]
    rfl
  refine ⟨hLeads, ?_⟩
  rw [Joinable, hParts, leadsTo_disposeOne linked hId passed (linked.live previous hPlaced) hOther, if_pos hLeads]
  intro latest below hJoined
  obtain ⟨rfl, rfl⟩ := List.cons.inj hJoined
  refine ⟨rfl, hTopFalls, ?_⟩
  rw [hComplete]
  refine failsUpwards_append folded hOthers ?_
  rw [List.map_cons, FailsUpwards, Operand.fits_of_jump hJump, if_pos hFits]
  refine failsUpwards_of_none fun operand hOperand => ?_
  obtain ⟨origin, hOrigin, rfl⟩ := List.mem_map.mp hOperand
  simp [Operand.falls_redirect, hRest origin hOrigin]

end Fold

/-! ### Folding on and on -/

/-- Conditions can be folded from the node on. -/
structure Prepared (graph : Graph) (id : NodeId) : Prop where
  linked : Linked graph
  placed : id ∈ graph.order
  stays : StaysLive graph
  fallsThrough : ∀ other ∈ graph.order, other ≠ id → FallsThrough graph other
  joinable : Joinable graph id

/-- A node that hands operands over to the node before it is disposed of alone. -/
theorem dispose_of_kept (linked : Linked graph) (hId : id ∈ graph.order) {previous : NodeId}
    (hPrevious : (graph.node id).previous = some previous) (hStack : (graph.node id).stack ≠ []) :
    graph.dispose id false true = ([id], graph.disposeOne id false) := by
  have hOther : previous ≠ id := fun hSame => linked.previous_ne hId (hSame ▸ hPrevious)
  have hTaken : ((graph.disposeOne id false).node previous).stack ≠ [] := by
    rw [stack_disposeOne_placed linked hId (linked.mem_of_previous hId hPrevious) hOther, if_pos hPrevious]
    simp [hStack]
  simp only [dispose, disposeFrom, linked.live id hId, hPrevious, Bool.false_eq_true, ↓reduceIte]
  rw [if_neg (by simp [hTaken])]

/-- Only live nodes are disposed of. -/
theorem live_of_mem_disposeFrom {fuel : Nat} {target : NodeId} {clearStack recursive : Bool}
    (hGone : id ∈ (graph.disposeFrom fuel target clearStack recursive).1) : (graph.node id).disposed = false := by
  induction fuel generalizing graph target with
  | zero => cases hGone
  | succ fuel ih =>
      have hOlder (hLater : ((graph.disposeOne target clearStack).node id).disposed = false) :
          (graph.node id).disposed = false := by
        rw [isDisposed_disposeOne, Bool.or_eq_false_iff] at hLater
        exact hLater.2
      simp only [disposeFrom] at hGone
      split at hGone
      · cases hGone
      · next hLive =>
          have hTarget : (graph.node target).disposed = false := by simpa using hLive
          split at hGone
          · split at hGone
            · rcases List.mem_cons.mp hGone with rfl | hRest
              · exact hTarget
              · exact hOlder (ih hRest)
            · exact List.mem_singleton.mp hGone ▸ hTarget
          · exact List.mem_singleton.mp hGone ▸ hTarget

/-- Only live nodes are folded away. -/
theorem live_of_mem_mergeFrom {fuel : Nat} {start : NodeId} (hGone : id ∈ (graph.mergeFrom fuel start).1) :
    (graph.node id).disposed = false := by
  induction fuel generalizing graph start with
  | zero => cases hGone
  | succ fuel ih =>
      have hJoined := disposed_joinTop graph start id
      simp only [mergeFrom] at hGone
      split at hGone
      · cases hGone
      · next previous after hJoin =>
          rw [hJoin] at hJoined
          rw [← hJoined]
          rcases List.mem_append.mp hGone with hFirst | hRest
          · exact live_of_mem_disposeFrom hFirst
          · rw [← Bool.not_eq_true]
            intro hDisposed
            have hLater := ih hRest
            rw [dispose, disposed_disposeFrom hDisposed] at hLater
            cases hLater

/-- Once the run on top of a node has been joined and the node has been folded into the node before it, conditions can
be folded from that one on. -/
theorem Prepared.fold (prepared : Prepared graph id) {previous : NodeId} {tail : Operand}
    (joins : JoinsTop graph id top others after) (hAbove : (graph.runParts id).above = [])
    (hBelow : (graph.runParts id).below = []) (hPrevious : (graph.node id).previous = some previous)
    (hTop : (after.node previous).top? = some tail) (hTail : tail.falls = some id)
    (hFits : tail.fits ((top :: others).getLast (List.cons_ne_nil _ _)) = true) (passed : PassedThrough graph id) :
    Prepared (after.disposeOne id false) previous ∧
      ∀ {σ : Type} (meaning : Meaning σ), Refines meaning (after.disposeOne id false) graph := by
  have linked := joins.linked prepared.linked
  have stays := joins.stays hAbove prepared.stays
  have hId : id ∈ after.order := joins.order ▸ prepared.placed
  have hBefore : (after.node id).previous = some previous :=
    (joins.field Node.previous (fun _ _ => rfl) id).trans hPrevious
  have hStack : (after.node id).stack = (top :: others).reverse := by
    rw [joins.self, hBelow]
    rfl
  have hFallsThrough : ∀ other ∈ after.order, other ≠ id → FallsThrough after other := by
    intro other hPlaced hOther
    rw [FallsThrough, runParts, joins.other other hOther, joins.leadsTo]
    exact prepared.fallsThrough other (joins.order ▸ hPlaced) hOther
  have passed := joins.passedThrough hAbove passed
  have hPlaced := linked.mem_of_previous hId hBefore
  have hOther : previous ≠ id := fun hSame => linked.previous_ne hId (hSame ▸ hBefore)
  obtain ⟨hLeads, joinable⟩ := joinable_disposeOne linked hId passed hBefore hTop hTail
    (hFallsThrough previous hPlaced hOther) hStack joins.folded (joins.leadsTo id ▸ joins.complete)
    (joins.leadsTo id ▸ joins.topFalls) joins.othersFall hFits
  refine ⟨⟨linked.disposeOne false hId, mem_order_disposeOne linked hId hBefore false,
    staysLive_disposeOne linked hId passed stays, ?_, joinable⟩, fun meaning => ?_⟩
  · intro other hStays hApart
    rw [order_disposeOne, linked.nodup.mem_erase_iff] at hStays
    refine fallsThrough_disposeOne linked hId passed hStays.2 hStays.1 ?_ (hFallsThrough other hStays.2 hStays.1)
    rw [hBefore]
    exact fun hSame => hApart (Option.some.inj hSame).symm
  · have hLeadsIn (other : NodeId) (hOther : (after.node id).previous = some other) : after.leadsTo other = some id := by
      rwa [← Option.some.inj (hBefore.symm.trans hOther)]
    have hFolded := refines_disposeOne linked hId passed stays meaning hLeadsIn
    exact (stays.refines (joins.runNode hAbove meaning)).trans hFolded fun other hLive =>
      ((live_disposeOne linked hId).mp hLive).2

/-- By induction on the nodes that are folded: each fold keeps the runs and leaves the node before it to be folded. -/
theorem mergeFrom_refines (meaning : Meaning σ) (fuel : Nat) (prepared : Prepared graph id)
    (hPassed : ∀ gone ∈ (graph.mergeFrom fuel id).1, PassedThrough graph gone) :
    Refines meaning (graph.mergeFrom fuel id).2 graph ∧
      ∀ other, ((graph.mergeFrom fuel id).2.node other).disposed = false ↔
        other ∉ (graph.mergeFrom fuel id).1 ∧ (graph.node other).disposed = false := by
  induction fuel generalizing graph id with
  | zero => exact ⟨prepared.stays.refines fun _ => rfl, by simp [mergeFrom]⟩
  | succ fuel ih =>
      by_cases hSome : (graph.runParts id).run = []
      · have hNone : graph.mergeFrom (fuel + 1) id = ([], graph) := by rw [mergeFrom, joinTop_of_run_nil hSome]
        rw [hNone]
        exact ⟨prepared.stays.refines fun _ => rfl, by simp⟩
      obtain ⟨latest, rest, hRun⟩ := List.exists_cons_of_ne_nil hSome
      have hAbove := (prepared.joinable latest rest hRun).1
      obtain ⟨fold, after, top, others, hJoin, joins, hFold⟩ :=
        joinTop_of_joinable (prepared.linked.live id prepared.placed) prepared.joinable hRun
      cases fold with
      | none =>
          have hNone : graph.mergeFrom (fuel + 1) id = ([], after) := by rw [mergeFrom, hJoin]
          rw [hNone]
          exact ⟨(joins.stays hAbove prepared.stays).refines (joins.runNode hAbove _),
            fun other => by simp [joins.disposed other]⟩
      | some previous =>
          obtain ⟨hBelow, hPrevious, tail, hTop, hTail, hFits⟩ := hFold previous rfl
          have linked := joins.linked prepared.linked
          have hId : id ∈ after.order := joins.order ▸ prepared.placed
          have hStack : (after.node id).stack ≠ [] := by simp [joins.self]
          have hDispose :=
            dispose_of_kept linked hId ((joins.field Node.previous (fun _ _ => rfl) id).trans hPrevious) hStack
          have hMerge : graph.mergeFrom (fuel + 1) id =
              (id :: ((after.disposeOne id false).mergeFrom fuel previous).1,
                ((after.disposeOne id false).mergeFrom fuel previous).2) := by
            rw [mergeFrom, hJoin]
            simp only [hDispose, List.singleton_append]
          rw [hMerge] at hPassed ⊢
          have passed := hPassed id List.mem_cons_self
          obtain ⟨prepared', hRefines⟩ := prepared.fold joins hAbove hBelow hPrevious hTop hTail hFits passed
          have hApart : ∀ gone ∈ ((after.disposeOne id false).mergeFrom fuel previous).1, gone ≠ id := fun gone hGone =>
            ((live_disposeOne linked hId).mp (live_of_mem_mergeFrom hGone)).1
          obtain ⟨hRest, hGone⟩ := ih prepared' fun gone hGone =>
            passedThrough_disposeOne linked hId (joins.passedThrough hAbove passed) (hApart gone hGone)
              (joins.passedThrough hAbove (hPassed gone (List.mem_cons_of_mem _ hGone)))
          refine ⟨(hRefines meaning).trans hRest fun other hLive => ((hGone other).mp hLive).2, fun other => ?_⟩
          rw [hGone, live_disposeOne linked hId, joins.disposed, List.mem_cons]
          tauto

/-- Folding conditions from a node on keeps what a graph does. Let control come to every folded node only from the node
before it, where nothing has jumped. From a node that is not folded control ends in the same node and the same state
before and after, or it never ends in both. It comes to nothing new, and wherever it came before, it comes to a place
that it still comes to. -/
theorem merge_keeps_runs (prepared : Prepared graph id)
    (hPassed : ∀ gone ∈ ((merge id).run graph).1, PassedThrough graph gone) {start : NodeId}
    (hLive : (graph.node start).disposed = false) (hStart : start ∉ ((merge id).run graph).1) (meaning : Meaning σ)
    (state : σ) :
    let before := graph.step meaning
    let after := ((merge id).run graph).2.step meaning
    eval after (.entering start, state) = eval before (.entering start, state) ∧
      (∀ config, StateTransition.Reaches after (.entering start, state) config →
        StateTransition.Reaches before (.entering start, state) config) ∧
      ∀ config, StateTransition.Reaches before (.entering start, state) config →
        ∃ later, StateTransition.Reaches before config later ∧
          StateTransition.Reaches after (.entering start, state) later := by
  obtain ⟨hRefines, hStays⟩ := mergeFrom_refines meaning (graph.nodes.size + 1) prepared hPassed
  exact hRefines.runs ((hStays start).mpr ⟨hStart, hLive⟩)

/-- Two nodes that jump to one node, the second of which is folded into the first one. -/
def jumpPair : Graph :=
  Operation.run {} [.label 0, .append 0, .label 1, .append 1, .label 2, .append 2, .label 3, .append 3, .connect 0 1,
    .connect 0 2, .connect 1 2, .connect 1 3, .setDestination 0 (.node 1), .setDestination 1 (.node 3),
    .push 0 (Operation.jumpTo 2), .push 1 (Operation.jumpTo 2), .merge 0]

theorem node_jumpPair (id : NodeId) : id < 4 ∨ jumpPair.node id = {} :=
  (Nat.lt_or_ge id 4).imp_right node_of_size_le

/-- The two conditions are ready to be folded, from the second node on. -/
theorem prepared_jumpPair : Prepared jumpPair 1 where
  linked := (Operation.run_keeps .empty _ (by decide)).wellFormed.linked
  placed := by decide
  stays := by
    have hJumps : ∀ id < 4, ∀ operand ∈ (jumpPair.node id).stack, ∀ target ∈ operand.jump?.join,
      (jumpPair.node target).disposed = false := by decide
    have hLeads : ∀ id < 4, ∀ target ∈ jumpPair.leadsTo id, (jumpPair.node target).disposed = false := by decide
    refine ⟨fun id _ operand hOperand target hTarget => ?_, fun id _ target hTarget => ?_⟩
    · rcases node_jumpPair id with hId | hBlank
      · exact hJumps id hId operand hOperand target (by simp [hTarget])
      · simp [hBlank] at hOperand
    · rcases node_jumpPair id with hId | hBlank
      · exact hLeads id hId target hTarget
      · simp [leadsTo, hBlank] at hTarget
  fallsThrough := by decide
  joinable := by
    intro latest rest hRun
    obtain ⟨rfl, rfl⟩ := List.cons.inj (hRun : [Operation.jumpTo 2] = latest :: rest)
    exact ⟨rfl, .inl rfl, trivial⟩

/-- Control comes to the second node from the first one alone. -/
theorem passedThrough_jumpPair : PassedThrough jumpPair 1 where
  placed := by decide
  jumps := by
    have hJumps : ∀ id < 4, ∀ operand ∈ (jumpPair.node id).stack, operand.jump? ≠ some (some 1) := by decide
    intro id _ operand hOperand
    rcases node_jumpPair id with hId | hBlank
    · exact hJumps id hId operand hOperand
    · simp [hBlank] at hOperand
  leads := by
    have hLeads : ∀ id < 4, jumpPair.leadsTo id = some 1 → (jumpPair.node 1).previous = some id := by decide
    intro id _ hSome
    rcases node_jumpPair id with hId | hBlank
    · exact hLeads id hId hSome
    · simp [leadsTo, hBlank] at hSome
  goesOn := by decide
  own := by decide

theorem recorded_mapTargets (change : Option NodeId → Option NodeId) (operand : Operand) :
    (operand.mapTargets change).recorded = operand.recorded ∧ (operand.mapTargets change).id = operand.id := by
  obtain ⟨_, _, _, _, _, kind⟩ := operand
  cases kind
  case condition test => cases test; exact ⟨rfl, rfl⟩
  all_goals exact ⟨rfl, rfl⟩

/-- The numbers of local variables that are read and of operands that are no conditions are recorded. -/
def recording : Meaning (List VariableId) where
  toDecision := .recording
  execute operand := modify (· ++ [operand.id])
  negates := Decision.negates_ofIntegers _ _
  compare_mapTargets change left operator right := by
    simp only [Decision.recording, Decision.ofIntegers, recorded_mapTargets]
  value_mapTargets _ _ := rfl
  execute_mapTargets change operand := by rw [(recorded_mapTargets change operand).2]

/-- The second node is folded away, and the run from the first one is the same. -/
theorem merge_keeps_runs_jumpPair : ((merge 1).run jumpPair).1 = [1] ∧
    eval (((merge 1).run jumpPair).2.step recording) (.entering 0, []) =
      eval (jumpPair.step recording) (.entering 0, []) := by
  have hGone : ((merge 1).run jumpPair).1 = [1] := by decide
  have hPassed : ∀ gone ∈ ((merge 1).run jumpPair).1, PassedThrough jumpPair gone := by
    rw [hGone]
    exact List.forall_mem_singleton.mpr passedThrough_jumpPair
  exact ⟨hGone, (merge_keeps_runs prepared_jumpPair hPassed (by decide) (by decide) recording []).1⟩

end Decompiler.Graph
