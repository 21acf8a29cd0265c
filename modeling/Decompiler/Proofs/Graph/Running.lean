import Decompiler.Proofs.Graph.Merging
import Mathlib.Computability.StateTransition

/-!
Running a graph. The operands of a node run from the bottom up: a condition that holds jumps to its target, one that
fails goes on with the operand above it, and after the last operand control goes to the destination of the node. Joining
a run of conditions at the top of a node keeps where control goes, as long as each of them fails upwards.
-/

namespace Decompiler

variable {σ : Type}

/-- How conditions are decided and what the other operands do, in a state. It does not matter where the conditions
nested in an operand jump to. -/
structure Meaning (σ : Type) extends Decision σ where
  execute : Operand → StateM σ Unit
  negates : toDecision.Negates
  compare_mapTargets : ∀ change left operator right,
    compare (left.mapTargets change) operator (right.mapTargets change) = compare left operator right
  value_mapTargets : ∀ change (operand : Operand), value (operand.mapTargets change).kind = value operand.kind
  execute_mapTargets : ∀ change operand, execute (operand.mapTargets change) = execute operand

namespace Operand

variable {operand lower upper joined : Operand} {test left right : Condition} {change : Option NodeId → Option NodeId}

/-- Where a condition operand sends control when it fails, if it names a node at all. -/
def falls (operand : Operand) : Option NodeId := operand.condition?.bind Condition.onFalse

/-- Where a condition operand sends control when it holds. -/
def jump? (operand : Operand) : Option (Option NodeId) := operand.condition?.map Condition.onTrue

theorem jump?_eq (hTest : operand.condition? = some test) : operand.jump? = some test.onTrue := by
  rw [jump?, hTest]
  rfl

theorem jump?_eq_ways (operand : Operand) : operand.jump? = operand.ways?.map Prod.fst := by
  rw [jump?, ways?, Option.map_map]
  rfl

theorem falls_eq_ways (operand : Operand) : operand.falls = operand.ways?.bind Prod.snd := by
  rw [falls, ways?]
  cases operand.condition? <;> rfl

theorem jump?_of_ways (hWays : lower.ways? = upper.ways?) : lower.jump? = upper.jump? := by
  rw [jump?_eq_ways, jump?_eq_ways, hWays]

theorem falls_of_ways (hWays : lower.ways? = upper.ways?) : lower.falls = upper.falls := by
  rw [falls_eq_ways, falls_eq_ways, hWays]

theorem falls_eq (hTest : operand.condition? = some test) : operand.falls = test.onFalse := by
  rw [falls, hTest]
  rfl

theorem truth_mapTargets (meaning : Meaning σ) (change : Option NodeId → Option NodeId) (operand : Operand) :
    (operand.mapTargets change).truth meaning.toDecision = operand.truth meaning.toDecision := by
  induction operand using induction_children with
  | step operand ih =>
      have hValue := meaning.value_mapTargets change operand
      obtain ⟨_, _, _, _, _, kind⟩ := operand
      cases kind
      case condition test =>
        obtain ⟨left, operator, right, _, _, _⟩ := test
        have hLeft := ih left (by simp [children])
        have hRight := ih right (by simp [children])
        cases operator
        case and => exact congrArg₂ (· <&&> ·) hLeft hRight
        case or => exact congrArg₂ (· <||> ·) hLeft hRight
        all_goals exact meaning.compare_mapTargets change left _ right
      case zeroOrOne value => exact ih value (by simp [children])
      case boolean => rfl
      case unary operator value =>
        cases operator
        case not => exact congrArg notM (ih value (by simp [children]))
        all_goals exact hValue
      all_goals exact hValue

theorem ways?_mapTargets (change : Option NodeId → Option NodeId) (operand : Operand) :
    (operand.mapTargets change).ways? = operand.ways?.map (Prod.map change change) := by
  obtain ⟨_, _, _, _, _, kind⟩ := operand
  cases kind
  case condition test => cases test; rfl
  all_goals rfl

theorem condition?_of_ways {onTrue onFalse : Option NodeId} (hWays : operand.ways? = some (onTrue, onFalse)) :
    ∃ test, operand.condition? = some test ∧ test.onTrue = onTrue ∧ test.onFalse = onFalse := by
  obtain ⟨test, hTest, hTargets⟩ := Option.map_eq_some_iff.mp hWays
  exact ⟨test, hTest, Prod.mk.inj hTargets⟩

theorem jump?_mapTargets (change : Option NodeId → Option NodeId) (operand : Operand) :
    (operand.mapTargets change).jump? = operand.jump?.map change := by
  rw [jump?_eq_ways, jump?_eq_ways, ways?_mapTargets, Option.map_map, Option.map_map]
  rfl

theorem falls_mapTargets (change : Option NodeId → Option NodeId) (hNone : change none = none) (operand : Operand) :
    (operand.mapTargets change).falls = change operand.falls := by
  rw [falls_eq_ways, falls_eq_ways, ways?_mapTargets]
  cases operand.ways? with
  | none => exact hNone.symm
  | some ways => rfl

theorem falls_redirect (operand : Operand) (old : NodeId) (new : Option NodeId) :
    (operand.redirect old new).falls = if operand.falls = some old then new else operand.falls :=
  falls_mapTargets (fun target => if target = some old then new else target) rfl operand

/-- Whether a condition fits below another one is not a matter of where it goes when it fails. -/
theorem fits_of_jump (hJump : lower.jump? = joined.jump?) : lower.fits upper = joined.fits upper := by
  unfold jump? at hJump
  unfold fits
  cases hLower : lower.condition? <;> cases hJoined : joined.condition? <;> cases hUpper : upper.condition? <;>
    simp_all [Condition.canMerge]

theorem truth_of_condition? (hTest : operand.condition? = some test) (decision : Decision σ) :
    operand.truth decision = test.truth decision := by
  rw [truth_eq, condition?_eq_some hTest]
  rfl

end Operand

/-- What a condition means does not depend on where it jumps to. -/
theorem Condition.truth_completeTop (destination : Option NodeId) (test : Condition) (decision : Decision σ) :
    (Graph.completeTop destination test).truth decision = test.truth decision := by
  obtain ⟨left, operator, right, _, _, _⟩ := test
  unfold Graph.completeTop
  split
  · cases operator <;> rfl
  · rfl

theorem Condition.onTrue_completeTop (destination : Option NodeId) (test : Condition) :
    (Graph.completeTop destination test).onTrue = test.onTrue := by
  unfold Graph.completeTop
  split <;> rfl

/-! ### One operand -/

namespace Meaning

variable (meaning : Meaning σ) {operand lower upper joined : Operand} {test left right : Condition}
  {above : StateM σ (Option NodeId)}

/-- Runs an operand, and then what is above it unless control jumps. -/
def act (operand : Operand) (above : StateM σ (Option NodeId)) : StateM σ (Option NodeId) :=
  match operand.condition? with
  | some test => do if ← test.truth meaning.toDecision then return test.onTrue else above
  | none => do
    meaning.execute operand
    above

theorem act_condition (hTest : operand.condition? = some test) :
    meaning.act operand above = (do if ← test.truth meaning.toDecision then return test.onTrue else above) := by
  rw [act, hTest]

theorem act_other (hOther : operand.condition? = none) :
    meaning.act operand above = (do meaning.execute operand; above) := by
  rw [act, hOther]

/-- Where control goes when a condition fails is said by what is above the condition. -/
theorem act_completeTop (destination : Option NodeId) (operand : Operand) :
    meaning.act (operand.mapCondition (Graph.completeTop destination)) = meaning.act operand := by
  funext above
  cases hTest : operand.condition? with
  | none => rw [Operand.mapCondition_eq_self fun test hSome => by simp [hTest] at hSome]
  | some test =>
      rw [act_condition meaning hTest, act_condition meaning ((Operand.condition?_mapCondition _ _).trans
        (congrArg _ hTest)), Condition.truth_completeTop, Condition.onTrue_completeTop]

/-- An operand that does not jump to a node that is gone runs as before. -/
theorem act_retargeted {gone : List NodeId} {before after : Operand} (retargeted : Operand.Retargeted gone before after)
    (hKept : ∀ id ∈ gone, before.jump? ≠ some (some id)) : meaning.act after = meaning.act before := by
  obtain ⟨change, hChange, rfl⟩ := retargeted
  funext above
  have hWays := Operand.ways?_mapTargets change before
  have hTruth := Operand.truth_mapTargets meaning change before
  cases hTest : before.condition? with
  | none =>
      have hOther : (before.mapTargets change).condition? = none := by
        simpa [Operand.ways?, hTest] using hWays
      rw [act_other meaning hTest, act_other meaning hOther, meaning.execute_mapTargets]
  | some test =>
      rw [Operand.ways?_eq_some hTest] at hWays
      obtain ⟨test', hTest', hTrue, -⟩ := Operand.condition?_of_ways hWays
      rw [Operand.truth_of_condition? hTest', Operand.truth_of_condition? hTest] at hTruth
      rw [Operand.jump?_eq hTest] at hKept
      rw [act_condition meaning hTest, act_condition meaning hTest', hTruth, hTrue,
        hChange _ fun id hId hJump => hKept id hId (congrArg some hJump)]

/-- Two conditions that were joined run as they do one after the other, if the upper one fails to what is above it. -/
theorem act_merge (hMerge : Condition.canMerge left right = true) (supply : Supply)
    (hLower : lower.condition? = some left) (hUpper : upper.condition? = some right)
    (hJoined : joined.condition? = some ((Condition.merge left right).run supply).1)
    (hFails : right.onFalse = none ∨ above = pure right.onFalse) :
    meaning.act joined above = meaning.act lower (meaning.act upper above) := by
  rw [act_condition meaning hLower, act_condition meaning hUpper, act_condition meaning hJoined]
  by_cases hShared : left.onTrue = right.onTrue
  · have joins := Condition.joins_of_shared hShared supply
    obtain ⟨hLeft, hRight⟩ := joins.truth
    rw [Condition.truth_or joins.operator, hLeft, hRight, orM_bind_ite, joins.onTrue, hShared]
  · have joins := Condition.joins_of_exit hShared supply
    obtain ⟨hLeft, hRight⟩ : _ = (left.invert.run supply).1.truth meaning.toDecision ∧
        _ = right.truth meaning.toDecision := joins.truth
    obtain ⟨hSome, hExit⟩ : left.onTrue.isSome ∧ left.onTrue = right.onFalse := by
      simpa [Condition.canMerge, hShared] using hMerge
    have hAbove : above = pure right.onFalse :=
      hFails.resolve_left (hExit ▸ Option.isSome_iff_ne_none.mp hSome)
    rw [hAbove, Condition.truth_and joins.operator, hLeft, hRight, Condition.truth_invert meaning.negates, andM_bind_ite,
      notM_bind_ite, joins.onTrue, hExit]

end Meaning

/-! ### Joining a run -/

namespace Graph

/-- What becomes of a run of conditions, the latest one and those below it, when neighbours that fit are joined from the
top downwards. -/
inductive RunJoins : Operand → List Operand → List Operand → Prop where
  | last (latest : Operand) : RunJoins latest [] [latest]
  | join {latest lower joined : Operand} {rest result : List Operand} {left right : Condition} (supply : Supply)
      (hLower : lower.condition? = some left) (hUpper : latest.condition? = some right)
      (hMerge : Condition.canMerge left right = true)
      (hJoined : joined.condition? = some ((Condition.merge left right).run supply).1)
      (below : RunJoins joined rest result) : RunJoins latest (lower :: rest) result
  | keep {latest lower : Operand} {rest result : List Operand} (hFits : lower.fits latest = false)
      (below : RunJoins lower rest result) : RunJoins latest (lower :: rest) (latest :: result)

/-- Of the conditions below the latest one only those that will be joined with what is above them name a node to fail
to. -/
def FailsUpwards (latest : Operand) : List Operand → Prop
  | [] => True
  | lower :: rest =>
    if lower.fits latest then FailsUpwards latest rest else lower.falls = none ∧ FailsUpwards lower rest

variable {latest lower upper joined operand : Operand} {rest result : List Operand}

theorem runJoins_joinRun (latest : Operand) (rest : List Operand) (supply : Supply) :
    RunJoins latest rest ((joinRun latest rest).run supply).1.reverse := by
  induction rest generalizing latest supply with
  | nil => exact .last latest
  | cons lower rest ih =>
      cases hFits : lower.fits latest with
      | false =>
          have hRun : ((joinRun latest (lower :: rest)).run supply).1 =
              ((joinRun lower rest).run supply).1 ++ [latest] := by
            rw [joinRun_of_not_fits hFits]
            rfl
          rw [hRun, List.reverse_append]
          exact .keep hFits (ih lower supply)
      | true =>
          have hMerge := hFits
          unfold Operand.fits at hMerge
          split at hMerge
          · next left right hLeft hRight =>
              rw [joinRun]
              simp only [hLeft, hRight, hMerge, ↓reduceIte]
              exact .join supply hLeft hRight hMerge rfl (ih _ _)
          · cases hMerge

theorem ways?_merge {left right : Condition} {supply : Supply} (hUpper : upper.condition? = some right)
    (hJoined : joined.condition? = some ((Condition.merge left right).run supply).1) : joined.ways? = upper.ways? := by
  obtain ⟨first, operator, joins⟩ := Condition.exists_joins left right supply
  rw [Operand.ways?_eq_some hJoined, Operand.ways?_eq_some hUpper, joins.onTrue, joins.onFalse]

theorem jump?_completeTop (destination : Option NodeId) (operand : Operand) :
    (operand.mapCondition (completeTop destination)).jump? = operand.jump? := by
  rw [Operand.jump?, Operand.jump?, Operand.condition?_mapCondition, Option.map_map]
  exact congrArg operand.condition?.map (funext (Condition.onTrue_completeTop destination))

theorem failsUpwards_congr {latest' : Operand} (hWays : latest.ways? = latest'.ways?) :
    FailsUpwards latest rest ↔ FailsUpwards latest' rest := by
  induction rest with
  | nil => exact Iff.rfl
  | cons lower rest ih => rw [FailsUpwards, FailsUpwards, Operand.fits_congr rfl hWays, ih]

theorem failsUpwards_of_none (hNone : ∀ operand ∈ rest, operand.falls = none) : FailsUpwards latest rest := by
  induction rest generalizing latest with
  | nil => trivial
  | cons lower rest ih =>
      obtain ⟨hLower, hRest⟩ := List.forall_mem_cons.mp hNone
      rw [FailsUpwards]
      split
      · exact ih hRest
      · exact ⟨hLower, ih hRest⟩

/-- A run that nothing is left to join in goes on below with one that does not fit, or that is joined and has nothing
left to join either. -/
theorem failsUpwards_append {others below : List Operand} (folded : Folded (latest :: others))
    (hOthers : ∀ operand ∈ others, operand.falls = none)
    (hBelow : FailsUpwards ((latest :: others).getLast (List.cons_ne_nil _ _)) below) :
    FailsUpwards latest (others ++ below) := by
  induction others generalizing latest with
  | nil => exact hBelow
  | cons lower others ih =>
      obtain ⟨hFits, hApart⟩ := List.isChain_cons_cons.mp folded.apart
      obtain ⟨hLower, hOthers⟩ := List.forall_mem_cons.mp hOthers
      have hRest : Folded (lower :: others) := ⟨(List.forall_mem_cons.mp folded.conditions).2, hApart⟩
      rw [List.cons_append, FailsUpwards, if_neg (by simp [hFits])]
      exact ⟨hLower, ih hRest hOthers (by simpa using hBelow)⟩

namespace RunJoins

/-- No target is new. -/
theorem ways (joins : RunJoins latest rest result) :
    ∀ operand ∈ result, ∃ origin ∈ latest :: rest, operand.ways? = origin.ways? := by
  induction joins with
  | last latest => exact fun operand hOperand => ⟨operand, hOperand, rfl⟩
  | join supply hLower hUpper hMerge hJoined below ih =>
      intro operand hOperand
      obtain ⟨origin, hOrigin, hWays⟩ := ih operand hOperand
      rcases List.mem_cons.mp hOrigin with rfl | hOrigin
      · exact ⟨_, List.mem_cons_self, hWays.trans (ways?_merge hUpper hJoined)⟩
      · exact ⟨origin, List.mem_cons_of_mem _ (List.mem_cons_of_mem _ hOrigin), hWays⟩
  | keep hFits below ih =>
      intro operand hOperand
      rcases List.mem_cons.mp hOperand with rfl | hOperand
      · exact ⟨operand, List.mem_cons_self, rfl⟩
      · obtain ⟨origin, hOrigin, hWays⟩ := ih operand hOperand
        exact ⟨origin, List.mem_cons_of_mem _ hOrigin, hWays⟩

/-- The uppermost condition keeps its targets, and no other one that is left names a node to fail to. -/
theorem fails (joins : RunJoins latest rest result) (hFails : FailsUpwards latest rest) :
    ∃ top others, result = top :: others ∧ top.ways? = latest.ways? ∧ ∀ operand ∈ others, operand.falls = none := by
  induction joins with
  | last latest => exact ⟨latest, [], rfl, rfl, by simp⟩
  | join supply hLower hUpper hMerge hJoined below ih =>
      have hWays := ways?_merge hUpper hJoined
      rw [FailsUpwards, if_pos (by simp [Operand.fits, hLower, hUpper, hMerge]), ← failsUpwards_congr hWays] at hFails
      obtain ⟨top, others, hResult, hTop, hOthers⟩ := ih hFails
      exact ⟨top, others, hResult, hTop.trans hWays, hOthers⟩
  | @keep latest lower rest result hFits below ih =>
      rw [FailsUpwards, if_neg (by simp [hFits])] at hFails
      obtain ⟨top, others, hResult, hTop, hOthers⟩ := ih hFails.2
      refine ⟨latest, result, rfl, rfl, ?_⟩
      rw [hResult]
      exact List.forall_mem_cons.mpr ⟨(Operand.falls_of_ways hTop).trans hFails.1, hOthers⟩

variable (meaning : Meaning σ) {above : StateM σ (Option NodeId)}

/-- Control goes where it went before. -/
theorem run (joins : RunJoins latest rest result) (hFails : FailsUpwards latest rest)
    (hLatest : latest.falls = none ∨ above = pure latest.falls) :
    result.reverse.foldr meaning.act above = (latest :: rest).reverse.foldr meaning.act above := by
  simp only [List.foldr_reverse]
  induction joins generalizing above with
  | last => rfl
  | @join latest lower joined rest result left right supply hLower hUpper hMerge hJoined below ih =>
      have hWays := ways?_merge hUpper hJoined
      rw [FailsUpwards, if_pos (by simp [Operand.fits, hLower, hUpper, hMerge]), ← failsUpwards_congr hWays] at hFails
      have hAct : meaning.act joined above = meaning.act lower (meaning.act latest above) :=
        meaning.act_merge hMerge supply hLower hUpper hJoined (Operand.falls_eq hUpper ▸ hLatest)
      rw [ih hFails (Operand.falls_of_ways hWays ▸ hLatest), List.foldl_cons, hAct]
      rfl
  | keep hFits below ih =>
      rw [FailsUpwards, if_neg (by simp [hFits])] at hFails
      exact ih hFails.2 (.inl hFails.1)

end RunJoins

/-! ### Nodes -/

/-- Where control goes when the operands of the node have run and no condition has jumped. -/
def leadsTo (graph : Graph) (id : NodeId) : Option NodeId := (graph.node id).destination.bind Destination.node?

/-- Runs the operands of a node and yields the node that control goes to, or nothing at the end of control. -/
def runNode (meaning : Meaning σ) (graph : Graph) (id : NodeId) : StateM σ (Option NodeId) :=
  (graph.node id).stack.foldr meaning.act (pure (graph.leadsTo id))

/-- Where control stands. -/
inductive Control where
  | entering (id : NodeId)
  /-- Control has ended in the node. -/
  | ended (id : NodeId)

/-- Where control stands after a node. -/
def Control.after (id : NodeId) : Option NodeId → Control
  | some target => .entering target
  | none => .ended id

/-- Runs one node. -/
def step (meaning : Meaning σ) (graph : Graph) : Control × σ → Option (Control × σ)
  | (.entering id, state) =>
    let (target, state) := (graph.runNode meaning id).run state
    some (.after id target, state)
  | (.ended _, _) => none

section

variable (meaning : Meaning σ) {stack : List Operand} {above : StateM σ (Option NodeId)}

/-- Control goes where some condition jumps to or where it goes above them. -/
theorem foldr_act_induction {motive : Option NodeId → Prop}
    (hJumps : ∀ operand ∈ stack, ∀ target, operand.jump? = some target → motive target)
    (hAbove : ∀ state, motive (above.run state).1) (state : σ) :
    motive ((stack.foldr meaning.act above).run state).1 := by
  induction stack generalizing state with
  | nil => exact hAbove state
  | cons operand stack ih =>
      obtain ⟨hOperand, hStack⟩ := List.forall_mem_cons.mp hJumps
      rw [List.foldr_cons]
      cases hTest : operand.condition? with
      | none =>
          rw [meaning.act_other hTest]
          exact ih hStack _
      | some test =>
          rw [meaning.act_condition hTest]
          rw [StateT.run_bind]
          rcases (test.truth meaning.toDecision).run state with ⟨holds, after⟩
          cases holds with
          | true => exact hOperand _ (Operand.jump?_eq hTest)
          | false => exact ih hStack after

/-- What comes after the operands may be done after them, if it leaves the jumps of their conditions alone. -/
theorem foldr_act_bind {go : Option NodeId → StateM σ (Option NodeId)}
    (hJumps : ∀ operand ∈ stack, ∀ target, operand.jump? = some target → go target = pure target) :
    stack.foldr meaning.act (above >>= go) = stack.foldr meaning.act above >>= go := by
  induction stack with
  | nil => rfl
  | cons operand stack ih =>
      obtain ⟨hOperand, hStack⟩ := List.forall_mem_cons.mp hJumps
      rw [List.foldr_cons, List.foldr_cons, ih hStack]
      cases hTest : operand.condition? with
      | none =>
          rw [meaning.act_other hTest, meaning.act_other hTest, bind_assoc]
      | some test =>
          rw [meaning.act_condition hTest, meaning.act_condition hTest, bind_assoc]
          congr
          funext holds
          cases holds with
          | true => exact (hOperand _ (Operand.jump?_eq hTest)).symm.trans (pure_bind _ _).symm
          | false => rfl

end

end Graph

end Decompiler
