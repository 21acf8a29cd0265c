import Decompiler.Proofs.Dominance.Query

/-!
Where queries for dominators can lead, whatever the graph is: to a node that is asked about, a source of some node, or
a node that is remembered.
-/

namespace Decompiler.Graph

/-- All nodes that a query can come to from others lie inside. -/
structure Inside (inside : NodeId → Prop) (graph : Graph) : Prop where
  sources : ∀ id, ∀ source ∈ graph.dominanceSources id, inside source
  remembered : ∀ id found, (graph.node id).dominator = .known (some found) → inside found

variable {inside : NodeId → Prop} {graph after : Graph}

namespace Inside

/-- Only what is remembered may lead elsewhere after a query. -/
theorem sameFacts (lies : Inside inside graph) (same : SameFacts graph after)
    (hRemembered : ∀ id found, (after.node id).dominator = .known (some found) → inside found) :
    Inside inside after where
  sources id source hSource := lies.sources id source (same.dominanceSources id ▸ hSource)
  remembered := hRemembered

/-- Forgetting leads nowhere new. -/
theorem refreshDominance (lies : Inside inside graph) : Inside inside graph.refreshDominance := by
  refine lies.sameFacts (sameFacts_refreshDominance graph) fun id found hKnown => ?_
  unfold Graph.refreshDominance at hKnown
  split at hKnown
  · by_cases hSize : id < graph.nodes.size <;> simp [node, Array.getD_eq_getD_getElem?, hSize] at hKnown
  · exact lies.remembered id found hKnown

/-- What is noted about one node is no new answer, or lies inside. -/
theorem note (lies : Inside inside graph) {id : NodeId} {state : DominatorState} {computing : List (NodeId × Bool)}
    (same : SameFacts graph { graph.update id (fun node => { node with dominator := state }) with computing })
    (hState : ∀ found, state = .known (some found) → inside found) :
    Inside inside { graph.update id (fun node => { node with dominator := state }) with computing } := by
  refine lies.sameFacts same fun other found hKnown => ?_
  change ((graph.update id _).node other).dominator = _ at hKnown
  rw [node_update] at hKnown
  split at hKnown
  · exact hState found hKnown
  · exact lies.remembered other found hKnown

theorem enterQuery (lies : Inside inside graph) (id : NodeId) : Inside inside (graph.enterQuery id) :=
  lies.note (sameFacts_enterQuery graph id) fun _ hNone => nomatch hNone

/-- An answer that lies inside may be remembered. -/
theorem leaveQuery (lies : Inside inside graph) (id : NodeId) {result : Option NodeId}
    (hResult : ∀ found, result = some found → inside found) : Inside inside (graph.leaveQuery id result) := by
  refine lies.note (sameFacts_leaveQuery graph id result) fun found hKnown => ?_
  split at hKnown
  · cases hKnown
  · exact hResult found (DominatorState.known.inj hKnown)

theorem giveUp (lies : Inside inside graph) : Inside inside graph.giveUp :=
  lies.sameFacts (sameFacts_giveUp graph) lies.remembered

theorem taintWithin (lies : Inside inside graph) (id : NodeId) : Inside inside (graph.taintWithin id) := by
  refine lies.sameFacts (sameFacts_taintWithin graph id) fun other found hKnown => ?_
  unfold Graph.taintWithin at hKnown
  split at hKnown <;> exact lies.remembered other found hKnown

end Inside

/-- The answer, if there is one, lies inside. -/
def AnswersInside (inside : NodeId → Prop) (result : Option NodeId) : Prop :=
  ∀ found, result = some found → inside found

theorem answersInside_none : AnswersInside inside none := fun _ hNone => absurd hNone.symm (Option.some_ne_none _)

/-- A search along a chain that begins inside stays inside. -/
theorem inside_firstCommon {step : NodeId → GraphM (Option NodeId)}
    (hStep : ∀ id, GraphM.Ensures (Inside inside) (step id) (AnswersInside inside)) (others : List NodeId)
    (bound fuel : Nat) {candidate : NodeId} (hCandidate : inside candidate) :
    GraphM.Ensures (Inside inside) (firstCommon step others bound fuel candidate) (AnswersInside inside) := by
  have kept := GraphM.Ensures.compositional (Inside inside)
  induction fuel generalizing candidate with
  | zero =>
      have hGiveUp : GraphM.Ensures (Inside inside) (modify Graph.giveUp) fun _ => True := fun _ lies =>
        ⟨trivial, lies.giveUp⟩
      rw [firstCommon]
      exact hGiveUp.bind fun _ _ => .pure answersInside_none
  | succ fuel ih =>
      rw [firstCommon]
      refine GraphM.Ensures.bind (kept.allM (fun other =>
        kept.onChain (fun id => (hStep id).weaken fun _ _ => trivial) _ _ _ _) others) fun common _ => ?_
      cases common with
      | true => exact .pure fun found hFound => Option.some.inj hFound ▸ hCandidate
      | false =>
          refine (hStep candidate).bind fun next hNext => ?_
          cases next with
          | none => exact .pure answersInside_none
          | some next => exact ih (hNext next rfl)

/-- By induction on the depth: a query goes to sources and to what is remembered of them. -/
theorem inside_dominatorWithin (depth : Nat) (id : NodeId) :
    GraphM.Ensures (Inside inside) (dominatorWithin depth id) (AnswersInside inside) := by
  induction depth generalizing id with
  | zero => exact .pure answersInside_none
  | succ depth ih =>
      have hRefresh : GraphM.Ensures (Inside inside) (modify refreshDominance) fun _ => True := fun _ lies =>
        ⟨trivial, lies.refreshDominance⟩
      rw [dominatorWithin]
      refine hRefresh.bind fun _ _ => GraphM.Ensures.get.bind fun graph lies => ?_
      split
      · next result hKnown => exact .pure fun found hFound => lies.remembered id found (hFound ▸ hKnown)
      · have hTaint : GraphM.Ensures (Inside inside) (modify (Graph.taintWithin · id)) fun _ => True := fun _ lies =>
          ⟨trivial, lies.taintWithin id⟩
        exact hTaint.bind fun _ _ => .pure answersInside_none
      · have hEnter : GraphM.Ensures (Inside inside) (modify (Graph.enterQuery · id)) fun _ => True := fun _ lies =>
          ⟨trivial, lies.enterQuery id⟩
        have hLeave (result : Option NodeId) (hResult : AnswersInside inside result) :
            GraphM.Ensures (Inside inside) (do modify (Graph.leaveQuery · id result); return result)
              (AnswersInside inside) := fun _ lies => ⟨hResult, lies.leaveQuery id hResult⟩
        refine hEnter.bind fun _ _ => ?_
        dsimp only
        split
        · exact GraphM.Ensures.bind (.pure answersInside_none) hLeave
        · next source hSources =>
            refine GraphM.Ensures.bind (.pure fun found hFound => ?_) hLeave
            exact Option.some.inj hFound ▸ lies.sources id source (hSources ▸ List.mem_cons_self)
        · next source others _ hSources =>
            have hSource := lies.sources id source (hSources ▸ List.mem_cons_self)
            exact (inside_firstCommon ih _ _ _ hSource).bind hLeave

/-- A query at any depth. -/
theorem inside_dominator (id : NodeId) :
    GraphM.Ensures (Inside inside) (dominator id) (AnswersInside inside) :=
  GraphM.Ensures.get.bind fun _ _ => inside_dominatorWithin _ id

theorem inside_hasDominator (id candidate : NodeId) :
    GraphM.Ensures (Inside inside) (hasDominator id candidate) fun _ => True :=
  (GraphM.Ensures.compositional (Inside inside)).hasDominator (GraphM.Ensures.get.weaken fun _ _ => trivial)
    (fun id => (inside_dominator id).weaken fun _ _ => trivial) id candidate

/-- Candidates are dominators of what lies inside. -/
theorem inside_commonDominatorFrom (others : List NodeId) (fuel : Nat) (seen : List NodeId) {candidate : NodeId}
    (hCandidate : inside candidate) :
    GraphM.Ensures (Inside inside) (commonDominatorFrom others fuel seen candidate) (AnswersInside inside) := by
  induction fuel generalizing seen candidate with
  | zero => exact .pure answersInside_none
  | succ fuel ih =>
      rw [commonDominatorFrom]
      split
      · exact .pure answersInside_none
      · refine GraphM.Ensures.bind ((GraphM.Ensures.compositional (Inside inside)).allM
          (fun other => inside_hasDominator other candidate) others) fun common _ => ?_
        split
        · exact .pure fun found hFound => Option.some.inj hFound ▸ hCandidate
        · refine (inside_dominator candidate).bind fun next hNext => ?_
          split
          · next next => exact ih _ (hNext next rfl)
          · exact .pure answersInside_none

/-- The deepest common dominator of nodes inside lies inside. -/
theorem inside_lowestCommonDominator {ids : List NodeId} (hIds : ∀ id ∈ ids, inside id) :
    GraphM.Ensures (Inside inside) (lowestCommonDominator ids) (AnswersInside inside) := by
  cases ids with
  | nil => exact .pure answersInside_none
  | cons first others =>
      exact GraphM.Ensures.get.bind fun _ _ => inside_commonDominatorFrom others _ [] (hIds first List.mem_cons_self)

end Decompiler.Graph
