import Decompiler.Proofs.Dominance.Query

/-!
The answers of the search for dominators. Where no node leads back to itself, nested queries are for nodes
further up than all queries in progress, so none of them meets a query for its own node, and every answer is
the immediate dominator.
-/

namespace Decompiler.Graph

open Relation

variable {graph : Graph} {id : NodeId}

/-! ### Common dominators -/

/-- The candidate dominates all the given nodes. -/
def Common (graph : Graph) (nodes : List NodeId) (candidate : NodeId) : Prop :=
  ∀ id ∈ nodes, graph.Passes candidate id

/-- The closest of the nodes that dominate all the given ones; nothing if no node does. -/
def IsClosest (graph : Graph) (nodes : List NodeId) (result : Option NodeId) : Prop :=
  ∀ other, graph.Common nodes other ↔ ∃ found, result = some found ∧ graph.Passes other found

/-- A search that climbs from the first node has come to the candidate and left no common dominator behind. -/
structure Ahead (graph : Graph) (first : NodeId) (others : List NodeId) (candidate : NodeId) : Prop where
  above : graph.Passes candidate first
  ahead : ∀ other, graph.Common (first :: others) other → graph.Passes other candidate

namespace Ahead

variable {first : NodeId} {others : List NodeId} {candidate : NodeId}

theorem start (graph : Graph) (first : NodeId) (others : List NodeId) : Ahead graph first others first :=
  ⟨.refl graph first, fun _ hCommon => hCommon first List.mem_cons_self⟩

theorem found (ahead : Ahead graph first others candidate) (hCommon : graph.Common others candidate) :
    graph.IsClosest (first :: others) (some candidate) := fun other => by
  simp only [Option.some.injEq, exists_eq_left']
  refine ⟨ahead.ahead other, fun passes id hId => ?_⟩
  rcases List.mem_cons.mp hId with rfl | hOther
  · exact passes.trans ahead.above
  · exact passes.trans (hCommon id hOther)

/-- A candidate that is not common itself leaves all common dominators further up. -/
theorem up (ahead : Ahead graph first others candidate) (acyclic : graph.Acyclic)
    (hNot : ¬graph.Common others candidate) {next : Option NodeId} (hNext : graph.IsImmediate next candidate)
    {other : NodeId} (hCommon : graph.Common (first :: others) other) :
    ∃ found, next = some found ∧ graph.Passes other found := by
  refine (hNext.passes_iff acyclic ?_).mp (ahead.ahead other hCommon)
  rintro rfl
  exact hNot fun id hId => hCommon id (List.mem_cons_of_mem _ hId)

theorem last (ahead : Ahead graph first others candidate) (acyclic : graph.Acyclic)
    (hNot : ¬graph.Common others candidate) (hNext : graph.IsImmediate none candidate) :
    graph.IsClosest (first :: others) none := fun other => by
  simp only [reduceCtorEq, false_and, exists_false, iff_false]
  intro hCommon
  obtain ⟨_, hNone, _⟩ := ahead.up acyclic hNot hNext hCommon
  cases hNone

theorem next (ahead : Ahead graph first others candidate) (acyclic : graph.Acyclic)
    (hNot : ¬graph.Common others candidate) {next : NodeId} (hNext : graph.IsImmediate (some next) candidate) :
    Ahead graph first others next where
  above := Passes.trans hNext.1 ahead.above
  ahead other hCommon := by simpa using ahead.up acyclic hNot hNext hCommon

end Ahead

/-- The closest node that dominates all sources of a node is its immediate dominator. -/
theorem IsClosest.isImmediate {result : Option NodeId} (closest : graph.IsClosest (graph.dominanceSources id) result)
    (acyclic : graph.Acyclic) (hSource : graph.dominanceSources id ≠ []) : graph.IsImmediate result id := by
  rw [isImmediate_iff acyclic]
  intro other
  obtain ⟨source, hMember⟩ := List.exists_mem_of_ne_nil _ hSource
  rw [Passes.iff_sources acyclic ⟨source, mem_dominanceSources.mp hMember⟩, ← closest other]
  simp [Common, mem_dominanceSources]

/-! ### Chains -/

section Chains

variable {truth : Graph} {invariant : Graph → Prop} {step : NodeId → GraphM (Option NodeId)} {sought : NodeId}
  (reachable : NodeId → Prop)

/-- The chain of a node holds its dominators. Steps are taken from nodes that are closer and closer to the
root. -/
theorem ensures_onChain (acyclic : truth.Acyclic)
    (hClosed : ∀ source id, TransGen truth.Leads source id → reachable id → reachable source)
    (hStep : ∀ id, reachable id → GraphM.Ensures invariant (step id) (truth.IsImmediate · id))
    (fuel : Nat) (seen : List NodeId) (id : NodeId) (hId : reachable id) (hFuel : truth.rank id < fuel)
    (hSeen : ∀ other ∈ seen, truth.rank id < truth.rank other) :
    GraphM.Ensures invariant (onChain step sought fuel seen id) (· = true ↔ truth.Passes sought id) := by
  induction fuel generalizing seen id with
  | zero => exact absurd hFuel (Nat.not_lt_zero _)
  | succ fuel ih =>
      have hFresh : id ∉ seen := fun hMember => Nat.lt_irrefl _ (hSeen id hMember)
      rw [onChain]
      simp only [List.contains_eq_mem, hFresh, decide_false, Bool.false_eq_true, ↓reduceIte]
      split
      · next hFound =>
          subst hFound
          exact .pure (by simpa using Passes.refl truth id)
      · next hOther =>
          refine (hStep id hId).bind fun next hNext => ?_
          have hPasses : truth.Passes sought id ↔ _ := hNext.passes_iff acyclic (Ne.symm hOther)
          cases next with
          | none => exact .pure (by simpa using hPasses)
          | some next =>
              have hLeads := hNext.leads_to acyclic
              have hRank := rank_lt_of_transGen acyclic hLeads
              refine (ih (id :: seen) next (hClosed _ _ hLeads hId) (by omega) ?_).weaken fun found hFound => ?_
              · intro other hMember
                rcases List.mem_cons.mp hMember with rfl | hEarlier
                · exact hRank
                · exact hRank.trans (hSeen other hEarlier)
              · simpa [hPasses] using hFound

/-- The first common node on the chain of the first node is the closest one. -/
theorem ensures_firstCommon (acyclic : truth.Acyclic)
    (hClosed : ∀ source id, TransGen truth.Leads source id → reachable id → reachable source)
    (hStep : ∀ id, reachable id → GraphM.Ensures invariant (step id) (truth.IsImmediate · id))
    (first : NodeId) (others : List NodeId) (hOthers : ∀ other ∈ others, reachable other) (bound : Nat)
    (hBound : truth.nodes.size < bound) (fuel : Nat) (candidate : NodeId) (hCandidate : reachable candidate)
    (hFuel : truth.rank candidate < fuel) (ahead : Ahead truth first others candidate) :
    GraphM.Ensures invariant (firstCommon step others bound fuel candidate)
      (truth.IsClosest (first :: others)) := by
  induction fuel generalizing candidate with
  | zero => exact absurd hFuel (Nat.not_lt_zero _)
  | succ fuel ih =>
      rw [firstCommon]
      have hTest : ∀ source ∈ others, GraphM.Ensures invariant (onChain step candidate bound [] source)
          (· = true ↔ truth.Passes candidate source) := fun source hSource =>
        ensures_onChain reachable acyclic hClosed hStep bound [] source (hOthers source hSource)
          ((rank_le truth source).trans_lt hBound) (by simp)
      refine (GraphM.Ensures.allM others hTest).bind fun common hCommon => ?_
      cases common with
      | true => exact .pure (ahead.found (hCommon.mp rfl))
      | false =>
          have hNot : ¬truth.Common others candidate := fun hAll => by simpa using hCommon.mpr hAll
          refine (hStep candidate hCandidate).bind fun next hNext => ?_
          cases next with
          | none => exact .pure (ahead.last acyclic hNot hNext)
          | some next =>
              have hLeads := hNext.leads_to acyclic
              have hRank := rank_lt_of_transGen acyclic hLeads
              exact ih next (hClosed _ _ hLeads hCandidate) (by omega) (ahead.next acyclic hNot hNext)

end Chains

/-! ### Queries in progress -/

/-- Some queries are in progress, innermost first. Nothing is outdated, and only nodes in progress are marked so. -/
structure Nested (queries : List NodeId) (graph : Graph) : Prop where
  computing : graph.computing.map Prod.fst = queries
  settled : graph.stale = false
  marked : ∀ id, (graph.node id).dominator = .computing → id ∈ queries

namespace Nested

variable {queries : List NodeId}

theorem refreshDominance (nested : Nested queries graph) : graph.refreshDominance = graph := by
  simp [Graph.refreshDominance, nested.settled]

theorem enterQuery (nested : Nested queries graph) (id : NodeId) : Nested (id :: queries) (graph.enterQuery id) where
  computing := congrArg (id :: ·) nested.computing
  settled := nested.settled
  marked other hComputing := by
    change ((graph.update id _).node other).dominator = _ at hComputing
    rw [node_update] at hComputing
    split at hComputing
    · next hSame => exact hSame.1 ▸ List.mem_cons_self
    · exact List.mem_cons_of_mem _ (nested.marked other hComputing)

theorem giveUp (nested : Nested queries graph) : Nested queries graph.giveUp :=
  ⟨nested.computing, nested.settled, nested.marked⟩

theorem taintWithin (nested : Nested queries graph) (id : NodeId) : Nested queries (graph.taintWithin id) := by
  unfold Graph.taintWithin
  split
  · refine ⟨?_, nested.settled, nested.marked⟩
    have hInner : (graph.computing.takeWhile (·.1 != id)) ++
        graph.computing.drop (graph.computing.takeWhile (·.1 != id)).length = graph.computing :=
      (List.prefix_iff_eq_append.mp (List.takeWhile_prefix _))
    have hNodes := congrArg (List.map Prod.fst) hInner
    rw [List.map_append] at hNodes
    simpa [Function.comp_def, ← nested.computing] using hNodes
  · exact nested

theorem leaveQuery (nested : Nested (id :: queries) graph) (result : Option NodeId) :
    Nested queries (graph.leaveQuery id result) where
  computing := by
    change (graph.computing.drop 1).map Prod.fst = queries
    rw [List.map_drop, nested.computing, List.drop_one, List.tail_cons]
  settled := nested.settled
  marked other hComputing := by
    change ((graph.update id _).node other).dominator = _ at hComputing
    rw [node_update] at hComputing
    split at hComputing
    · dsimp only at hComputing
      split at hComputing <;> cases hComputing
    · next hOther =>
        refine (List.mem_cons.mp (nested.marked other hComputing)).resolve_left ?_
        rintro rfl
        refine hOther ⟨rfl, ?_⟩
        by_contra hOutside
        simp [node_of_size_le (Nat.not_lt.mp hOutside)] at hComputing

end Nested

/-! ### Answers -/

/-- Some queries are in progress, innermost first, none of them marked. What is remembered is right for the
graph as it is. -/
structure Underway (truth : Graph) (queries : List NodeId) (graph : Graph) : Prop where
  same : SameFacts truth graph
  computing : graph.computing = queries.map (·, false)
  settled : graph.stale = false
  marked : ∀ id, (graph.node id).dominator = .computing → id ∈ queries
  endless : graph.endless = truth.endless
  right : ∀ id answer, (graph.node id).dominator = .known answer → truth.IsImmediate answer id

namespace Underway

variable {truth : Graph} {queries : List NodeId}

theorem nested (underway : Underway truth queries graph) : Nested queries graph :=
  ⟨by simp [underway.computing, Function.comp_def], underway.settled, underway.marked⟩

theorem enterQuery (underway : Underway truth queries graph) (id : NodeId) :
    Underway truth (id :: queries) (graph.enterQuery id) where
  same := underway.same.trans (sameFacts_enterQuery graph id)
  computing := by simp [Graph.enterQuery, Graph.update, underway.computing]
  settled := underway.settled
  marked := (underway.nested.enterQuery id).marked
  endless := underway.endless
  right other answer hKnown := by
    change ((graph.update id _).node other).dominator = _ at hKnown
    rw [node_update] at hKnown
    split at hKnown
    · cases hKnown
    · exact underway.right other answer hKnown

/-- The innermost query ends with the right answer. -/
theorem leaveQuery {id : NodeId} (underway : Underway truth (id :: queries) graph) {result : Option NodeId}
    (hResult : truth.IsImmediate result id) : Underway truth queries (graph.leaveQuery id result) := by
  have hNode (other : NodeId) : ((graph.leaveQuery id result).node other).dominator =
      if id = other ∧ other < graph.nodes.size then .known result else (graph.node other).dominator := by
    change ((graph.update id _).node other).dominator = _
    rw [node_update]
    split
    · simp [underway.computing]
    · rfl
  refine ⟨underway.same.trans (sameFacts_leaveQuery graph id result), ?_, underway.settled,
    (underway.nested.leaveQuery result).marked, underway.endless, ?_⟩
  · simp [Graph.leaveQuery, Graph.update, underway.computing]
  · intro other answer hKnown
    rw [hNode] at hKnown
    split at hKnown
    · next hSame =>
        obtain ⟨rfl, _⟩ := hSame
        cases hKnown
        exact hResult
    · exact underway.right other answer hKnown

end Underway

/-- A remembered answer is the answer. -/
theorem run_dominatorWithin_known {id : NodeId} (depth : Nat) (hRefresh : graph.refreshDominance = graph)
    {answer : Option NodeId} (hState : (graph.node id).dominator = .known answer) :
    (dominatorWithin (depth + 1) id).run graph = (answer, graph) := by
  rw [dominatorWithin, StateT.run_bind, StateT.run_modify, pure_bind, StateT.run_bind, StateT.run_get, pure_bind]
  simp only [hRefresh, hState]
  rfl

/-- A query that comes back to a node in progress finds nothing there, and the answers in between are not remembered. -/
theorem run_dominatorWithin_computing {id : NodeId} (depth : Nat) (hRefresh : graph.refreshDominance = graph)
    (hState : (graph.node id).dominator = .computing) :
    (dominatorWithin (depth + 1) id).run graph = (none, graph.taintWithin id) := by
  rw [dominatorWithin, StateT.run_bind, StateT.run_modify, pure_bind, StateT.run_bind, StateT.run_get, pure_bind]
  simp only [hRefresh, hState]
  rfl

/-- What a query does for a node whose dominator is not known: it asks for the sources of the node in a query
of its own. -/
theorem run_dominatorWithin {id : NodeId} (depth : Nat) (hRefresh : graph.refreshDominance = graph)
    (hState : (graph.node id).dominator = .unknown) :
    (dominatorWithin (depth + 1) id).run graph =
      ((match graph.dominanceSources id with
        | [] => pure none
        | [source] => pure (some source)
        | source :: others => firstCommon (dominatorWithin depth) others (graph.nodes.size + 2)
            (2 * (graph.nodes.size + 2)) source : GraphM (Option NodeId)) >>= fun result => do
        modify (·.leaveQuery id result)
        return result).run (graph.enterQuery id) := by
  rw [dominatorWithin, StateT.run_bind, StateT.run_modify, pure_bind, StateT.run_bind, StateT.run_get, pure_bind]
  simp only [hRefresh, hState]
  rw [StateT.run_bind, StateT.run_modify, pure_bind]
  cases graph.dominanceSources id with
  | nil => rfl
  | cons source others => cases others <;> rfl

/-- A query answers with the immediate dominator. All queries in progress are for nodes that this one leads
to, so no nested query comes back to one of them. -/
theorem ensures_dominatorWithin {truth : Graph} (acyclic : truth.Acyclic) (depth : Nat) (queries : List NodeId)
    (id : NodeId) (hDepth : truth.rank id < depth) (hBelow : ∀ query ∈ queries, TransGen truth.Leads id query) :
    GraphM.Ensures (Underway truth queries) (dominatorWithin depth id) (truth.IsImmediate · id) := by
  induction depth generalizing queries id with
  | zero => exact absurd hDepth (Nat.not_lt_zero _)
  | succ depth ih =>
      intro graph underway
      have hFresh : id ∉ queries := fun hQuery => acyclic id (hBelow id hQuery)
      cases hState : (graph.node id).dominator with
      | known answer =>
          rw [run_dominatorWithin_known depth underway.nested.refreshDominance hState]
          exact ⟨underway.right id answer hState, underway⟩
      | computing => exact absurd (underway.marked id hState) hFresh
      | unknown =>
          have hEntered := underway.enterQuery id
          rw [run_dominatorWithin depth underway.nested.refreshDominance hState, underway.same.dominanceSources id,
            underway.same.size]
          suffices hAnswer : ∀ answer : GraphM (Option NodeId),
              GraphM.Ensures (Underway truth (id :: queries)) answer (truth.IsImmediate · id) →
              truth.IsImmediate ((answer >>= fun result => do
                modify (·.leaveQuery id result)
                return result).run (graph.enterQuery id)).1 id ∧
              Underway truth queries ((answer >>= fun result => do
                modify (·.leaveQuery id result)
                return result).run (graph.enterQuery id)).2 by
            refine hAnswer _ ?_
            split
            · next hNone =>
                have hFirst : ∀ source, ¬truth.Leads source id := fun source hLeads => by
                  simpa [hNone] using mem_dominanceSources.mpr hLeads
                refine .pure ((isImmediate_iff acyclic).mpr fun other => ?_)
                simpa using fun hOther passes => hOther (Passes.eq_of_first hFirst passes)
            · next source hSource =>
                refine .pure (IsClosest.isImmediate (fun other => ?_) acyclic (by simp [hSource]))
                simp [Common, hSource]
            · next source others _ hSources =>
                have hLeads (other : NodeId) (hOther : other ∈ source :: others) : truth.Leads other id :=
                  mem_dominanceSources.mp (hSources ▸ hOther)
                have hSource := hLeads source List.mem_cons_self
                refine (ensures_firstCommon (TransGen truth.Leads · id) acyclic
                  (fun _ _ => TransGen.trans) (fun other hOther => ?_) source others
                  (fun other hOther => .single (hLeads other (List.mem_cons_of_mem _ hOther))) _ (by omega) _
                  source (.single hSource) ?_ (.start truth source others)).weaken fun result hClosest =>
                    IsClosest.isImmediate (hSources ▸ hClosest) acyclic (by simp [hSources])
                · refine ih (id :: queries) other ?_ ?_
                  · have := rank_lt_of_transGen acyclic hOther
                    omega
                  · intro query hQuery
                    rcases List.mem_cons.mp hQuery with rfl | hQuery
                    · exact hOther
                    · exact hOther.trans (hBelow query hQuery)
                · have := rank_le truth source
                  omega
          intro answer hAnswer
          obtain ⟨hResult, hUnderway⟩ := hAnswer _ hEntered
          exact ⟨hResult, hUnderway.leaveQuery hResult⟩

end Decompiler.Graph
