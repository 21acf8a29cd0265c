import Decompiler.Proofs.Dominance.Session

/-!
Common dominators, whatever was asked before. Queries may also be made while some node leads back to itself. Such a
query comes back to a node in progress and may remember a wrong answer, but it leaves no query in progress, and only a
change that flags dominators as outdated takes the cycle away. So where no node leads back to itself, all that is
remembered is right, and the search finds the deepest of the dominators that some nodes have in common.
-/

namespace Decompiler.Graph

open Relation

variable {graph after : Graph} {id : NodeId}

/-! ### Queries in graphs with cycles -/

/-- A query leaves the queries in progress as they were. -/
theorem nested_dominatorWithin (depth : Nat) (queries : List NodeId) (id : NodeId) :
    GraphM.Ensures (Nested queries) (dominatorWithin depth id) fun _ => True := by
  induction depth generalizing queries id with
  | zero => exact .pure trivial
  | succ depth ih =>
      intro graph nested
      refine ⟨trivial, ?_⟩
      cases hState : (graph.node id).dominator with
      | known answer =>
          rw [run_dominatorWithin_known depth nested.refreshDominance hState]
          exact nested
      | computing =>
          rw [run_dominatorWithin_computing depth nested.refreshDominance hState]
          exact nested.taintWithin id
      | unknown =>
          rw [run_dominatorWithin depth nested.refreshDominance hState]
          have hAnswer (answer : GraphM (Option NodeId))
              (hKept : GraphM.Ensures (Nested (id :: queries)) answer fun _ => True) :
              Nested queries ((answer >>= fun result => do
                modify (·.leaveQuery id result)
                return result).run (graph.enterQuery id)).2 :=
            (hKept _ (nested.enterQuery id)).2.leaveQuery _
          refine hAnswer _ ?_
          split
          · exact .pure trivial
          · exact .pure trivial
          · exact (GraphM.Ensures.compositional _).firstCommon (ih (id :: queries))
              (fun _ nested => ⟨trivial, nested.giveUp⟩) _ _ _ _

/-! ### Between queries -/

/-- No query is in progress, and unless dominators are outdated no node is marked so. -/
structure Rested (graph : Graph) : Prop where
  idle : graph.computing = []
  unmarked : graph.stale = false → ∀ id, (graph.node id).dominator ≠ .computing

theorem Nested.rested (nested : Nested [] graph) : Rested graph where
  idle := List.map_eq_nil_iff.mp nested.computing
  unmarked _ id hComputing := List.not_mem_nil (nested.marked id hComputing)

/-- Where outdated dominators are forgotten, a query may start. -/
theorem Rested.refreshed (rested : Rested graph) : Nested [] graph.refreshDominance := by
  cases hStale : graph.stale with
  | false =>
      have hSame : graph.refreshDominance = graph := by simp [refreshDominance, hStale]
      rw [hSame]
      exact ⟨by rw [rested.idle, List.map_nil], hStale, fun id hComputing =>
        absurd hComputing (rested.unmarked hStale id)⟩
  | true =>
      have hUnknown := unknown_refreshDominance hStale rested.idle
      refine ⟨?_, ?_, fun id hComputing => by simp [hUnknown] at hComputing⟩
      · simp [refreshDominance, hStale, rested.idle]
      · simp [refreshDominance, hStale, rested.idle]

/-- A query that is over leaves none in progress. -/
theorem rested_dominator (id : NodeId) : GraphM.Ensures Rested (dominator id) fun _ => True := by
  refine GraphM.Ensures.get.bind fun _ _ graph rested => ⟨trivial, ?_⟩
  rw [run_dominatorWithin_refreshed]
  exact (nested_dominatorWithin _ [] id _ rested.refreshed).2.rested

namespace Query

/-- Any query leaves none in progress. -/
theorem rested (query : Query) (rested : Rested graph) : Rested (query.apply graph) := by
  have kept := GraphM.Ensures.compositional Rested
  have hGet : GraphM.Ensures Rested (MonadState.get : GraphM Graph) fun _ => True :=
    GraphM.Ensures.get.weaken fun _ _ => trivial
  cases query with
  | dominator id => exact (rested_dominator id graph rested).2
  | hasDominator id candidate => exact (kept.hasDominator hGet rested_dominator id candidate graph rested).2
  | lowestCommonDominator ids => exact (kept.lowestCommonDominator hGet rested_dominator ids graph rested).2
  | dominatorChildren id => exact (kept.dominatorChildren hGet rested_dominator id graph rested).2

/-- No query changes the edges. -/
theorem sameFacts (query : Query) (graph : Graph) : SameFacts graph (query.apply graph) := by
  cases query with
  | dominator id => exact onlyAsks_dominator id graph
  | hasDominator id candidate => exact onlyAsks_hasDominator id candidate graph
  | lowestCommonDominator ids => exact onlyAsks_lowestCommonDominator ids graph
  | dominatorChildren id => exact onlyAsks_dominatorChildren id graph

end Query

/-- No query is in progress. What is remembered is right if no node leads back to itself, or it is outdated. -/
structure Coherent (graph : Graph) : Prop where
  rested : Rested graph
  right : graph.Acyclic → Trusted graph graph

namespace Coherent

theorem of_unasked (unasked : Unasked graph) : Coherent graph where
  rested := ⟨unasked.1, fun hSettled id => by simp [unasked.2.resolve_left (by simp [hSettled])]⟩
  right _ := .of_unasked unasked

/-- A change that takes the last cycle away flags dominators as outdated. -/
theorem flags (coherent : Coherent graph) (flags : Flags graph after) : Coherent after where
  rested := ⟨flags.computing.trans coherent.rested.idle, fun hSettled id => by
    obtain ⟨hKept, hSame⟩ := flags.flagged.resolve_left (by simp [hSettled])
    rw [dominator_congr (hSame id)]
    exact coherent.rested.unmarked (hKept ▸ hSettled) id⟩
  right acyclic := by
    rcases flags.flagged with hRaised | ⟨_, hSame⟩
    · have hIdle := flags.computing.trans coherent.rested.idle
      exact ⟨.refl after, hIdle, rfl, fun hSettled => by simp [hRaised] at hSettled⟩
    · have hBefore : graph.Acyclic := acyclic.congr fun _ id => (leads_congr (hSame id)).symm
      exact (coherent.right hBefore).flags flags

/-- Queries leave right what is right, and are not trusted while some node leads back to itself. -/
theorem query (coherent : Coherent graph) (query : Query) : Coherent (query.apply graph) where
  rested := query.rested coherent.rested
  right acyclic := by
    have hBefore : graph.Acyclic := acyclic.congr fun _ _ => (query.sameFacts graph).leads_iff
    exact ((coherent.right hBefore).query hBefore query).rebase

end Coherent

namespace Step

/-- Every change is admissible when its turn comes. Queries may be made at any time. -/
def AllAdmissible : Graph → List Step → Prop
  | _, [] => True
  | graph, .change operation :: rest => operation.Admissible graph ∧ AllAdmissible (operation.apply graph) rest
  | graph, .ask query :: rest => AllAdmissible (query.apply graph) rest

instance : (graph : Graph) → (steps : List Step) → Decidable (AllAdmissible graph steps)
  | _, [] => inferInstanceAs (Decidable True)
  | graph, .change operation :: rest =>
    have := instDecidableAllAdmissible (operation.apply graph) rest
    inferInstanceAs (Decidable (_ ∧ _))
  | graph, .ask query :: rest => instDecidableAllAdmissible (query.apply graph) rest

/-- By induction on the steps. -/
theorem run_coherent (wellFormed : WellFormed graph) (coherent : Coherent graph) (steps : List Step)
    (hAdmissible : AllAdmissible graph steps) : Coherent (run graph steps) := by
  induction steps generalizing graph with
  | nil => exact coherent
  | cons step rest ih =>
      cases step with
      | change operation =>
          exact ih (hAdmissible.1.wellFormed wellFormed) (coherent.flags (hAdmissible.1.flags wellFormed)) hAdmissible.2
      | ask query =>
          exact ih (wellFormed.sameFacts (query.sameFacts graph)) (coherent.query query) hAdmissible

end Step

/-! ### The deepest common dominator -/

namespace IsClosest

variable {nodes : List NodeId} {result : Option NodeId}

/-- Where no node leads back to itself, the common dominator that all others dominate is the only one. -/
theorem eq_some_iff (closest : graph.IsClosest nodes result) (acyclic : graph.Acyclic) {found : NodeId} :
    result = some found ↔ graph.Common nodes found ∧ ∀ other, graph.Common nodes other → graph.Passes other found := by
  constructor
  · rintro rfl
    exact ⟨(closest found).mpr ⟨found, rfl, .refl graph found⟩, fun other hCommon => by
      simpa using (closest other).mp hCommon⟩
  · rintro ⟨hCommon, hDeepest⟩
    obtain ⟨deepest, rfl, hAbove⟩ := (closest found).mp hCommon
    have hBelow := hDeepest deepest ((closest deepest).mpr ⟨deepest, rfl, .refl graph deepest⟩)
    rw [Passes.antisymm acyclic hBelow hAbove]

/-- Nothing is found only if there is no common dominator. -/
theorem eq_none_iff (closest : graph.IsClosest nodes result) : result = none ↔ ∀ other, ¬graph.Common nodes other := by
  constructor
  · rintro rfl other hCommon
    simpa using (closest other).mp hCommon
  · intro hNone
    refine Option.eq_none_iff_forall_ne_some.mpr fun found hFound => ?_
    exact hNone found ((closest found).mpr ⟨found, hFound, .refl graph found⟩)

end IsClosest

/-- Common dominators are those of the same nodes in any order. -/
theorem common_congr {nodes others : List NodeId} (hSame : ∀ id, id ∈ others ↔ id ∈ nodes) (candidate : NodeId) :
    graph.Common others candidate ↔ graph.Common nodes candidate :=
  forall_congr' fun id => imp_congr_left (hSame id)

/-- After any changes and queries the search finds the common dominator that all others dominate, and nothing if there
is no common one. It matters only which nodes are in the list, not in which order. -/
theorem Step.lowestCommonDominator_exact (wellFormed : WellFormed graph) (unasked : Unasked graph) (steps : List Step)
    (hAdmissible : AllAdmissible graph steps) (acyclic : (run graph steps).Acyclic) (ids : List NodeId)
    (hIds : ids ≠ []) :
    let graph := run graph steps
    let result := ((lowestCommonDominator ids).run graph).1
    (∀ found, result = some found ↔
      graph.Common ids found ∧ ∀ other, graph.Common ids other → graph.Passes other found) ∧
      (result = none ↔ ∀ other, ¬graph.Common ids other) ∧
      ∀ others, (∀ id, id ∈ others ↔ id ∈ ids) → ((lowestCommonDominator others).run graph).1 = result := by
  have hTrusted := (run_coherent wellFormed (.of_unasked unasked) steps hAdmissible).right acyclic
  have hClosest (nodes : List NodeId) (hNodes : nodes ≠ []) :
      (run graph steps).IsClosest nodes ((lowestCommonDominator nodes).run (run graph steps)).1 := by
    obtain ⟨first, rest, rfl⟩ := List.exists_cons_of_ne_nil hNodes
    exact (ensures_lowestCommonDominator acyclic first rest _ hTrusted).1
  refine ⟨fun found => (hClosest ids hIds).eq_some_iff acyclic, (hClosest ids hIds).eq_none_iff, fun others hSame => ?_⟩
  have hOthers : others ≠ [] := by
    obtain ⟨first, hFirst⟩ := List.exists_mem_of_ne_nil ids hIds
    exact List.ne_nil_of_mem ((hSame first).mpr hFirst)
  refine Option.ext fun found => ?_
  simp only [(hClosest others hOthers).eq_some_iff acyclic, (hClosest ids hIds).eq_some_iff acyclic, common_congr hSame]

namespace Step

/-- Two nodes lead to each other when they are asked about. Then the edge back is marked, and a third node follows
them. Nothing leads to the last node. -/
def tangled : List Step :=
  [.change (.label 0), .change (.append 0), .change (.label 1), .change (.append 1), .change (.label 2),
    .change (.append 2), .change (.label 3), .change (.append 3), .change (.label 4), .change (.append 4),
    .change (.connect 0 1), .change (.connect 0 2), .change (.connect 1 2), .change (.connect 2 1), .ask (.dominator 2),
    .ask (.lowestCommonDominator [2, 1]), .change (.connect 2 3), .change .computeBackedges, .ask (.dominator 3)]

/-- The search is right after the queries within the cycle, for nodes with a common dominator and for others. -/
theorem lowestCommonDominator_exact_tangled :
    WellFormed {} ∧ Unasked {} ∧ AllAdmissible {} tangled ∧ (run {} tangled).Acyclic ∧
      (run {} tangled).Common [3, 1] 0 ∧
      (∀ other, (run {} tangled).Common [3, 1] other → (run {} tangled).Passes other 0) ∧
      ((lowestCommonDominator [1, 3]).run (run {} tangled)).1 = some 0 ∧
      ∀ other, ¬(run {} tangled).Common [3, 4] other := by
  have hUnasked : Unasked {} := ⟨rfl, .inr fun id => by rw [node_of_size_le (Nat.zero_le id)]⟩
  have hAdmissible : AllAdmissible {} tangled := by decide +kernel
  have acyclic : (run {} tangled).Acyclic := .of_depth ([0, 1, 2, 3, 0].getD · 0) (by decide +kernel)
  obtain ⟨hSome, _, hOrder⟩ :=
    lowestCommonDominator_exact .empty hUnasked tangled hAdmissible acyclic [3, 1] (by decide)
  obtain ⟨_, hNone, _⟩ := lowestCommonDominator_exact .empty hUnasked tangled hAdmissible acyclic [3, 4] (by decide)
  have hFound : ((lowestCommonDominator [3, 1]).run (run {} tangled)).1 = some 0 := by decide +kernel
  obtain ⟨hCommon, hDeepest⟩ := (hSome 0).mp hFound
  have hTurned := (hOrder [1, 3] (by simp [or_comm])).trans hFound
  exact ⟨.empty, hUnasked, hAdmissible, acyclic, hCommon, hDeepest, hTurned, hNone.mp (by decide +kernel)⟩

end Step

end Decompiler.Graph
