import Decompiler.Proofs.Dominance.Answer
import Decompiler.Proofs.Dominance.Flagging

/-!
Queries for dominators between changes of a graph. What is remembered from one query to the next is right for
the graph as it is, or it is flagged as outdated. So the answers are the immediate dominators, whatever was asked
and changed before.
-/

namespace Decompiler.Graph

open Relation

variable {truth graph after : Graph} {id : NodeId}

/-! ### Between queries -/

/-- No query is in progress, and none gave up. What is remembered is right, unless it is flagged as outdated. -/
structure Trusted (truth graph : Graph) : Prop where
  same : SameFacts truth graph
  idle : graph.computing = []
  endless : graph.endless = truth.endless
  settled : graph.stale = false → Underway truth [] graph

theorem Underway.trusted (underway : Underway truth [] graph) : Trusted truth graph :=
  ⟨underway.same, underway.computing, underway.endless, fun _ => underway⟩

namespace Trusted

/-- Once outdated dominators are forgotten, all that is remembered is right. -/
theorem refreshed (trusted : Trusted truth graph) : Underway truth [] graph.refreshDominance := by
  cases hStale : graph.stale with
  | false =>
      have hSettled := trusted.settled hStale
      exact hSettled.nested.refreshDominance.symm ▸ hSettled
  | true =>
      have hUnknown := unknown_refreshDominance hStale trusted.idle
      refine ⟨trusted.same.trans (sameFacts_refreshDominance graph), ?_, ?_, ?_, ?_, ?_⟩
      · simp [refreshDominance, hStale, trusted.idle]
      · simp [refreshDominance, hStale, trusted.idle]
      · exact fun id hComputing => by simp [hUnknown] at hComputing
      · simpa [refreshDominance, hStale, trusted.idle] using trusted.endless
      · exact fun id answer hKnown => by simp [hUnknown] at hKnown

end Trusted

/-- Every query begins with forgetting outdated dominators. -/
theorem run_dominatorWithin_refreshed (graph : Graph) (depth : Nat) (id : NodeId) :
    (dominatorWithin (depth + 1) id).run graph = (dominatorWithin (depth + 1) id).run graph.refreshDominance := by
  simp only [dominatorWithin, StateT.run_bind, StateT.run_modify, pure_bind, refreshDominance_refreshDominance]

section Queries

variable (acyclic : truth.Acyclic)

include acyclic

theorem ensures_dominator (id : NodeId) :
    GraphM.Ensures (Trusted truth) (dominator id) (truth.IsImmediate · id) := by
  refine GraphM.Ensures.get.bind fun start hStart graph trusted => ?_
  have hDepth : truth.rank id < start.nodes.size + 2 := by
    have hRank := rank_le truth id
    have hSize := hStart.same.size
    omega
  rw [run_dominatorWithin_refreshed]
  exact (ensures_dominatorWithin acyclic _ [] id hDepth (by simp) _ trusted.refreshed).imp_right
    Underway.trusted

theorem ensures_hasDominator (id candidate : NodeId) :
    GraphM.Ensures (Trusted truth) (hasDominator id candidate) (· = true ↔ truth.Passes candidate id) := by
  refine GraphM.Ensures.get.bind fun graph trusted => ?_
  have hRank := rank_le truth id
  have hSize := trusted.same.size
  exact ensures_onChain (fun _ => True) acyclic (fun _ _ _ _ => trivial)
    (fun id _ => ensures_dominator acyclic id) _ [] id trivial (by omega) (by simp)

/-- The children of a node in the tree of immediate dominators. -/
theorem ensures_dominatorChildren (id : NodeId) :
    GraphM.Ensures (Trusted truth) (dominatorChildren id) fun children =>
      ∀ other, other ∈ children ↔ other ∈ truth.order ∧ truth.IsImmediate (some id) other := by
  refine GraphM.Ensures.get.bind fun graph trusted => ?_
  rw [← trusted.same.order]
  refine GraphM.Ensures.filterM _ fun other => ?_
  split
  · next hSelf =>
      refine .pure ?_
      simp only [Bool.false_eq_true, false_iff]
      exact fun immediate => immediate.2.1 (congrArg some hSelf.symm)
  · refine (ensures_dominator acyclic other).bind fun result hResult => .pure ?_
    rw [beq_iff_eq]
    exact ⟨fun hSame => hSame ▸ hResult, fun immediate => hResult.unique acyclic immediate⟩

theorem ensures_commonDominatorFrom (first : NodeId) (others : List NodeId) (fuel : Nat) (seen : List NodeId)
    (candidate : NodeId) (hFuel : truth.rank candidate < fuel)
    (hSeen : ∀ other ∈ seen, truth.rank candidate < truth.rank other)
    (ahead : Ahead truth first others candidate) :
    GraphM.Ensures (Trusted truth) (commonDominatorFrom others fuel seen candidate)
      (truth.IsClosest (first :: others)) := by
  induction fuel generalizing seen candidate with
  | zero => exact absurd hFuel (Nat.not_lt_zero _)
  | succ fuel ih =>
      have hFresh : candidate ∉ seen := fun hMember => Nat.lt_irrefl _ (hSeen candidate hMember)
      rw [commonDominatorFrom]
      simp only [List.contains_eq_mem, hFresh, decide_false, Bool.false_eq_true, ↓reduceIte]
      refine (GraphM.Ensures.allM others fun other _ =>
        ensures_hasDominator acyclic other candidate).bind fun common hCommon => ?_
      cases common with
      | true => exact .pure (ahead.found (hCommon.mp rfl))
      | false =>
          have hNot : ¬truth.Common others candidate := fun hAll => by simpa using hCommon.mpr hAll
          refine (ensures_dominator acyclic candidate).bind fun next hNext => ?_
          cases next with
          | none => exact .pure (ahead.last acyclic hNot hNext)
          | some next =>
              have hRank := rank_lt_of_transGen acyclic (hNext.leads_to acyclic)
              refine ih (candidate :: seen) next (by omega) (fun other hOther => ?_)
                (ahead.next acyclic hNot hNext)
              rcases List.mem_cons.mp hOther with rfl | hEarlier
              · exact hRank
              · exact hRank.trans (hSeen other hEarlier)

theorem ensures_lowestCommonDominator (first : NodeId) (others : List NodeId) :
    GraphM.Ensures (Trusted truth) (lowestCommonDominator (first :: others))
      (truth.IsClosest (first :: others)) := by
  refine GraphM.Ensures.get.bind fun graph trusted => ?_
  have hRank := rank_le truth first
  have hSize := trusted.same.size
  exact ensures_commonDominatorFrom acyclic first others _ [] first (by omega) (by simp)
    (.start truth first others)

end Queries

/-! ### Sessions -/

inductive Query where
  | dominator (id : NodeId)
  | hasDominator (id candidate : NodeId)
  | lowestCommonDominator (ids : List NodeId)
  | dominatorChildren (id : NodeId)

/-- The graph after a query. -/
def Query.apply (graph : Graph) : Query → Graph
  | .dominator id => ((Graph.dominator id).run graph).2
  | .hasDominator id candidate => ((Graph.hasDominator id candidate).run graph).2
  | .lowestCommonDominator ids => ((Graph.lowestCommonDominator ids).run graph).2
  | .dominatorChildren id => ((Graph.dominatorChildren id).run graph).2

inductive Step where
  | change (operation : Operation)
  | ask (query : Query)

namespace Step

def apply (graph : Graph) : Step → Graph
  | .change operation => operation.apply graph
  | .ask query => query.apply graph

/-- Queries are made only while no node leads back to itself. -/
def Permitted (graph : Graph) : Step → Prop
  | .change operation => operation.Admissible graph
  | .ask _ => graph.Acyclic

/-- The steps in turn. -/
def run (graph : Graph) (steps : List Step) : Graph := steps.foldl apply graph

/-- Every step is permitted when its turn comes. -/
def AllPermitted : Graph → List Step → Prop
  | _, [] => True
  | graph, step :: rest => step.Permitted graph ∧ AllPermitted (step.apply graph) rest

end Step

/-- The representation does not depend on what is remembered about dominators. -/
theorem WellFormed.sameFacts (wellFormed : WellFormed graph) (same : SameFacts graph after) :
    WellFormed after := by
  have hKeeps : Keeps False graph after :=
    wellFormed.congr same.order same.size (same.field Node.ties fun _ => rfl) fun id target hTarget => by
      rw [same.field Node.destination fun _ => rfl] at hTarget
      exact wellFormed.destination_lt id target hTarget
  exact hKeeps.wellFormed

theorem leads_congr {source : NodeId} (hSame : (after.node id).dominance = (graph.node id).dominance) :
    graph.Leads source id ↔ after.Leads source id := by
  simp only [Node.dominance, Prod.mk.injEq] at hSame
  rw [Leads, Leads, hSame.1, hSame.2.1, hSame.2.2.1]

theorem dominator_congr (hSame : (after.node id).dominance = (graph.node id).dominance) :
    (after.node id).dominator = (graph.node id).dominator := congrArg (·.2.2.2) hSame

/-- No query is in progress, and nothing is remembered but what is flagged as outdated. -/
def Unasked (graph : Graph) : Prop :=
  graph.computing = [] ∧ (graph.stale = true ∨ ∀ id, (graph.node id).dominator = .unknown)

namespace Trusted

theorem of_unasked (unasked : Unasked graph) : Trusted graph graph :=
  ⟨.refl graph, unasked.1, rfl, fun hSettled =>
    have hUnknown := unasked.2.resolve_left (by simp [hSettled])
    ⟨.refl graph, unasked.1, hSettled, fun id hComputing => by simp [hUnknown] at hComputing, rfl,
      fun id answer hKnown => by simp [hUnknown] at hKnown⟩⟩

/-- What is remembered is right for the graph as it is. -/
theorem rebase (trusted : Trusted truth graph) : Trusted graph graph :=
  ⟨.refl graph, trusted.idle, rfl, fun hSettled =>
    have hUnderway := trusted.settled hSettled
    ⟨.refl graph, trusted.idle, hSettled, hUnderway.marked, rfl, fun id answer hKnown =>
      (hUnderway.right id answer hKnown).congr fun _ _ => trusted.same.leads_iff.symm⟩⟩

/-- A change that flags dominators where it has to. -/
theorem flags (trusted : Trusted graph graph) (flags : Flags graph after) : Trusted after after := by
  refine ⟨.refl after, flags.computing.trans trusted.idle, rfl, fun hSettled => ?_⟩
  obtain ⟨hKept, hSame⟩ := flags.flagged.resolve_left (by simp [hSettled])
  have hUnderway := trusted.settled (hKept ▸ hSettled)
  have hState (id : NodeId) : (after.node id).dominator = (graph.node id).dominator := dominator_congr (hSame id)
  exact ⟨.refl after, flags.computing.trans trusted.idle, hSettled,
    fun id hComputing => hUnderway.marked id (hState id ▸ hComputing), rfl,
    fun id answer hKnown => (hUnderway.right id answer (hState id ▸ hKnown)).congr fun _ id => leads_congr (hSame id)⟩

/-- A query. -/
theorem query (trusted : Trusted graph graph) (acyclic : graph.Acyclic) (query : Query) :
    Trusted graph (query.apply graph) := by
  cases query with
  | dominator id => exact (ensures_dominator acyclic id graph trusted).2
  | hasDominator id candidate => exact (ensures_hasDominator acyclic id candidate graph trusted).2
  | lowestCommonDominator ids =>
      cases ids with
      | nil => exact trusted
      | cons first others => exact (ensures_lowestCommonDominator acyclic first others graph trusted).2
  | dominatorChildren id => exact (ensures_dominatorChildren acyclic id graph trusted).2

end Trusted

namespace Step

theorem apply_trusted (step : Step) (wellFormed : WellFormed graph) (trusted : Trusted graph graph)
    (hPermitted : step.Permitted graph) :
    WellFormed (step.apply graph) ∧ Trusted (step.apply graph) (step.apply graph) := by
  cases step with
  | change operation =>
      exact ⟨hPermitted.wellFormed wellFormed, trusted.flags (hPermitted.flags wellFormed)⟩
  | ask query =>
      have hAnswered := trusted.query hPermitted query
      exact ⟨wellFormed.sameFacts hAnswered.same, hAnswered.rebase⟩

theorem run_trusted (wellFormed : WellFormed graph) (trusted : Trusted graph graph) (steps : List Step)
    (hPermitted : AllPermitted graph steps) : Trusted (run graph steps) (run graph steps) := by
  induction steps generalizing graph with
  | nil => exact trusted
  | cons step rest ih =>
      obtain ⟨hWellFormed, hTrusted⟩ := step.apply_trusted wellFormed trusted hPermitted.1
      exact ih hWellFormed hTrusted hPermitted.2

/-- Where no node leads back to itself no query is given up, whatever was asked and changed before. -/
theorem run_query_ends (wellFormed : WellFormed graph) (unasked : Unasked graph) (steps : List Step)
    (hPermitted : AllPermitted graph steps) (acyclic : (run graph steps).Acyclic) (query : Query) :
    (query.apply (run graph steps)).endless = (run graph steps).endless :=
  ((run_trusted wellFormed (.of_unasked unasked) steps hPermitted).query acyclic query).endless

/-- After any steps the answers are those of a search of all ways through the graph as it is. -/
theorem dominators_exact (wellFormed : WellFormed graph) (unasked : Unasked graph) (steps : List Step)
    (hPermitted : AllPermitted graph steps) (acyclic : (run graph steps).Acyclic) (id : NodeId) :
    (∀ result, ((dominator id).run (run graph steps)).1 = result ↔ (run graph steps).IsImmediate result id) ∧
      ∀ candidate, ((hasDominator id candidate).run (run graph steps)).1 = true ↔
        ∀ nodes, (run graph steps).Walk id nodes → candidate ∈ nodes := by
  have hTrusted := run_trusted wellFormed (.of_unasked unasked) steps hPermitted
  have hAnswer := (ensures_dominator acyclic id _ hTrusted).1
  refine ⟨fun result => ⟨fun hSame => hSame ▸ hAnswer, hAnswer.unique acyclic⟩, fun candidate => ?_⟩
  exact (ensures_hasDominator acyclic id candidate _ hTrusted).1

/-- Whether all steps are permitted, told by a depth that grows along all ways whenever a query is made. -/
def Layered (depth : NodeId → Nat) : Graph → List Step → Prop
  | _, [] => True
  | graph, .change operation :: rest => operation.Admissible graph ∧ Layered depth (operation.apply graph) rest
  | graph, .ask query :: rest =>
    (∀ id < graph.nodes.size, ∀ source ∈ graph.dominanceSources id, depth source < depth id) ∧
      Layered depth (query.apply graph) rest

instance (depth : NodeId → Nat) : (graph : Graph) → (steps : List Step) → Decidable (Layered depth graph steps)
  | _, [] => inferInstanceAs (Decidable True)
  | graph, .change operation :: rest =>
    have := instDecidableLayered depth (operation.apply graph) rest
    inferInstanceAs (Decidable (_ ∧ _))
  | graph, .ask query :: rest =>
    have := instDecidableLayered depth (query.apply graph) rest
    inferInstanceAs (Decidable (_ ∧ _))

theorem AllPermitted.of_layered {depth : NodeId → Nat} {steps : List Step} (layered : Layered depth graph steps) :
    AllPermitted graph steps := by
  induction steps generalizing graph with
  | nil => trivial
  | cons step rest ih =>
      cases step with
      | change operation => exact ⟨layered.1, ih layered.2⟩
      | ask query => exact ⟨.of_depth depth layered.1, ih layered.2⟩

/-- Two branches come together, and control goes back from there to the start of one of them. Queries are made
before that edge is there and after it is marked. Then the branch gets a connector, and the other branch is
disposed of. -/
def branches : List Step :=
  [.change (.label 0), .change (.append 0), .change (.label 1), .change (.append 1), .change (.label 2),
    .change (.append 2), .change (.label 3), .change (.append 3), .change (.connect 0 1), .change (.connect 0 2),
    .change (.connect 1 3), .ask (.hasDominator 3 1), .change (.connect 2 3), .ask (.dominatorChildren 0),
    .change (.connect 3 1), .change .computeBackedges, .ask (.lowestCommonDominator [1, 2]), .ask (.dominator 3),
    .change (.connector 1 3), .change (.addHandlerEdge 2 4), .ask (.dominator 4), .change (.dispose 2 false false),
    .change (.disconnect 3 1)]

/-- How far the nodes of the branches lie from the first one. -/
def branchDepth : NodeId → Nat := ([0, 1, 1, 3, 2].getD · 0)

/-- The handled region is disposed of, so the connector follows its own branch only. The end can be reached
without it. -/
theorem dominators_exact_branches :
    WellFormed {} ∧ Unasked {} ∧ AllPermitted {} branches ∧ (run {} branches).Acyclic ∧
      (run {} branches).IsImmediate (some 0) 3 ∧ (run {} branches).IsImmediate (some 1) 4 ∧
      ¬∀ nodes, (run {} branches).Walk 3 nodes → 4 ∈ nodes := by
  have hUnasked : Unasked {} := ⟨rfl, .inr fun id => by rw [node_of_size_le (Nat.zero_le id)]⟩
  have hPermitted : AllPermitted {} branches := .of_layered (show Layered branchDepth {} branches by decide +kernel)
  have acyclic : (run {} branches).Acyclic := .of_depth branchDepth (by decide +kernel)
  have hExact := dominators_exact .empty hUnasked branches hPermitted acyclic
  exact ⟨.empty, hUnasked, hPermitted, acyclic, ((hExact 3).1 _).mp (by decide +kernel),
    ((hExact 4).1 _).mp (by decide +kernel), mt ((hExact 3).2 4).mpr (by decide +kernel)⟩

end Step

end Decompiler.Graph
