import Decompiler.Proofs.Dominance.Walk
import Decompiler.Proofs.Graph.Mirrored
import Decompiler.Proofs.Sequencing

/-!
What a query for a dominator leaves alone. Every query changes what is remembered about dominators and nothing
else, whatever it is asked and whatever it remembers.
-/

namespace Decompiler

namespace GraphM

/-- From every graph with the invariant, an action leads to a graph with the invariant, and its result is as
stated. -/
def Ensures {α : Type} (invariant : Graph → Prop) (action : GraphM α) (result : α → Prop) : Prop :=
  ∀ graph, invariant graph → result (action.run graph).1 ∧ invariant (action.run graph).2

namespace Ensures

variable {α β : Type} {invariant : Graph → Prop} {action : GraphM α} {next : α → GraphM β}
  {result : α → Prop} {final : β → Prop}

theorem pure {value : α} (hValue : result value) : Ensures invariant (Pure.pure value) result :=
  fun _ hGraph => ⟨hValue, hGraph⟩

theorem bind (hAction : Ensures invariant action result)
    (hNext : ∀ value, result value → Ensures invariant (next value) final) :
    Ensures invariant (action >>= next) final := fun graph hGraph =>
  have hFirst := hAction graph hGraph
  hNext _ hFirst.1 _ hFirst.2

/-- Less may be claimed of the result. -/
theorem weaken {weaker : α → Prop} (hAction : Ensures invariant action result)
    (hWeaker : ∀ value, result value → weaker value) : Ensures invariant action weaker := fun graph hGraph =>
  ⟨hWeaker _ (hAction graph hGraph).1, (hAction graph hGraph).2⟩

theorem get : Ensures invariant (MonadState.get : GraphM Graph) invariant := fun _ hGraph => ⟨hGraph, hGraph⟩

/-- Actions that keep the invariant. -/
theorem compositional (invariant : Graph → Prop) :
    Compositional fun {α : Type} (action : GraphM α) => Ensures invariant action fun _ => True :=
  ⟨fun _ => .pure trivial, fun first second => first.bind fun value _ => second value⟩

/-- A loop keeps what each round keeps of the value so far. -/
theorem foldlM {γ : Type} {step : α → γ → GraphM α} (items : List γ)
    (hStep : ∀ value item, result value → Ensures invariant (step value item) result) {value : α}
    (hValue : result value) : Ensures invariant (items.foldlM step value) result := by
  induction items generalizing value with
  | nil => exact .pure hValue
  | cons item rest ih =>
      rw [List.foldlM_cons]
      exact (hStep value item hValue).bind fun _ => ih

/-- All items pass a test, if each test says whether its item has the property. -/
theorem allM {test : α → GraphM Bool} {property : α → Prop} (items : List α)
    (hTest : ∀ item ∈ items, Ensures invariant (test item) (· = true ↔ property item)) :
    Ensures invariant (items.allM test) (· = true ↔ ∀ item ∈ items, property item) := by
  induction items with
  | nil => exact .pure (by simp)
  | cons item rest ih =>
      rw [List.allM]
      refine (hTest item List.mem_cons_self).bind fun passed hPassed => ?_
      cases passed with
      | true =>
          refine (ih fun other hOther => hTest other (List.mem_cons_of_mem _ hOther)).weaken fun all hAll => ?_
          simp [hAll, hPassed.mp rfl]
      | false =>
          refine .pure ?_
          have hFails : ¬property item := fun hHolds => by simpa using hPassed.mpr hHolds
          simp [hFails]

/-- The items that pass a test are those with the property. -/
theorem filterM {test : α → GraphM Bool} {property : α → Prop} (items : List α)
    (hTest : ∀ item, Ensures invariant (test item) (· = true ↔ property item)) :
    Ensures invariant (items.filterM test) fun kept => ∀ item, item ∈ kept ↔ item ∈ items ∧ property item := by
  have hAux : ∀ known, Ensures invariant (items.filterAuxM test known) fun kept =>
      ∀ item, item ∈ kept ↔ item ∈ known ∨ (item ∈ items ∧ property item) := by
    induction items with
    | nil => exact fun known => .pure (by simp)
    | cons first rest ih =>
        intro known
        refine (hTest first).bind fun passed hPassed => (ih _).weaken fun kept hKept item => ?_
        rw [hKept, List.mem_cons]
        cases passed with
        | true =>
            have hFirst := hPassed.mp rfl
            simp only [cond_true, List.mem_cons]
            refine ⟨?_, ?_⟩
            · rintro ((rfl | hKnown) | hRest)
              · exact .inr ⟨.inl rfl, hFirst⟩
              · exact .inl hKnown
              · exact .inr ⟨.inr hRest.1, hRest.2⟩
            · rintro (hKnown | ⟨rfl | hRest, hHolds⟩)
              · exact .inl (.inr hKnown)
              · exact .inl (.inl rfl)
              · exact .inr ⟨hRest, hHolds⟩
        | false =>
            have hFirst : ¬property first := fun hHolds => by simpa using hPassed.mpr hHolds
            simp only [cond_false]
            refine or_congr_right ⟨fun hRest => ⟨.inr hRest.1, hRest.2⟩, ?_⟩
            rintro ⟨rfl | hRest, hHolds⟩
            · exact absurd hHolds hFirst
            · exact ⟨hRest, hHolds⟩
  exact (hAux []).bind fun kept hKept => .pure (by simpa using hKept)

end Ensures

/-- From the graph, the action leads to a result and a graph as stated. -/
def Yields {α : Type} (graph : Graph) (action : GraphM α) (result : α → Graph → Prop) : Prop :=
  result (action.run graph).1 (action.run graph).2

namespace Yields

variable {α β : Type} {graph : Graph} {action : GraphM α} {next : α → GraphM β} {result : α → Graph → Prop}
  {final : β → Graph → Prop}

theorem bind (hAction : Yields graph action result)
    (hNext : ∀ value after, result value after → Yields after (next value) final) :
    Yields graph (action >>= next) final := hNext _ _ hAction

/-- A step that may know the graph that it looks at. -/
theorem look {next : Graph → GraphM β} (hNext : Yields graph (next graph) final) :
    Yields graph (MonadState.get >>= next) final := hNext

end Yields

end GraphM

/-! ### Searches along chains -/

namespace Compositional

variable {property : ∀ {α : Type}, GraphM α → Prop} (kept : Compositional @property)

include kept

section Steps

variable {step : NodeId → GraphM (Option NodeId)} (hStep : ∀ id, property (step id))

include hStep

/-- A walk up a chain asks for one dominator after the other. -/
theorem onChain (sought : NodeId) (fuel : Nat) (seen : List NodeId) (id : NodeId) :
    property (Graph.onChain step sought fuel seen id) := by
  induction fuel generalizing seen id with
  | zero => exact kept.pure _
  | succ fuel ih =>
      rw [Graph.onChain]
      split
      · exact kept.pure _
      split
      · exact kept.pure _
      refine kept.bind (hStep id) fun next => ?_
      cases next with
      | none => exact kept.pure _
      | some next => exact ih _ _

/-- A walk looks for the first node that is on the chains of all others. One that is given up is noted. -/
theorem firstCommon (hGiveUp : property (modify Graph.giveUp : GraphM Unit)) (others : List NodeId) (bound fuel : Nat)
    (candidate : NodeId) : property (Graph.firstCommon step others bound fuel candidate) := by
  induction fuel generalizing candidate with
  | zero => exact kept.bind hGiveUp fun _ => kept.pure _
  | succ fuel ih =>
      rw [Graph.firstCommon]
      refine kept.bind (kept.allM (fun other => kept.onChain hStep _ _ _ _) others) fun common => ?_
      cases common with
      | true => exact kept.pure _
      | false =>
          refine kept.bind (hStep candidate) fun next => ?_
          cases next with
          | none => exact kept.pure _
          | some next => exact ih next

end Steps

section Dominator

variable (hGet : property (MonadState.get : GraphM Graph))
  (hRefresh : property (modify Graph.refreshDominance : GraphM Unit))
  (hGiveUp : property (modify Graph.giveUp : GraphM Unit))
  (hTaint : ∀ id, property (modify (Graph.taintWithin · id) : GraphM Unit))
  (hEnter : ∀ id, property (modify (Graph.enterQuery · id) : GraphM Unit))
  (hLeave : ∀ id result, property (modify (Graph.leaveQuery · id result) : GraphM Unit))

include hGet hRefresh hGiveUp hTaint hEnter hLeave

/-- By induction on the depth: a query asks for the dominators of the sources of its node. -/
theorem dominatorWithin (depth : Nat) (id : NodeId) : property (Graph.dominatorWithin depth id) := by
  induction depth generalizing id with
  | zero => exact kept.pure _
  | succ depth ih =>
      rw [Graph.dominatorWithin]
      refine kept.bind hRefresh fun _ => kept.bind hGet fun graph => ?_
      split
      · exact kept.pure _
      · exact kept.bind (hTaint id) fun _ => kept.pure _
      · refine kept.bind (hEnter id) fun _ => ?_
        have hResult (result : Option NodeId) :
            property (do modify (Graph.leaveQuery · id result); return result : GraphM (Option NodeId)) :=
          kept.bind (hLeave id result) fun _ => kept.pure _
        dsimp only
        split
        · exact kept.bind (kept.pure _) hResult
        · exact kept.bind (kept.pure _) hResult
        · exact kept.bind (kept.firstCommon ih hGiveUp _ _ _ _) hResult

/-- The depth that a query starts with is computed from the graph. -/
theorem dominator (id : NodeId) : property (Graph.dominator id) :=
  kept.bind hGet fun _ => kept.dominatorWithin hGet hRefresh hGiveUp hTaint hEnter hLeave _ id

end Dominator

section Queries

variable (hGet : property (MonadState.get : GraphM Graph)) (hDominator : ∀ id, property (Graph.dominator id))

include hGet hDominator

theorem hasDominator (id candidate : NodeId) : property (Graph.hasDominator id candidate) :=
  kept.bind hGet fun _ => kept.onChain hDominator _ _ _ _

theorem dominatorChildren (id : NodeId) : property (Graph.dominatorChildren id) := by
  refine kept.bind hGet fun graph => kept.filterM (fun other => ?_) _
  split
  · exact kept.pure _
  · exact kept.bind (hDominator other) fun _ => kept.pure _

/-- Candidates are tried upwards until one dominates all nodes. -/
theorem commonDominatorFrom (others : List NodeId) (fuel : Nat) (seen : List NodeId) (candidate : NodeId) :
    property (Graph.commonDominatorFrom others fuel seen candidate) := by
  induction fuel generalizing seen candidate with
  | zero => exact kept.pure _
  | succ fuel ih =>
      rw [Graph.commonDominatorFrom]
      split
      · exact kept.pure _
      · refine kept.bind (kept.allM (fun other => kept.hasDominator hGet hDominator _ _) others) fun common => ?_
        split
        · exact kept.pure _
        · refine kept.bind (hDominator candidate) fun next => ?_
          split
          · exact ih _ _
          · exact kept.pure _

theorem lowestCommonDominator (ids : List NodeId) : property (Graph.lowestCommonDominator ids) := by
  cases ids with
  | nil => exact kept.pure _
  | cons first others => exact kept.bind hGet fun _ => kept.commonDominatorFrom hGet hDominator _ _ _ _

end Queries

end Compositional

namespace Graph

/-- Two graphs differ in what is remembered about dominators at most. -/
structure SameFacts (before after : Graph) : Prop where
  order : after.order = before.order
  size : after.nodes.size = before.nodes.size
  labels : after.labels = before.labels
  block : ∀ id, { after.node id with dominator := .unknown } = { before.node id with dominator := .unknown }

namespace SameFacts

variable {before middle after : Graph}

theorem refl (graph : Graph) : SameFacts graph graph := ⟨rfl, rfl, rfl, fun _ => rfl⟩

theorem trans (first : SameFacts before middle) (second : SameFacts middle after) : SameFacts before after :=
  ⟨second.order.trans first.order, second.size.trans first.size, second.labels.trans first.labels,
    fun id => (second.block id).trans (first.block id)⟩

/-- A field other than the remembered dominator is the same in every node. -/
theorem field {α : Type} (same : SameFacts before after) (read : Node → α)
    (hRead : ∀ node : Node, read { node with dominator := .unknown } = read node) (id : NodeId) :
    read (after.node id) = read (before.node id) := by
  rw [← hRead, same.block id, hRead]

/-- The relation that dominance is about is the same before and after a query. -/
theorem leads_iff (same : SameFacts before after) {source id : NodeId} :
    after.Leads source id ↔ before.Leads source id := by
  rw [Leads, Leads, same.field Node.incoming (fun _ => rfl), same.field Node.backedges (fun _ => rfl),
    same.field Node.handlerSources (fun _ => rfl)]

/-- No query adds or removes an edge. -/
theorem edge_iff (same : SameFacts before after) {source target : NodeId} :
    after.Edge source target ↔ before.Edge source target := by
  rw [Edge, Edge, same.field Node.outgoing fun _ => rfl]

/-- What a query reads of the edges of a node is the same. -/
theorem dominanceSources (same : SameFacts before after) (id : NodeId) :
    after.dominanceSources id = before.dominanceSources id := by
  rw [Graph.dominanceSources, Graph.dominanceSources, same.field Node.handlerSources (fun _ => rfl),
    same.field Node.forwardIncoming (fun _ => rfl)]

end SameFacts

/-- Forgetting outdated dominators changes what is remembered only. -/
theorem sameFacts_refreshDominance (graph : Graph) : SameFacts graph graph.refreshDominance := by
  unfold refreshDominance
  split
  · refine ⟨rfl, by simp, rfl, fun id => ?_⟩
    by_cases hSize : id < graph.nodes.size <;>
      simp [node, Array.getD_eq_getD_getElem?, hSize]
  · exact .refl graph

/-- Outdated dominators are all forgotten. -/
theorem unknown_refreshDominance {graph : Graph} (hStale : graph.stale = true) (hIdle : graph.computing = [])
    (id : NodeId) : (graph.refreshDominance.node id).dominator = .unknown := by
  by_cases hSize : id < graph.nodes.size <;>
    simp [refreshDominance, hStale, hIdle, node, Array.getD_eq_getD_getElem?, hSize]

@[simp] theorem refreshDominance_refreshDominance (graph : Graph) :
    graph.refreshDominance.refreshDominance = graph.refreshDominance := by
  cases hOutdated : graph.stale && graph.computing.isEmpty <;> simp [refreshDominance, hOutdated]

/-- A query in progress is noted beside the graph. -/
theorem sameFacts_enterQuery (graph : Graph) (id : NodeId) : SameFacts graph (graph.enterQuery id) :=
  ⟨rfl, size_update _ _ _, rfl, fun _ =>
    field_update (fun node : Node => { node with dominator := .unknown }) _ rfl⟩

/-- That a walk was given up is noted beside the graph. -/
theorem sameFacts_giveUp (graph : Graph) : SameFacts graph graph.giveUp := ⟨rfl, rfl, rfl, fun _ => rfl⟩

/-- Queries that met a cycle are marked as such. -/
theorem sameFacts_taintWithin (graph : Graph) (id : NodeId) : SameFacts graph (graph.taintWithin id) := by
  unfold taintWithin
  split
  · exact ⟨rfl, rfl, rfl, fun _ => rfl⟩
  · exact .refl graph

/-- An answer is remembered at its node, unless it was found within a cycle. -/
theorem sameFacts_leaveQuery (graph : Graph) (id : NodeId) (result : Option NodeId) :
    SameFacts graph (graph.leaveQuery id result) :=
  ⟨rfl, size_update _ _ _, rfl, fun _ =>
    field_update (fun node : Node => { node with dominator := .unknown }) _ rfl⟩

/-! ### Queries keep all else -/

/-- The action changes what is remembered about dominators at most. -/
def OnlyAsks {α : Type} (action : GraphM α) : Prop := ∀ graph, SameFacts graph (action.run graph).2

namespace OnlyAsks

variable {α β : Type}

theorem pure (value : α) : OnlyAsks (Pure.pure value) := fun graph => .refl graph

theorem get : OnlyAsks (MonadState.get : GraphM Graph) := fun graph => .refl graph

theorem change {change : Graph → Graph} (hChange : ∀ graph, SameFacts graph (change graph)) :
    OnlyAsks (modify change : GraphM Unit) := hChange

theorem bind {action : GraphM α} {next : α → GraphM β} (first : OnlyAsks action)
    (second : ∀ value, OnlyAsks (next value)) : OnlyAsks (action >>= next) := fun graph =>
  (first graph).trans (second _ _)

/-- Steps in sequence, loops and tests of lists are covered at once by this. -/
theorem compositional : Compositional @OnlyAsks := ⟨pure, bind⟩

end OnlyAsks

/-- A query for the immediate dominator, at any depth. -/
theorem onlyAsks_dominator (id : NodeId) : OnlyAsks (dominator id) :=
  OnlyAsks.compositional.dominator .get (.change sameFacts_refreshDominance) (.change sameFacts_giveUp)
    (fun id => .change (sameFacts_taintWithin · id)) (fun id => .change (sameFacts_enterQuery · id))
    (fun id result => .change (sameFacts_leaveQuery · id result)) id

theorem onlyAsks_hasDominator (id candidate : NodeId) : OnlyAsks (hasDominator id candidate) :=
  OnlyAsks.compositional.hasDominator .get onlyAsks_dominator id candidate

theorem onlyAsks_dominatorChildren (id : NodeId) : OnlyAsks (dominatorChildren id) :=
  OnlyAsks.compositional.dominatorChildren .get onlyAsks_dominator id

/-- The search for a common dominator is a loop of queries. -/
theorem onlyAsks_lowestCommonDominator (ids : List NodeId) : OnlyAsks (lowestCommonDominator ids) :=
  OnlyAsks.compositional.lowestCommonDominator .get onlyAsks_dominator ids

/-! ### Walks that are given up -/

/-- A walk that was not given up came to its end, so a longer one gives the same answer. -/
theorem run_firstCommon_of_le {step : NodeId → GraphM (Option NodeId)} {others : List NodeId} {bound fuel more : Nat}
    {candidate : NodeId} {graph : Graph} (hLe : fuel ≤ more)
    (hEnd : ((firstCommon step others bound fuel candidate).run graph).2.endless = false) :
    (firstCommon step others bound more candidate).run graph =
      (firstCommon step others bound fuel candidate).run graph := by
  induction fuel generalizing more candidate graph with
  | zero => exact absurd hEnd (by simp [firstCommon, giveUp, StateT.run_modify])
  | succ fuel ih =>
      obtain ⟨more, rfl⟩ := Nat.exists_eq_add_one_of_ne_zero (Nat.ne_of_gt (Nat.zero_lt_of_lt hLe))
      rw [firstCommon, StateT.run_bind] at hEnd ⊢
      rw [firstCommon, StateT.run_bind]
      generalize (others.allM fun other => onChain step candidate bound [] other).run graph = tested at hEnd ⊢
      obtain ⟨common, tested⟩ := tested
      cases common with
      | true => rfl
      | false =>
          change ((step candidate >>= fun next => _).run tested).2.endless = false at hEnd
          change (step candidate >>= fun next => _).run tested = (step candidate >>= fun next => _).run tested
          rw [StateT.run_bind] at hEnd ⊢
          rw [StateT.run_bind]
          generalize (step candidate).run tested = stepped at hEnd ⊢
          obtain ⟨next, after⟩ := stepped
          cases next with
          | none => rfl
          | some next => exact ih (Nat.le_of_succ_le_succ hLe) hEnd

/-- No query takes back that a walk was given up. -/
theorem ensures_endless_dominator (id : NodeId) :
    GraphM.Ensures (·.endless = true) (dominator id) fun _ => True := by
  have kept := GraphM.Ensures.compositional (·.endless = true)
  refine kept.dominator (fun _ hEndless => ⟨trivial, hEndless⟩) (fun graph hEndless => ⟨trivial, ?_⟩)
    (fun _ _ => ⟨trivial, rfl⟩) (fun id graph hEndless => ⟨trivial, ?_⟩) (fun _ _ hEndless => ⟨trivial, hEndless⟩)
    (fun _ _ _ hEndless => ⟨trivial, hEndless⟩) id
  · change graph.refreshDominance.endless = true
    rw [refreshDominance]
    split <;> exact hEndless
  · change (graph.taintWithin id).endless = true
    rw [taintWithin]
    split <;> exact hEndless

end Graph

end Decompiler
