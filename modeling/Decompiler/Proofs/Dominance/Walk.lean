import Decompiler.Graph.Dominance
import Decompiler.Proofs.Graph.Lookup
import Mathlib.Data.Finset.Card
import Mathlib.Data.Finset.Range
import Mathlib.Logic.Relation

/-!
Dominance as a property of the ways through a graph, said without any search. A virtual root comes before
every node that no other node leads to; one node dominates another if every way from the root to the other
passes it. Where no node leads back to itself, the dominators of a node other than the node are those of its
immediate dominator, and they are the dominators that its sources have in common.
-/

namespace Decompiler.Graph

open Relation

variable {graph : Graph} {id source other candidate : NodeId} {nodes : List NodeId}

/-- The node comes right before another one for dominance: along an edge that closes no cycle, or as the start
of a region whose exceptions the other one handles. -/
def Leads (graph : Graph) (source id : NodeId) : Prop :=
  (source ∈ (graph.node id).incoming ∧ source ∉ (graph.node id).backedges) ∨
    source ∈ (graph.node id).handlerSources

/-- No node leads back to itself. -/
def Acyclic (graph : Graph) : Prop := ∀ id, ¬TransGen graph.Leads id id

/-- A way from the virtual root to a node, the latest node first. -/
inductive Walk (graph : Graph) : NodeId → List NodeId → Prop where
  | start {id : NodeId} (hFirst : ∀ source, ¬graph.Leads source id) : Walk graph id [id]
  | step {source id : NodeId} {nodes : List NodeId} (before : Walk graph source nodes)
      (hLeads : graph.Leads source id) : Walk graph id (id :: nodes)

/-- Every way to the node passes the candidate. -/
def Passes (graph : Graph) (candidate id : NodeId) : Prop :=
  ∀ nodes, graph.Walk id nodes → candidate ∈ nodes

/-- Dominance among the nodes and the virtual root, which is `none`. -/
def Dominates (graph : Graph) : Option NodeId → Option NodeId → Prop
  | none, _ => True
  | some _, none => False
  | some candidate, some id => graph.Passes candidate id

/-- The closest of the dominators of a node other than the node: all others dominate it. -/
def IsImmediate (graph : Graph) (dominator : Option NodeId) (id : NodeId) : Prop :=
  graph.Dominates dominator (some id) ∧ dominator ≠ some id ∧
    ∀ other, graph.Dominates other (some id) → other ≠ some id → graph.Dominates other dominator

/-- The sources that the search asks about are the nodes that lead to the node. -/
theorem mem_dominanceSources : source ∈ graph.dominanceSources id ↔ graph.Leads source id := by
  have hFold : ∀ (handlers known : List NodeId),
      source ∈ handlers.foldl (fun sources source =>
        if sources.contains source then sources else sources ++ [source]) known ↔
      source ∈ known ∨ source ∈ handlers := by
    intro handlers
    induction handlers with
    | nil => simp
    | cons first rest ih =>
        intro known
        rw [List.foldl_cons, ih]
        split
        · next hKnown =>
            have hFirst : first ∈ known := by simpa using hKnown
            constructor
            · rintro (h | h)
              · exact .inl h
              · exact .inr (List.mem_cons_of_mem _ h)
            · rintro (h | h)
              · exact .inl h
              · rcases List.mem_cons.mp h with rfl | h
                · exact .inl hFirst
                · exact .inr h
        · simp [or_assoc]
  rw [dominanceSources, hFold]
  simp [Node.forwardIncoming, Leads]

/-- Nothing leads to a node outside the arena. -/
theorem Leads.lt (hLeads : graph.Leads source id) : id < graph.nodes.size := by
  by_contra hOutside
  simp [Leads, node_of_size_le (Nat.not_lt.mp hOutside)] at hLeads

/-- What leads where is all that matters. -/
theorem Acyclic.congr {after : Graph} (hLeads : ∀ source id, graph.Leads source id ↔ after.Leads source id)
    (acyclic : graph.Acyclic) : after.Acyclic := fun id way =>
  acyclic id (TransGen.mono (fun _ _ => (hLeads _ _).mpr) _ _ way)

/-! ### Depth -/

/-- A depth that grows along all ways excludes cycles. -/
theorem Acyclic.of_depth (depth : NodeId → Nat)
    (hDepth : ∀ id < graph.nodes.size, ∀ source ∈ graph.dominanceSources id, depth source < depth id) :
    graph.Acyclic := by
  have hWay : ∀ source id, TransGen graph.Leads source id → depth source < depth id := fun source id way => by
    induction way with
    | single hLeads => exact hDepth _ hLeads.lt _ (mem_dominanceSources.mpr hLeads)
    | tail _ hLeads ih => exact ih.trans (hDepth _ hLeads.lt _ (mem_dominanceSources.mpr hLeads))
  exact fun id way => Nat.lt_irrefl _ (hWay id id way)

open Classical in
/-- How many nodes of the arena lead to a node, the node itself included. -/
noncomputable def rank (graph : Graph) (id : NodeId) : Nat :=
  ((Finset.range graph.nodes.size).filter fun before => ReflTransGen graph.Leads before id).card

/-- Ranks are bounded by the number of nodes. -/
theorem rank_le (graph : Graph) (id : NodeId) : graph.rank id ≤ graph.nodes.size := by
  classical
  exact (Finset.card_filter_le _ _).trans (Finset.card_range _).le

/-- Where no node leads back to itself, ranks grow along the way. -/
theorem rank_lt (acyclic : Acyclic graph) (hLeads : graph.Leads source id) :
    graph.rank source < graph.rank id := by
  classical
  refine Finset.card_lt_card (Finset.ssubset_iff_of_subset ?_ |>.mpr ⟨id, ?_, ?_⟩)
  · intro before hBefore
    obtain ⟨hRange, hWay⟩ := Finset.mem_filter.mp hBefore
    exact Finset.mem_filter.mpr ⟨hRange, hWay.tail hLeads⟩
  · exact Finset.mem_filter.mpr ⟨Finset.mem_range.mpr hLeads.lt, .refl⟩
  · intro hBack
    exact acyclic id (TransGen.tail' (Finset.mem_filter.mp hBack).2 hLeads)

theorem rank_lt_of_transGen (acyclic : Acyclic graph) (hWay : TransGen graph.Leads source id) :
    graph.rank source < graph.rank id := by
  induction hWay with
  | single hLeads => exact rank_lt acyclic hLeads
  | tail _ hLeads ih => exact ih.trans (rank_lt acyclic hLeads)

/-! ### Ways -/

/-- A way ends at its node. -/
theorem Walk.self_mem (walk : Walk graph id nodes) : id ∈ nodes := by
  cases walk <;> exact List.mem_cons_self

/-- A way to a node contains a way to each node on it. -/
theorem Walk.upTo (walk : Walk graph id nodes) (hOther : other ∈ nodes) :
    ∃ before, graph.Walk other before ∧ before ⊆ nodes := by
  induction walk with
  | start hFirst =>
      obtain rfl := List.mem_singleton.mp hOther
      exact ⟨_, .start hFirst, List.Subset.refl _⟩
  | step before hLeads ih =>
      rcases List.mem_cons.mp hOther with rfl | hEarlier
      · exact ⟨_, .step before hLeads, List.Subset.refl _⟩
      · obtain ⟨way, hWay, hSubset⟩ := ih hEarlier
        exact ⟨way, hWay, List.subset_cons_of_subset _ hSubset⟩

/-- Every node of a way leads on to its end. -/
theorem Walk.leads_to (walk : Walk graph id nodes) (hOther : other ∈ nodes) :
    ReflTransGen graph.Leads other id := by
  induction walk with
  | start => exact List.mem_singleton.mp hOther ▸ .refl
  | step _ hLeads ih =>
      rcases List.mem_cons.mp hOther with rfl | hEarlier
      · exact .refl
      · exact (ih hEarlier).tail hLeads

/-- By induction on the rank: some way from the root leads to every node. -/
theorem exists_walk (acyclic : Acyclic graph) (id : NodeId) : ∃ nodes, graph.Walk id nodes := by
  induction hRank : graph.rank id using Nat.strong_induction_on generalizing id with
  | _ rank ih =>
      by_cases hFirst : ∃ source, graph.Leads source id
      · obtain ⟨source, hLeads⟩ := hFirst
        obtain ⟨nodes, before⟩ := ih _ (hRank ▸ rank_lt acyclic hLeads) source rfl
        exact ⟨_, before.step hLeads⟩
      · exact ⟨_, .start (not_exists.mp hFirst)⟩

/-- Ways are told by what leads where. -/
theorem Walk.congr {after : Graph} (hLeads : ∀ source id, graph.Leads source id ↔ after.Leads source id)
    (walk : Walk graph id nodes) : Walk after id nodes := by
  induction walk with
  | start hFirst => exact .start fun source => (hLeads source _).not.mp (hFirst source)
  | step _ hStep ih => exact ih.step ((hLeads _ _).mp hStep)

/-! ### Dominance -/

namespace Passes

theorem refl (graph : Graph) (id : NodeId) : graph.Passes id id := fun _ walk => walk.self_mem

theorem trans (first : graph.Passes candidate other) (second : graph.Passes other id) :
    graph.Passes candidate id := fun nodes walk => by
  obtain ⟨before, hBefore, hSubset⟩ := walk.upTo (second nodes walk)
  exact hSubset (first before hBefore)

/-- A dominator lies on the ways to its node, so it leads there. -/
theorem leads_to (acyclic : Acyclic graph) (passes : graph.Passes candidate id) :
    ReflTransGen graph.Leads candidate id := by
  obtain ⟨nodes, walk⟩ := exists_walk acyclic id
  exact walk.leads_to (passes nodes walk)

/-- A dominator other than the node leads there along some edge. -/
theorem strictly (acyclic : Acyclic graph) (passes : graph.Passes candidate id) (hOther : candidate ≠ id) :
    TransGen graph.Leads candidate id :=
  ((reflTransGen_iff_eq_or_transGen.mp (passes.leads_to acyclic)).resolve_left (Ne.symm hOther))

/-- Two nodes that dominate each other are one, or they would lead back to themselves. -/
theorem antisymm (acyclic : Acyclic graph) (first : graph.Passes candidate id)
    (second : graph.Passes id candidate) : candidate = id := by
  by_contra hOther
  exact acyclic _ ((first.strictly acyclic hOther).trans (second.strictly acyclic (Ne.symm hOther)))

/-- The dominators of a node other than itself are those that all its sources have in common. -/
theorem iff_sources (acyclic : Acyclic graph) (hSource : ∃ source, graph.Leads source id) :
    (candidate ≠ id ∧ graph.Passes candidate id) ↔
      ∀ source, graph.Leads source id → graph.Passes candidate source := by
  constructor
  · rintro ⟨hOther, passes⟩ source hLeads nodes walk
    exact (List.mem_cons.mp (passes _ (walk.step hLeads))).resolve_left hOther
  · intro hAll
    obtain ⟨source, hLeads⟩ := hSource
    refine ⟨?_, fun nodes walk => ?_⟩
    · rintro rfl
      exact acyclic _ (TransGen.tail' ((hAll source hLeads).leads_to acyclic) hLeads)
    · cases walk with
      | start hFirst => exact (hFirst source hLeads).elim
      | step before hBefore => exact List.mem_cons_of_mem _ (hAll _ hBefore _ before)

/-- Only a node itself dominates it if nothing leads to it. -/
theorem eq_of_first (hFirst : ∀ source, ¬graph.Leads source id) (passes : graph.Passes candidate id) :
    candidate = id := List.mem_singleton.mp (passes _ (.start hFirst))

end Passes

/-- The immediate dominator is the one whose dominators are all those of the node but the node itself. -/
theorem isImmediate_iff (acyclic : Acyclic graph) {dominator : Option NodeId} :
    graph.IsImmediate dominator id ↔
      ∀ candidate, (candidate ≠ id ∧ graph.Passes candidate id) ↔
        ∃ found, dominator = some found ∧ graph.Passes candidate found := by
  cases dominator with
  | none =>
      constructor
      · rintro ⟨_, _, hAll⟩ candidate
        simp only [reduceCtorEq, false_and, exists_false, iff_false, not_and]
        exact fun hOther passes => hAll (some candidate) passes (by simpa using hOther)
      · intro hNone
        refine ⟨trivial, by simp, fun other hOther hNot => ?_⟩
        cases other with
        | none => trivial
        | some candidate =>
            obtain ⟨_, hFound, _⟩ := (hNone candidate).mp ⟨by simpa using hNot, hOther⟩
            cases hFound
  | some found =>
      simp only [Option.some.injEq, exists_eq_left']
      constructor
      · rintro ⟨hPasses, hOther, hAll⟩ candidate
        have hFound : found ≠ id := by simpa using hOther
        constructor
        · rintro ⟨hNot, passes⟩
          exact hAll (some candidate) passes (by simpa using hNot)
        · refine fun passes => ⟨?_, passes.trans hPasses⟩
          rintro rfl
          exact hFound (Passes.antisymm acyclic hPasses passes)
      · intro hIff
        obtain ⟨hFound, hPasses⟩ := (hIff found).mpr (.refl graph found)
        refine ⟨hPasses, by simpa using hFound, fun other hOther hNot => ?_⟩
        cases other with
        | none => trivial
        | some candidate => exact (hIff candidate).mp ⟨by simpa using hNot, hOther⟩

theorem IsImmediate.congr {after : Graph} (hLeads : ∀ source id, graph.Leads source id ↔ after.Leads source id)
    {dominator : Option NodeId} (immediate : graph.IsImmediate dominator id) : after.IsImmediate dominator id := by
  have hPasses (candidate id : NodeId) : graph.Passes candidate id ↔ after.Passes candidate id :=
    ⟨fun passes nodes walk => passes nodes (walk.congr fun _ _ => (hLeads _ _).symm),
      fun passes nodes walk => passes nodes (walk.congr hLeads)⟩
  have hDominates (other id : Option NodeId) : graph.Dominates other id ↔ after.Dominates other id := by
    cases other <;> cases id <;> simp [Dominates, hPasses]
  simpa only [IsImmediate, hDominates] using immediate

/-- A node has one immediate dominator or none. -/
theorem IsImmediate.unique (acyclic : Acyclic graph) {first second : Option NodeId}
    (hFirst : graph.IsImmediate first id) (hSecond : graph.IsImmediate second id) : first = second := by
  rw [isImmediate_iff acyclic] at hFirst hSecond
  have hIff : ∀ candidate, (∃ found, first = some found ∧ graph.Passes candidate found) ↔
      ∃ found, second = some found ∧ graph.Passes candidate found :=
    fun candidate => (hFirst candidate).symm.trans (hSecond candidate)
  cases first with
  | none =>
      cases second with
      | none => rfl
      | some found => simpa using (hIff found).mpr ⟨found, rfl, .refl graph found⟩
  | some found =>
      obtain ⟨other, rfl, hOther⟩ := (hIff found).mp ⟨found, rfl, .refl graph found⟩
      obtain ⟨_, hSame, hBack⟩ := (hIff other).mpr ⟨other, rfl, .refl graph other⟩
      obtain rfl := Option.some.inj hSame
      rw [Passes.antisymm acyclic hOther hBack]

/-- A candidate other than the node is a dominator of the node if it is one of the immediate dominator. -/
theorem IsImmediate.passes_iff (acyclic : Acyclic graph) {dominator : Option NodeId}
    (immediate : graph.IsImmediate dominator id) (hOther : candidate ≠ id) :
    graph.Passes candidate id ↔ ∃ found, dominator = some found ∧ graph.Passes candidate found := by
  rw [← (isImmediate_iff acyclic).mp immediate candidate]
  simp [hOther]

/-- The immediate dominator leads to its node. -/
theorem IsImmediate.leads_to (acyclic : Acyclic graph) {found : NodeId}
    (immediate : graph.IsImmediate (some found) id) : TransGen graph.Leads found id := by
  obtain ⟨passes, hOther, _⟩ := immediate
  exact Passes.strictly acyclic passes (by simpa using hOther)

end Decompiler.Graph
