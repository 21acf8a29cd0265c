import Decompiler.Proofs.Structure.Ordered

/-!
A header is folded anew for every endless loop around it, each time with fewer back-edges. So the bound on how often
that happens does not matter.
-/

namespace Decompiler

open Decompiler.Graph GraphM

namespace BackedgeGroup

variable {graph : Graph} {source entrance : NodeId} {backedges : List NodeId}

theorem ensures_ask {α : Type} {query : GraphM α} (asks : OnlyAsks query) :
    Ensures (SameFacts graph) query fun _ => True := fun now same => ⟨trivial, same.trans (asks now)⟩

/-- What a group has taken in stays in it. -/
theorem ensures_gather {group : BackedgeGroup} {base : NodeId} (hBase : group.base = some base)
    (hSource : source ∈ group.members) (rest : List NodeId) :
    Ensures (SameFacts graph) (group.gather rest) fun result => source ∈ result.members := by
  induction rest generalizing group with
  | nil => exact .pure hSource
  | cons back rest ih =>
      obtain ⟨members, found, exit⟩ := group
      cases hBase
      have hRest (joins : Bool) : Ensures (SameFacts graph) (if joins then
          gather { members := members ++ [back], base := some base, exit } rest
          else Pure.pure { members, base := some base, exit }) fun result => source ∈ result.members := by
        split
        · exact ih rfl (List.mem_append_left [back] hSource)
        · exact .pure hSource
      rw [gather]
      refine Ensures.get.bind fun now _ => ?_
      dsimp only
      split
      · exact (ensures_ask (.pure true)).bind fun joins _ => hRest joins
      · exact (ensures_ask (onlyAsks_hasDominator _ _)).bind fun joins _ => hRest joins

/-- The first back-edge that is an incoming edge joins the group. -/
theorem mem_collect {others : List NodeId}
    (hFound : (graph.node entrance).incoming.reverse.filter backedges.contains = source :: others) :
    source ∈ ((collect entrance backedges).run graph).1.members := by
  have hCollect : Ensures (SameFacts graph) (collect entrance backedges) fun group => source ∈ group.members := by
    refine Ensures.get.bind fun now same => ?_
    dsimp only
    rw [same.field Node.incoming fun _ => rfl, hFound]
    refine Ensures.bind (Ensures.get.bind fun now _ => ensures_gather rfl List.mem_cons_self others)
      fun group hGroup => ?_
    split
    · exact .pure hGroup
    · exact Ensures.get.bind fun now _ => (ensures_ask (onlyAsks_exitFrom _ _ _ _)).bind fun exit _ => .pure hGroup
  exact (hCollect graph (.refl graph)).1

/-- Of back-edges that are edges, one at least joins the group. -/
theorem exists_mem_collect (hSome : backedges ≠ [])
    (hIncoming : ∀ source ∈ backedges, source ∈ (graph.node entrance).incoming) :
    ∃ source ∈ backedges, source ∈ ((collect entrance backedges).run graph).1.members := by
  obtain ⟨back, rest, rfl⟩ := List.exists_cons_of_ne_nil hSome
  have hBack : back ∈ (graph.node entrance).incoming.reverse.filter (back :: rest).contains :=
    List.mem_filter.mpr ⟨List.mem_reverse.mpr (hIncoming back List.mem_cons_self), by simp⟩
  obtain ⟨source, others, hFound⟩ := List.exists_cons_of_ne_nil (List.ne_nil_of_mem hBack)
  have hSource : source ∈ (graph.node entrance).incoming.reverse.filter (back :: rest).contains :=
    hFound ▸ List.mem_cons_self
  exact ⟨source, by simpa using (List.mem_filter.mp hSource).2, mem_collect hFound⟩

theorem length_rest_lt (hSome : backedges ≠ [])
    (hIncoming : ∀ source ∈ backedges, source ∈ (graph.node entrance).incoming) :
    let group := ((collect entrance backedges).run graph).1
    (backedges.filter (!group.members.contains ·)).length < backedges.length := by
  obtain ⟨source, hSource, hMember⟩ := exists_mem_collect hSome hIncoming
  exact List.length_filter_lt_length_iff_exists.mpr ⟨source, hSource, by simpa using hMember⟩

end BackedgeGroup

namespace Folding

variable {fold : NodeId → FoldingM StructureId} {id : NodeId}

/-- Without back-edges a node is not folded anew. -/
theorem classifyWithin_nil (fuel : Nat) : classifyWithin fold id (fuel + 1) [] = classifyWithin fold id 1 [] := by
  rw [classifyWithin, classifyWithin]
  refine bind_congr fun node => ?_
  generalize node.outgoing = outgoing
  rcases outgoing with _ | ⟨one, _ | ⟨other, _ | ⟨third, rest⟩⟩⟩ <;> rfl

/-- What the inside of an endless loop does in the states it can begin in is all that matters of it. -/
theorem run_foldForever_congr {start : Graph → Prop} (stable : Stable start) {inner inner' : FoldingM StructureId}
    {setting : Setting} {state : Folding}
    (hInner : ∀ state, start state.graph → (inner setting).run.run state = (inner' setting).run.run state)
    (hStart : start state.graph) (exit : Option NodeId) :
    (foldForever fold inner id exit setting).run.run state =
      (foldForever fold inner' id exit setting).run.run state := by
  obtain ⟨outcome, opened, hOpen, -, -, same⟩ := quiet_openBreakable .loop id id exit none true setting state
  rw [foldForever, foldForever, run_bind, run_bind, hOpen]
  cases outcome with
  | error fault => rfl
  | ok breakable =>
      have hBody : (inside breakable inner setting).run.run opened =
          (inside breakable inner' setting).run.run opened := by
        have hSame := hInner { opened with active := breakable :: opened.active } (stable _ _ same hStart)
        refine (run_bind inner _ setting _).trans (.trans ?_ (run_bind inner' _ setting _).symm)
        dsimp only
        rw [hSame]
      dsimp only
      rw [run_bind, run_bind, hBody]

theorem run_ask {α β : Type} (query : GraphM α) (next : α → FoldingM β) (setting : Setting) (state : Folding) :
    (((query : FoldingM α) >>= next) setting).run.run state =
      (next (query.run state.graph).1 setting).run.run { state with graph := (query.run state.graph).2 } := rfl

/-- The back-edges are incoming edges of the node. -/
def Enters (id : NodeId) (backedges : List NodeId) (graph : Graph) : Prop :=
  ∀ source ∈ backedges, source ∈ (graph.node id).incoming

theorem stable_enters (id : NodeId) (backedges : List NodeId) : Stable (Enters id backedges) :=
  fun _ _ same hEnters source hSource => same.incoming id ▸ hEnters source hSource

/-- Every bound that is larger than the number of back-edges does. -/
theorem run_classifyWithin_congr {fuel fuel' : Nat} {backedges : List NodeId} (hFuel : backedges.length < fuel)
    (hFuel' : backedges.length < fuel') (setting : Setting) {state : Folding}
    (hEnters : Enters id backedges state.graph) :
    (classifyWithin fold id fuel backedges setting).run.run state =
      (classifyWithin fold id fuel' backedges setting).run.run state := by
  induction fuel generalizing fuel' backedges state with
  | zero => cases hFuel
  | succ fuel ih =>
      obtain ⟨fuel', rfl⟩ := Nat.exists_eq_succ_of_ne_zero (Nat.ne_zero_of_lt hFuel')
      cases backedges with
      | nil => rw [classifyWithin_nil fuel, Nat.succ_eq_add_one, classifyWithin_nil fuel']
      | cons back rest =>
          -- The group of back-edges takes one at least, so fewer remain inside the loop.
          have hEndless (next : BackedgeGroup → FoldingM StructureId) (next' : BackedgeGroup → FoldingM StructureId)
              (hNext : ∀ group, ((back :: rest).filter (!group.members.contains ·)).length < (back :: rest).length →
                ∀ state : Folding, Enters id (back :: rest) state.graph →
                  (next group setting).run.run state = (next' group setting).run.run state) :
              (((BackedgeGroup.collect id (back :: rest) : FoldingM BackedgeGroup) >>= next) setting).run.run state =
                (((BackedgeGroup.collect id (back :: rest) : FoldingM BackedgeGroup) >>= next') setting).run.run
                  state := by
            rw [run_ask, run_ask]
            refine hNext _ (BackedgeGroup.length_rest_lt (List.cons_ne_nil back rest) hEnters) _ ?_
            exact stable_enters id _ _ _ (.of_sameFacts (BackedgeGroup.onlyAsks_collect id _ state.graph)) hEnters
          have hForever (group : BackedgeGroup)
              (hFewer : ((back :: rest).filter (!group.members.contains ·)).length < (back :: rest).length)
              (state : Folding) (hEnters : Enters id (back :: rest) state.graph) :
              (foldForever fold (classifyWithin fold id fuel ((back :: rest).filter (!group.members.contains ·))) id
                  group.exit setting).run.run state =
                (foldForever fold (classifyWithin fold id fuel' ((back :: rest).filter (!group.members.contains ·))) id
                  group.exit setting).run.run state := by
            refine run_foldForever_congr (stable_enters id _) (fun state hEnters => ?_) hEnters group.exit
            exact ih (by omega) (by omega) fun source hSource => hEnters source (List.mem_of_mem_filter hSource)
          have hPlain : classifyWithin fold id fuel [] = classifyWithin fold id fuel' [] := by
            obtain ⟨fuel, rfl⟩ := Nat.exists_eq_succ_of_ne_zero (n := fuel) (by simp at hFuel; omega)
            obtain ⟨fuel', rfl⟩ := Nat.exists_eq_succ_of_ne_zero (n := fuel') (by simp at hFuel'; omega)
            rw [Nat.succ_eq_add_one, classifyWithin_nil fuel, Nat.succ_eq_add_one, classifyWithin_nil fuel']
          rw [classifyWithin, classifyWithin, run_node_bind, run_node_bind, hPlain]
          dsimp only
          generalize (state.graph.node id).outgoing = outgoing
          rcases outgoing with _ | ⟨one, _ | ⟨other, _ | ⟨third, others⟩⟩⟩
          · rfl
          · cases rest with
            | nil =>
                refine hEndless _ _ fun group hFewer state hEnters => ?_
                rw [run_currentGraph_bind, run_currentGraph_bind]
                split
                · rfl
                · exact hForever group hFewer state hEnters
            | cons second rest => exact hEndless _ _ hForever
          · cases rest <;> rfl
          · rfl

end Folding

end Decompiler
