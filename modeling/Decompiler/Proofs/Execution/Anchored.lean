import Decompiler.Execution.Run
import Decompiler.Proofs.Execution.Rules
import Decompiler.Proofs.Graph.FlatStack
import Decompiler.Proofs.Graph.Trimming

/-!
Where instructions are appended: the current node is always the last one in the order of appearance. Idioms dispose of
nodes, sometimes of the current one, and all of them leave it so, as long as no label is opened twice.
-/

namespace Decompiler.Execution

open Decompiler.Graph
open HoldsOfOperands HoldsOfIdioms

variable {setting : Setting} {state after : Execution} {pending rest : List Label} {label : Label} {id : NodeId}

/-- Instructions are appended to the last node, and the labels that are still to be opened wait for their place. -/
structure Anchored (pending : List Label) (state : Execution) : Prop where
  linked : Linked state.graph
  current : state.current = state.graph.order.getLast?
  within : ∀ label id, state.graph.labelNode? label = some id → id < state.graph.nodes.size
  apart : ∀ label other id, state.graph.labelNode? label = some id → state.graph.labelNode? other = some id →
    label = other
  waiting : ∀ label ∈ pending, ∀ id, state.graph.labelNode? label = some id →
    id ∉ state.graph.order ∧ (state.graph.node id).disposed = false

namespace Anchored

/-- The current node comes last. -/
theorem getLast? (anchored : Anchored pending state) (hCurrent : state.current = some id) :
    state.graph.order.getLast? = some id := anchored.current.symm.trans hCurrent

theorem mem (anchored : Anchored pending state) (hCurrent : state.current = some id) : id ∈ state.graph.order :=
  List.mem_of_getLast? (anchored.getLast? hCurrent)

/-- Nodes may be disposed of, if the last of those that are left is current. -/
theorem trims (anchored : Anchored pending state) (trims : Trims state.graph after.graph)
    (hCurrent : after.current = after.graph.order.getLast?) : Anchored pending after where
  linked := trims.linked
  current := hCurrent
  within label id hLabel := by
    rw [labelNode?_congr trims.labels] at hLabel
    exact trims.size ▸ anchored.within label id hLabel
  apart label other id hLabel hOther := by
    rw [labelNode?_congr trims.labels] at hLabel hOther
    exact anchored.apart label other id hLabel hOther
  waiting label hPending id hLabel := by
    rw [labelNode?_congr trims.labels] at hLabel
    obtain ⟨hAbsent, hLive⟩ := anchored.waiting label hPending id hLabel
    refine ⟨fun hId => hAbsent (trims.order.subset hId), Bool.eq_false_iff.mpr fun hDisposed => ?_⟩
    rcases (trims.disposed id).mp hDisposed with hOld | ⟨hPlaced, -⟩
    · simp [hLive] at hOld
    · exact hAbsent hPlaced

/-- A step that leaves the layout and the current node alone leaves the anchor. -/
theorem stay (anchored : Anchored pending state) (same : SameLayout state.graph after.graph)
    (hCurrent : after.current = state.current) : Anchored pending after :=
  anchored.trims (.of_sameLayout anchored.linked same) (by rw [hCurrent, anchored.current, same.order])

/-- A node that no pending label has is placed at the end and becomes current. -/
theorem extend (anchored : Anchored pending state) (linked : Linked after.graph)
    (hOrder : after.graph.order = state.graph.order ++ [id]) (hSize : state.graph.nodes.size ≤ after.graph.nodes.size)
    (hLabels : after.graph.labels = state.graph.labels)
    (hDisposed : ∀ other, (after.graph.node other).disposed = (state.graph.node other).disposed)
    (hCurrent : after.current = some id) (hRest : rest ⊆ pending)
    (hOther : ∀ label ∈ rest, state.graph.labelNode? label ≠ some id) : Anchored rest after where
  linked := linked
  current := by rw [hOrder, List.getLast?_concat, hCurrent]
  within label id hLabel := by
    rw [labelNode?_congr hLabels] at hLabel
    exact Nat.lt_of_lt_of_le (anchored.within label id hLabel) hSize
  apart label other id hLabel hSame := by
    rw [labelNode?_congr hLabels] at hLabel hSame
    exact anchored.apart label other id hLabel hSame
  waiting label hPending found hLabel := by
    rw [labelNode?_congr hLabels] at hLabel
    obtain ⟨hAbsent, hLive⟩ := anchored.waiting label (hRest hPending) found hLabel
    refine ⟨fun hFound => ?_, (hDisposed found).trans hLive⟩
    rw [hOrder, List.mem_append, List.mem_singleton] at hFound
    exact hOther label hPending (hFound.resolve_left hAbsent ▸ hLabel)

/-- The number of a node to come is the number of no label. -/
theorem labelNode?_ne_size (anchored : Anchored pending state) (label : Label) :
    state.graph.labelNode? label ≠ some state.graph.nodes.size :=
  fun hLabel => Nat.lt_irrefl _ (anchored.within label _ hLabel)

/-- The node of a new label waits for its place. -/
theorem nodeOfLabel (anchored : Anchored pending state) (label : Label) :
    Anchored pending { state with graph := (state.graph.nodeOfLabel label).2 } := by
  rcases nodeOfLabel_cases state.graph label with ⟨id, -, hKnown⟩ | ⟨later, hMade, labelled⟩
  · rw [hKnown]
    exact anchored
  rw [hMade]
  refine ⟨labelled.linked anchored.linked, labelled.order ▸ anchored.current, fun other id hOther => ?_,
    fun first second id hFirst hSecond => ?_, fun other hPending id hOther => ?_⟩
  · rw [labelled.lookup] at hOther
    rw [labelled.size]
    split at hOther
    · cases hOther
      exact Nat.lt_succ_self _
    · exact Nat.lt_succ_of_lt (anchored.within other id hOther)
  · rw [labelled.lookup] at hFirst hSecond
    split at hFirst
    · next hNew =>
        split at hSecond
        · next hSame => exact hNew.trans hSame.symm
        · exact absurd (hSecond.trans hFirst.symm) (anchored.labelNode?_ne_size second)
    · split at hSecond
      · exact absurd (hFirst.trans hSecond.symm) (anchored.labelNode?_ne_size first)
      · exact anchored.apart first second id hFirst hSecond
  · rw [labelled.lookup] at hOther
    rw [labelled.order, labelled.disposed]
    split at hOther
    · cases hOther
      exact ⟨anchored.linked.size_not_mem, by rw [node_of_size_le (Nat.le_refl _)]⟩
    · exact anchored.waiting other hPending id hOther

end Anchored

/-- Whatever labels are still to be opened, the current node stays the last one. -/
def KeepsAnchor (before after : Execution) : Prop := ∀ pending, Anchored pending before → Anchored pending after

instance : HoldsOfOperands KeepsAnchor where
  trans first second pending anchored := second pending (first pending anchored)
  stay same hCurrent pending anchored := anchored.stay same hCurrent
  relates_here setting state id after hRun pending anchored := by
    rcases run_here hRun with ⟨-, rfl⟩ | ⟨-, rfl, hCurrent, hGraph⟩
    · exact anchored
    · have hFresh : state.graph.nodes.size ∉ state.graph.createAnonymous.2.order := anchored.linked.size_not_mem
      have hDisposed (other : NodeId) : (after.graph.node other).disposed = (state.graph.node other).disposed := by
        rw [hGraph, field_append Node.disposed fun _ _ _ => rfl]
        exact field_createAnonymous Node.disposed fun _ => rfl
      have hSize : state.graph.createAnonymous.2.nodes.size = state.graph.nodes.size + 1 := size_allocate ..
      refine anchored.extend ?_ (by rw [hGraph, order_append]; rfl) ?_ ?_ hDisposed hCurrent (List.Subset.refl _)
        fun label _ => anchored.labelNode?_ne_size label
      · rw [hGraph]
        exact (anchored.linked.allocate none _).append (hSize ▸ Nat.lt_succ_self _) hFresh (live_createAnonymous _)
      · rw [hGraph, size_append, hSize]
        exact Nat.le_succ _
      · rw [hGraph, labels_append]
        rfl

/-- While there is a current node, the layout and the current node stay as they are. -/
def KeepsLayout (before after : Execution) : Prop :=
  before.current ≠ none → SameLayout before.graph after.graph ∧ after.current = before.current

instance : HoldsOfOperands KeepsLayout where
  trans first second hCurrent := by
    obtain ⟨hFirst, hMiddle⟩ := first hCurrent
    obtain ⟨hSecond, hAfter⟩ := second (hMiddle ▸ hCurrent)
    exact ⟨hFirst.trans hSecond, hAfter.trans hMiddle⟩
  stay same hCurrent _ := ⟨same, hCurrent⟩
  relates_here setting state id after hRun hCurrent := by
    rcases run_here hRun with ⟨-, rfl⟩ | ⟨hNone, -⟩
    · exact ⟨.refl _, rfl⟩
    · exact absurd hNone hCurrent

/-- The layout and the current node are those of a state before. -/
def Stands (before : Execution) (state : Execution) : Prop :=
  SameLayout before.graph state.graph ∧ state.current = before.current

/-- A step that keeps the layout keeps the current node where it stands. -/
theorem Relates.stands {α : Type} {step : ExecutionM α} (keeps : Relates KeepsLayout step) {before : Execution}
    (hCurrent : before.current ≠ none) : Ensures (Stands before) step fun _ => Stands before :=
  fun setting state value later hStands hRun => by
    obtain ⟨same, hSame⟩ := keeps setting state value later hRun (hStands.2 ▸ hCurrent)
    exact ⟨hStands.1.trans same, hSame.trans hStands.2⟩

theorem Relates.anchored {α : Type} {step : ExecutionM α} (keeps : Relates KeepsAnchor step) (pending : List Label) :
    Ensures (Anchored pending) step fun _ => Anchored pending := fun setting state value later anchored hRun =>
  keeps setting state value later hRun pending anchored

theorem relates_keepsAnchor {α : Type} {step : ExecutionM α}
    (ensures : ∀ pending, Ensures (Anchored pending) step fun _ => Anchored pending) : Relates KeepsAnchor step :=
  fun setting state value later hRun pending anchored => ensures pending setting state value later anchored hRun

/-! ### Disposing and merging -/

/-- The search for a live node ends at the first one. -/
theorem liveBefore_live {graph : Graph} {start : Option NodeId} (fuel : Nat)
    (hLive : ∀ id ∈ start, (graph.node id).disposed = false) : liveBefore graph (fuel + 1) start = start := by
  cases start with
  | none => rfl
  | some id => simp [liveBefore, hLive id rfl]

/-- If the current node was disposed of, a live node before it becomes current. -/
theorem run_followDisposal (disposed : List NodeId) (fallback : Option NodeId) :
    (followDisposal disposed fallback setting).run.run state = (.ok (), { state with
      current := if state.current.any disposed.contains then
          liveBefore state.graph (state.graph.capacity + 1) fallback
        else state.current }) := by
  have hRun : (followDisposal disposed fallback setting).run.run state = (.ok (),
      if state.current.any disposed.contains then
        { state with current := liveBefore state.graph (state.graph.capacity + 1) fallback }
      else state) := rfl
  rw [hRun]
  split <;> rfl

/-- Disposing of a placed node, which may be the current one. -/
theorem Anchored.dispose (anchored : Anchored pending state) (hId : id ∈ state.graph.order) (clearStack : Bool) :
    Ensures (· = state) (Execution.dispose id clearStack) fun _ later =>
      Anchored pending later ∧ later.graph = state.graph.disposeOne id clearStack := by
  rintro setting _ value later rfl hRun
  rename_i state
  have hDispose : (Execution.dispose id clearStack setting).run.run state =
      (followDisposal (state.graph.dispose id clearStack false).1 (state.graph.node id).previous setting).run.run
        { state with graph := (state.graph.dispose id clearStack false).2 } := rfl
  rw [hDispose, dispose_plain clearStack (anchored.linked.live id hId), run_followDisposal] at hRun
  cases hRun
  have hTrims := Trims.disposeOne anchored.linked hId clearStack
  refine ⟨anchored.trims hTrims ?_, rfl⟩
  obtain ⟨last, hLast⟩ : ∃ last, state.graph.order.getLast? = some last :=
    ⟨_, List.getLast?_eq_some_getLast (List.ne_nil_of_mem hId)⟩
  have hCurrent := anchored.current.trans hLast
  simp only [hCurrent, order_disposeOne]
  by_cases hSame : id = last
  · subst hSame
    obtain ⟨front, hOrder⟩ := List.getLast?_eq_some_iff.mp hLast
    have hErase : state.graph.order.erase id = front := by
      rw [hOrder, erase_concat (hOrder ▸ anchored.linked.nodup)]
    have hLive : ∀ before ∈ front.getLast?, ((state.graph.disposeOne id clearStack).node before).disposed = false :=
      fun before hBefore => hTrims.linked.live before <| by
        rw [order_disposeOne, hErase]
        exact List.mem_of_getLast? hBefore
    simp [hErase, anchored.linked.previous_last hOrder, liveBefore_live _ hLive]
  · simp [getLast?_erase_of_ne hLast hSame, Ne.symm hSame]

/-- Folding the conditions of a placed node that is not the current one. -/
theorem Anchored.merge (anchored : Anchored pending state) (hId : id ∈ state.graph.order)
    (hOther : state.current ≠ some id) {value : Unit}
    (hRun : (Execution.merge id setting).run.run state = (.ok value, after)) : Anchored pending after := by
  have hMerge : (Execution.merge id setting).run.run state =
      (followDisposal (state.graph.mergeFrom (state.graph.nodes.size + 1) id).1 (state.graph.node id).previous
        setting).run.run { state with graph := (state.graph.mergeFrom (state.graph.nodes.size + 1) id).2 } := rfl
  obtain ⟨last, hLast⟩ : ∃ last, state.graph.order.getLast? = some last :=
    ⟨_, List.getLast?_eq_some_getLast (List.ne_nil_of_mem hId)⟩
  have hCurrent := anchored.current.trans hLast
  obtain ⟨hTrims, hStays, hKept⟩ := trims_mergeFrom anchored.linked (state.graph.nodes.size + 1) (.inl hId) hLast
    fun hSame => hOther (hSame ▸ hCurrent)
  rw [hMerge, run_followDisposal] at hRun
  cases hRun
  refine anchored.trims hTrims ?_
  simp [hCurrent, hKept, hStays]

/-- The current node is there or made last. -/
theorem anchored_here (pending : List Label) :
    Ensures (Anchored pending) here fun id state => Anchored pending state ∧ state.current = some id :=
  fun setting state id later anchored hRun => by
    refine ⟨(relates_here.anchored pending) setting state id later anchored hRun, ?_⟩
    rcases run_here hRun with ⟨hCurrent, rfl⟩ | ⟨-, -, hCurrent, -⟩ <;> exact hCurrent

/-- Folding the conditions before the current node. -/
theorem anchored_mergeBefore (pending : List Label) (id : NodeId) :
    Ensures (fun state => Anchored pending state ∧ state.current = some id) (mergeBefore id)
      fun _ => Anchored pending := by
  rintro setting state value later ⟨anchored, hCurrent⟩ hRun
  obtain ⟨_, _, hNode, hRun⟩ := run_bind_ok hRun
  cases hNode
  have hId := anchored.mem hCurrent
  cases hPrevious : (state.graph.node id).previous with
  | none =>
      rw [hPrevious] at hRun
      cases hRun
      exact anchored
  | some previous =>
      rw [hPrevious] at hRun
      refine anchored.merge (anchored.linked.mem_of_previous hId hPrevious) (fun hSame => ?_) hRun
      obtain rfl : id = previous := Option.some.inj (hCurrent.symm.trans hSame)
      exact anchored.linked.previous_ne hId hPrevious

/-! ### Conditional expressions -/

/-- An entry lies in a node that is placed. -/
theorem locateFrom_mem {graph : Graph} (linked : Linked graph) {fuel : Nat} {depth place : Nat} {holder : NodeId}
    (hId : id ∈ graph.order) (hFound : graph.locateFrom fuel id depth = some (holder, place)) : holder ∈ graph.order := by
  induction fuel generalizing id depth with
  | zero => cases hFound
  | succ fuel ih =>
      rw [locateFrom] at hFound
      split at hFound
      · cases hFound
        exact hId
      · obtain ⟨below, hBelow, hFound⟩ := Option.bind_eq_some_iff.mp hFound
        exact ih (linked.mem_of_previous hId (previous_of_stackBelow? hBelow)) hFound

/-- The listed nodes have their place or are gone already. -/
def Offers (pending : List Label) (ids : List NodeId) (state : Execution) : Prop :=
  Anchored pending state ∧ ∀ id ∈ ids, Settled state.graph id

/-- The nodes of the values that are joined have their place, and taking the values off them moves neither. -/
theorem offers_values {now : Execution} {here : NodeId} {place : Branches} (anchored : Anchored pending state)
    (hCurrent : state.current = some here) (fits : place.Fits state.graph here) (stands : Stands state now) :
    Offers pending [place.right, place.left] now := by
  have hPlaced {depth : Nat} {holder : NodeId} (hHolder : (state.graph.locate? here depth).map Prod.fst = some holder) :
      Settled now.graph holder := by
    obtain ⟨⟨_, entry⟩, hFound, rfl⟩ := Option.map_eq_some_iff.mp hHolder
    exact .inl (stands.1.order ▸ locateFrom_mem anchored.linked (anchored.mem hCurrent) hFound)
  refine ⟨anchored.stay stands.1 stands.2, fun id hId => ?_⟩
  rcases List.mem_pair.mp hId with rfl | rfl
  · exact hPlaced fits.right
  · exact hPlaced fits.left

/-- The next of the listed nodes is disposed of. -/
theorem offers_dispose (clearStack : Bool) {before : Execution} {others : List NodeId}
    (offers : Offers pending (id :: others) before) (hLive : (before.graph.node id).disposed = false) :
    Ensures (· = before) (dispose id clearStack) fun _ => Offers pending others := by
  obtain ⟨anchored, hSettled⟩ := offers
  have hId : id ∈ before.graph.order := (hSettled id List.mem_cons_self).resolve_right (by simp [hLive])
  refine (anchored.dispose hId clearStack).weaken fun _ later ⟨hAnchored, hGraph⟩ => ?_
  refine ⟨hAnchored, fun other hOther => hGraph ▸ ?_⟩
  exact (Trims.disposeOne anchored.linked hId clearStack).settled (hSettled other (List.mem_cons_of_mem _ hOther))

/-- A node is disposed of if it is empty, and neither the current node nor the given one. -/
def disposeIfEmpty (here holder id : NodeId) : ExecutionM (ForInStep PUnit) := do
  let node ← node id
  if id != here && id != holder && !node.disposed && node.isEmpty then
    dispose id false
    return .yield ⟨⟩
  else return .yield ⟨⟩

/-- What lasts when an empty node is disposed of lasts when all empty ones of the listed nodes are. -/
theorem offers_disposeIfEmpty (lasting : Graph → Prop) {here holder : NodeId}
    (hLasting : ∀ {graph : Graph} {id : NodeId}, Linked graph → id ∈ graph.order → (graph.node id).isEmpty = true →
      id ≠ holder → lasting graph → lasting (graph.disposeOne id false)) (ids : List NodeId) :
    Ensures (fun state => Offers pending ids state ∧ lasting state.graph)
      (forIn ids ⟨⟩ fun id _ => disposeIfEmpty here holder id)
      fun _ state => Anchored pending state ∧ lasting state.graph := by
  let remaining (ids : List NodeId) (state : Execution) : Prop := Offers pending ids state ∧ lasting state.graph
  have hRound (id : NodeId) (rest : List NodeId) : Ensures (remaining (id :: rest)) (disposeIfEmpty here holder id)
      fun outcome state => outcome = .yield ⟨⟩ ∧ remaining rest state := by
    refine .node fun now ⟨offers, hNow⟩ => ?_
    split
    · next hDrop =>
        simp only [Bool.and_eq_true, Bool.not_eq_true', bne_iff_ne] at hDrop
        obtain ⟨⟨⟨-, hOther⟩, hLive⟩, hEmpty⟩ := hDrop
        have hId : id ∈ now.graph.order := (offers.2 id List.mem_cons_self).resolve_right (by simp [hLive])
        refine Ensures.bind ((offers_dispose false offers hLive).and ?_) fun _ => .pure fun _ hRest => ⟨rfl, hRest⟩
        exact (offers.1.dispose hId false).weaken fun _ later hLater =>
          hLater.2 ▸ hLasting offers.1.linked hId hEmpty hOther hNow
    · refine .pure fun _ hState => hState ▸ ⟨rfl, ⟨offers.1, fun other hOther => ?_⟩, hNow⟩
      exact offers.2 other (List.mem_cons_of_mem _ hOther)
  have hLoop : Ensures (remaining ids) (forIn ids ⟨⟩ fun id _ => disposeIfEmpty here holder id) fun _ => remaining [] :=
    .forIn ids hRound
  exact hLoop.weaken fun _ now hDone => ⟨hDone.1.1, hDone.2⟩

/-- By induction on the bound: each round disposes of the branches behind their head. -/
theorem anchored_joinBranchesWithin (pending : List Label) (fuel : Nat) :
    Ensures (Anchored pending) (joinBranchesWithin fuel) fun _ => Anchored pending := by
  induction fuel with
  | zero => exact .pure fun _ anchored => anchored
  | succ fuel ih =>
      refine .look fun state anchored => ?_
      split
      · rename_i here hCurrent
        have hBusy : state.current ≠ none := hCurrent ▸ Option.some_ne_none here
        have hBranches : Ensures (· = state) (branches? here : ExecutionM (Option Branches)) fun found now =>
            Stands state now ∧ ∀ branches ∈ found, branches.Fits state.graph here := by
          rintro setting _ found later rfl hRun
          cases hRun
          exact ⟨⟨.of_sameFacts (onlyAsks_branches? here _), rfl⟩, fits_branches? _ here⟩
        refine hBranches.bind fun found => .of_fact fun hFits => ?_
        split
        · rename_i place
          refine ((relates_take 0).stands hBusy).bind fun second => ((relates_take 0).stands hBusy).bind fun first => ?_
          refine ((relates_take 0).stands hBusy).bind fun test => ((Relates.supply _).stands hBusy).bind fun joined => ?_
          have hPush : Relates KeepsLayout (changeGraph (·.push place.holder joined)) :=
            .changeGraph fun graph => .push graph place.holder joined
          refine (hPush.stands hBusy).bind fun _ => Ensures.bind (.strengthen
            (offers_disposeIfEmpty (fun _ => True) (fun _ _ _ _ _ => trivial) [place.right, place.left]) fun now hNow =>
              ⟨offers_values anchored hCurrent (hFits place rfl) hNow, trivial⟩)
            fun _ => ih.strengthen fun _ hDone => hDone.1
        · exact .pure fun now hNow => anchored.stay hNow.1 hNow.2
      · exact .pure fun _ hState => hState ▸ anchored

/-! ### Assertions -/

/-- The empty nodes before a node lie right behind the node that guards them. -/
theorem emptyBefore_order {graph : Graph} (linked : Linked graph) {front back between : List NodeId} {guard : NodeId}
    {fuel : Nat} (hOrder : graph.order = front ++ back)
    (hFound : emptyBefore graph fuel front.getLast? = (between, some guard)) :
    ∃ start, front = start ++ guard :: between.reverse := by
  induction fuel generalizing front back between with
  | zero => cases hFound
  | succ fuel ih =>
      rcases List.eq_nil_or_concat front with rfl | ⟨init, last, rfl⟩
      · cases hFound
      · rw [List.concat_eq_append] at hOrder hFound ⊢
        rw [List.append_assoc] at hOrder
        rw [List.getLast?_concat, emptyBefore, (linked.previous_next hOrder).1] at hFound
        split at hFound
        · obtain ⟨rfl, hGuard⟩ := Prod.mk.inj hFound
          obtain ⟨start, hStart⟩ := ih hOrder (Prod.ext rfl hGuard)
          exact ⟨start, by rw [List.reverse_cons, ← List.cons_append, ← List.append_assoc, ← hStart]⟩
        · cases hFound
          exact ⟨init, rfl⟩

/-- The listed nodes are the last ones, the very last one first, and the given nodes come before them. -/
def Clears (pending : List Label) (front ids : List NodeId) (state : Execution) : Prop :=
  Anchored pending state ∧ state.graph.order = front ++ ids.reverse

/-- One more of the nodes at the end is gone. -/
theorem clears_dispose (clearStack : Bool) {before : Execution} {front others : List NodeId}
    (clears : Clears pending front (id :: others) before) :
    Ensures (· = before) (dispose id clearStack) fun _ => Clears pending front others := by
  obtain ⟨anchored, hOrder⟩ := clears
  rw [List.reverse_cons, ← List.append_assoc] at hOrder
  have hId : id ∈ before.graph.order := hOrder ▸ List.mem_concat_self
  refine (anchored.dispose hId clearStack).weaken fun _ later ⟨hAnchored, hGraph⟩ => ⟨hAnchored, ?_⟩
  rw [hGraph, order_disposeOne, hOrder, erase_concat (hOrder ▸ anchored.linked.nodup)]

/-- The nodes of the assertion are disposed of from the last one on. -/
theorem anchored_foldAssertion (pending : List Label) (thrown : Operand) :
    Ensures (Anchored pending) (foldAssertion thrown) fun _ => Anchored pending := by
  refine .look fun state anchored => ?_
  have hKept : ∀ done : Bool, Ensures (· = state) (pure done) fun _ => Anchored pending := fun done =>
    .pure fun _ hState => hState ▸ anchored
  dsimp only
  split
  · rename_i here _ hCurrent _
    have hBusy : state.current ≠ none := hCurrent ▸ Option.some_ne_none here
    refine .ite (hKept false) ?_
    split
    · rename_i between guard hBetween
      split
      · split
        · refine .ite (hKept false) ?_
          obtain ⟨front, hOrder⟩ := List.getLast?_eq_some_iff.mp (anchored.getLast? hCurrent)
          rw [anchored.linked.previous_last hOrder] at hBetween
          -- All that comes after the guard is disposed of, the last node first, so the guard is the last one in the end.
          obtain ⟨start, rfl⟩ := emptyBefore_order anchored.linked hOrder hBetween
          have hClears : ∀ now, Stands state now → Clears pending (start ++ [guard]) (here :: between) now :=
            fun now hNow => ⟨anchored.stay hNow.1 hNow.2, by rw [hNow.1.order, hOrder]; simp⟩
          refine .strengthen ?_ fun now hNow => (hNow ▸ ⟨.refl _, rfl⟩ : Stands state now)
          refine ((Relates.supply _).stands hBusy).bind fun assertion => ?_
          refine ((Relates.changeGraph ?_).stands hBusy).bind fun _ => ?_
          · exact fun graph => (SameLayout.mapStack graph _ _).trans (.setDestination _ _ _)
          refine ((Relates.note ?_).stands hBusy).bind fun _ => ?_
          · exact fun _ => rfl
          refine (Ensures.each fun now hNow => clears_dispose true (hClears now hNow)).bind fun _ => ?_
          refine Ensures.bind (.forIn between fun id others =>
            (?_ : Ensures (Clears pending (start ++ [guard]) (id :: others)) _ _)) fun _ => ?_
          · refine .node fun now hNow => ?_
            have hLive : (now.graph.node id).disposed = false := hNow.1.linked.live id (hNow.2 ▸ by simp)
            rw [if_neg (by simp [hLive])]
            exact (clears_dispose true hNow).bind fun _ => .pure fun _ hRest => ⟨rfl, hRest⟩
          · refine (Ensures.change fun now hNow => ?_).bind fun _ => .pure fun _ anchored => anchored
            refine hNow.1.trims (.refl hNow.1.linked) ?_
            simp [hNow.2]
        · exact hKept false
      · exact hKept false
    · exact hKept false
  · exact hKept false

/-! ### Boolean returns -/

/-- The nodes of the two returns are disposed of from the last one on. -/
theorem anchored_foldBooleanReturn (pending : List Label) :
    Ensures (Anchored pending) foldBooleanReturn fun _ => Anchored pending := by
  refine (Relates.get.anchored pending).bind fun state => .ite (.pure fun _ anchored => anchored) ?_
  refine ((relates_returnsConstants _ _).anchored pending).bind fun direct => ?_
  refine ((relates_returnsConstants _ _).anchored pending).bind fun swapped => ?_
  refine .ite (.pure fun _ anchored => anchored) ((anchored_here pending).bind fun here => ?_)
  refine .look fun state hState => ?_
  obtain ⟨anchored, hCurrent⟩ := hState
  have hBusy : state.current ≠ none := hCurrent ▸ Option.some_ne_none here
  have hKept : Ensures (· = state) (pure ()) fun _ => Anchored pending := .pure fun _ hState => hState ▸ anchored
  extract_lets graph leavesConstant fold
  split
  · exact hKept
  · rename_i previous hPrevious
    have hPlaced := anchored.linked.mem_of_previous (anchored.mem hCurrent) hPrevious
    refine .ite hKept (.strengthen ?_ fun now hNow => (hNow ▸ ⟨.refl _, rfl⟩ : Stands state now))
    refine ((Relates.changeGraph ?_).stands hBusy).bind fun _ => ?_
    · exact fun graph => (((SameLayout.mapStack graph here _).trans (.mapStack _ previous _)).trans
        (.connect _ previous here)).trans (.setDestination _ _ _)
    have hFold : ∀ disposed, Ensures (Anchored pending) (fold disposed) fun _ => Anchored pending := by
      refine fun _ => Relates.anchored ?_ pending
      refine (relates_peek? 0).bind fun top => ?_
      split
      · extract_lets negate
        have hNegate : ∀ refused, Relates KeepsAnchor (negate refused) := fun _ =>
          .ite ((Relates.supply _).bind fun _ => relates_changeEntry _ _) (.pure _)
        exact .ite ((relates_refuse _).bind hNegate) (hNegate ())
      · exact relates_refuse _
    refine .node fun now hNow => ?_
    have hAnchored := anchored.stay hNow.1 hNow.2
    refine .ite (Ensures.bind (hAnchored.dispose (hNow.1.order ▸ hPlaced) false) fun _ => ?_) ?_
    · exact (hFold ()).strengthen fun _ hLater => hLater.1
    · exact (hFold ()).strengthen fun _ hLater => hLater ▸ hAnchored

/-! ### Opening assertions -/

/-- The new node comes last, right behind its guard. -/
theorem anchored_insertAssertion (pending : List Label) :
    Ensures (Anchored pending) insertAssertion fun guard state =>
      Anchored pending state ∧ guard ∈ state.graph.order ∧ state.current ≠ some guard := by
  refine (anchored_here pending).bind fun guard => ?_
  rintro setting state value later ⟨anchored, hCurrent⟩ hRun
  cases hRun
  obtain ⟨front, hOrder⟩ := List.getLast?_eq_some_iff.mp (anchored.getLast? hCurrent)
  have hGuard := anchored.mem hCurrent
  have hInsert := insertAfter_eq anchored.linked hOrder
  have hSame : SameLayout (state.graph.insertAfter guard).2 (((state.graph.insertAfter guard).2.connect guard
      state.graph.nodes.size).setDestination guard (.node state.graph.nodes.size)) :=
    (SameLayout.connect _ guard _).trans (.setDestination _ guard _)
  have hPlaced : (state.graph.insertAfter guard).2.order = state.graph.order ++ [state.graph.nodes.size] := by
    rw [hInsert, order_between, hOrder]
  have hLinked : Linked (state.graph.insertAfter guard).2 := by
    rw [hInsert]
    exact anchored.linked.create (by rw [hOrder, List.append_nil])
  have hDisposed (other : NodeId) : ((state.graph.insertAfter guard).2.node other).disposed =
      (state.graph.node other).disposed :=
    field_insertAfter Node.disposed (fun _ _ _ => rfl) fun _ => rfl
  refine ⟨anchored.extend (hSame.linked hLinked) (hSame.order.trans hPlaced) ?_ ?_
    (fun other => (hSame.disposed other).trans (hDisposed other)) rfl (List.Subset.refl _)
    fun label _ => anchored.labelNode?_ne_size label, ?_, fun hSelf => ?_⟩
  · exact Nat.le.intro (hSame.size.trans (insertAfter_frame state.graph guard).2.1).symm
  · exact hSame.labels.trans (by rw [hInsert, labels_between]; rfl)
  · exact hSame.order ▸ hPlaced ▸ List.mem_append_left _ hGuard
  · exact absurd (anchored.linked.lt guard hGuard) (Option.some.inj hSelf ▸ Nat.lt_irrefl _)

theorem anchored_openAssertion (pending : List Label) :
    Ensures (Anchored pending) openAssertion fun _ => Anchored pending :=
  (anchored_insertAssertion pending).bind fun _ _ _ _ _ ⟨anchored, hPlaced, hOther⟩ hRun =>
    anchored.merge hPlaced hOther hRun

instance : HoldsOfIdioms KeepsAnchor where
  relates_nodeOfLabel label setting state id after hRun pending anchored := by
    cases hRun
    exact anchored.nodeOfLabel label
  relates_mergeHere := relates_keepsAnchor fun pending => (anchored_here pending).bind (anchored_mergeBefore pending)
  relates_joinBranches := Relates.read.bind fun setting => .ite (Relates.get.bind fun state =>
    relates_keepsAnchor fun pending => anchored_joinBranchesWithin pending _) (.pure _)
  relates_foldAssertion thrown := relates_keepsAnchor fun pending => anchored_foldAssertion pending thrown
  relates_foldBooleanReturn := relates_keepsAnchor anchored_foldBooleanReturn
  relates_openAssertion := relates_keepsAnchor anchored_openAssertion

/-! ### Labels -/

theorem stands_fallInto (next : NodeId) (before : Execution) :
    Ensures (· = before) (fallInto next) fun _ => Stands before := by
  cases hCurrent : before.current with
  | some current =>
      refine ((relates_fallInto next).stands (hCurrent ▸ Option.some_ne_none current)).strengthen ?_
      rintro _ rfl
      exact ⟨.refl _, rfl⟩
  | none =>
      rintro setting _ value later rfl hRun
      obtain ⟨_, _, hState, hRun⟩ := run_bind_ok hRun
      cases hState
      rw [hCurrent] at hRun
      cases hRun
      exact ⟨.refl _, rfl⟩

theorem anchored_nodeOfLabel (pending : List Label) (label : Label) :
    Ensures (Anchored pending) (GraphM.create (·.nodeOfLabel label) : ExecutionM NodeId) fun id state =>
      Anchored pending state ∧ state.graph.labelNode? label = some id := fun setting state id later anchored hRun => by
  cases hRun
  exact ⟨anchored.nodeOfLabel label, labelNode?_nodeOfLabel state.graph label⟩

/-- The node of a pending label is placed. -/
theorem Anchored.append (anchored : Anchored (label :: rest) state) (hFresh : label ∉ rest)
    (hLabel : state.graph.labelNode? label = some id) :
    Anchored rest { state with graph := state.graph.append id, current := some id } := by
  obtain ⟨hAbsent, hLive⟩ := anchored.waiting label List.mem_cons_self id hLabel
  refine anchored.extend (anchored.linked.append (anchored.within label id hLabel) hAbsent hLive) (order_append _ id)
    (size_append _ id).ge (labels_append _ id) (fun _ => field_append Node.disposed fun _ _ _ => rfl) rfl
    (List.subset_cons_self label rest) fun other hOther hSame => hFresh ?_
  exact anchored.apart label other id hLabel hSame ▸ hOther

/-- A label that is opened is no longer pending, and its node is the last one. -/
theorem anchored_openLabel (hFresh : label ∉ rest) :
    Ensures (Anchored (label :: rest)) (openLabel label) fun next state =>
      Anchored rest state ∧ state.current = some next := by
  refine ((Relates.note ?_).anchored _).bind fun _ => (anchored_nodeOfLabel _ label).bind fun next => ?_
  · exact fun _ => rfl
  refine .look fun state hState => ?_
  obtain ⟨anchored, hNext⟩ := hState
  extract_lets place
  -- A pending label has no place yet, so the node is placed in any case.
  have hPlace : ∀ checked, Ensures (· = state) (place checked) fun id state =>
      Anchored rest state ∧ state.current = some id := by
    refine fun _ => (stands_fallInto next state).bind fun _ => (Ensures.change fun now hNow => ?_).bind fun _ =>
      .pure fun _ hOpened => hOpened
    have hLabel := (labelNode?_congr hNow.1.labels label).trans hNext
    exact ⟨(anchored.stay hNow.1 hNow.2).append hFresh hLabel, rfl⟩
  exact .ite ((Ensures.refuse _).bind hPlace) (hPlace ())

/-- A label that no node was opened for gets its place at the end. -/
theorem anchored_label (hFresh : label ∉ rest) :
    Ensures (Anchored (label :: rest)) (Execution.label label) fun _ => Anchored rest :=
  (anchored_openLabel hFresh).bind fun next => (anchored_mergeBefore rest next).bind fun _ =>
    (relates_recordNode .label next).anchored rest

/-! ### Runs -/

/-- The labels that the events open, in order. -/
def labelsOf (events : List Event) : List Label := events.filterMap fun
  | .label id => some id
  | _ => none

theorem labelsOf_cons (event : Event) (rest : List Event) :
    (∃ id, event = .label id ∧ labelsOf (event :: rest) = id :: labelsOf rest) ∨
      (∀ id, event ≠ .label id) ∧ labelsOf (event :: rest) = labelsOf rest := by
  cases event with
  | label id => exact .inl ⟨id, rfl, rfl⟩
  | _ => exact .inr ⟨nofun, rfl⟩

/-- Labels open nodes at the end, and all other events go by the rules. -/
theorem anchored_accept (event : Event) (rest : List Event) (hDistinct : (labelsOf (event :: rest)).Nodup) :
    Ensures (Anchored (labelsOf (event :: rest))) (accept event) fun _ => Anchored (labelsOf rest) := by
  rcases labelsOf_cons event rest with ⟨id, rfl, hLabels⟩ | ⟨hOther, hLabels⟩
  · rw [hLabels] at hDistinct ⊢
    exact anchored_label (List.nodup_cons.mp hDistinct).1
  · rw [hLabels]
    exact (relates_accept event fun id hLabel => absurd hLabel (hOther id)).anchored _

/-- By induction on the events, as no label comes twice. -/
theorem anchored_accepts (accepted rest : List Event) (hDistinct : (labelsOf (accepted ++ rest)).Nodup) :
    Ensures (Anchored (labelsOf (accepted ++ rest))) (accepted.forM accept) fun _ => Anchored (labelsOf rest) := by
  induction accepted with
  | nil => exact .pure fun _ anchored => anchored
  | cons event accepted ih =>
      refine (anchored_accept event (accepted ++ rest) hDistinct).bind fun _ => ih ?_
      exact hDistinct.sublist ((List.sublist_cons_self event (accepted ++ rest)).filterMap _)

/-- Before the first event there is no node. -/
theorem anchored_initial (unit : CompiledUnit) (descriptor : MethodDescriptor) (pending : List Label) :
    Anchored pending (initial unit descriptor) where
  linked := WellFormed.empty.linked
  current := rfl
  within := nofun
  apart := nofun
  waiting := nofun

/-- Instructions are always appended to the last node: as long as no label is opened twice, there is no current node just
when no node has a place, and else it is the last one in the order of appearance, which is not disposed of. -/
theorem current_last (unit : CompiledUnit) (descriptor : MethodDescriptor) (setting : Setting)
    (hDistinct : (labelsOf unit.events).Nodup) (accepted : List Event) (hPrefix : accepted <+: unit.events)
    (state : Execution)
    (hRun : (accepted.forM accept setting).run.run (initial unit descriptor) = (.ok (), state)) :
    (state.current = none ↔ state.graph.order = []) ∧ ∀ id, state.current = some id →
      state.graph.order.getLast? = some id ∧ id ∈ state.graph.order ∧ (state.graph.node id).disposed = false := by
  obtain ⟨rest, hEvents⟩ := hPrefix
  rw [← hEvents] at hDistinct
  have anchored := anchored_accepts accepted rest hDistinct setting _ _ state (anchored_initial unit descriptor _) hRun
  refine ⟨by rw [anchored.current, List.getLast?_eq_none_iff], fun id hCurrent => ?_⟩
  have hPlaced := anchored.mem hCurrent
  exact ⟨anchored.getLast? hCurrent, hPlaced, anchored.linked.live id hPlaced⟩

/-- A method that asserts something of its argument. -/
def asserting : CompiledUnit where
  owner := "A"
  name := "m"
  descriptor := "(I)V"
  isStatic := true
  events :=
    [.field .getstatic { owner := "A", name := "$assertionsDisabled", descriptor := "Z" }, .jump .ifne 1,
      .var .iload 0, .jump .ifne 1, .type .new "java/lang/AssertionError", .insn .dup,
      .method .invokespecial { owner := "java/lang/AssertionError", name := "<init>", descriptor := "()V" },
      .insn .athrow, .label 1, .insn .vreturn]

theorem exists_run {action : ExecutionM Unit} {holds : Execution → Prop} [DecidablePred holds]
    (hHolds : ((action setting).run.run state).1.toOption.isSome ∧ holds ((action setting).run.run state).2) :
    ∃ after, (action setting).run.run state = (.ok (), after) ∧ holds after := by
  cases hRun : (action setting).run.run state with
  | mk outcome after =>
      rw [hRun] at hHolds
      cases outcome with
      | ok value => exact ⟨after, rfl, hHolds.2⟩
      | error fault => exact absurd hHolds.1 Bool.false_ne_true

/-- Throwing the error made a node for it and disposed of that node, which was the current one. -/
theorem current_last_asserting : (labelsOf asserting.events).Nodup ∧
    asserting.events.take 8 <+: asserting.events ∧ ∃ state,
      ((asserting.events.take 8).forM accept {}).run.run
        (initial asserting { parameters := [.int], result := .void }) = (.ok (), state) ∧
      state.graph.nodes.size = 3 ∧ state.graph.order = [0] ∧ (state.graph.node 2).disposed = true ∧
      state.current = some 0 ∧ (state.current = none ↔ state.graph.order = []) ∧
      ∀ id, state.current = some id →
        state.graph.order.getLast? = some id ∧ id ∈ state.graph.order ∧ (state.graph.node id).disposed = false := by
  have hChecked : ∃ state,
      ((asserting.events.take 8).forM accept {}).run.run
        (initial asserting { parameters := [.int], result := .void }) = (.ok (), state) ∧
      state.graph.nodes.size = 3 ∧ state.graph.order = [0] ∧ (state.graph.node 2).disposed = true ∧
      state.current = some 0 := exists_run (by decide +kernel)
  have hDistinct : (labelsOf asserting.events).Nodup := by decide
  have hPrefix : asserting.events.take 8 <+: asserting.events := List.take_prefix 8 _
  obtain ⟨state, hRun, hSize, hOrder, hGone, hCurrent⟩ := hChecked
  exact ⟨hDistinct, hPrefix, state, hRun, hSize, hOrder, hGone, hCurrent,
    current_last asserting _ {} hDistinct _ hPrefix state hRun⟩

end Decompiler.Execution
