import Decompiler.Graph.Stack
import Decompiler.Proofs.Graph.Operation
import Mathlib.Data.List.Induction
import Mathlib.Data.List.Perm.Subperm

/-!
The stack that goes on from node to node is one flat stack. The nodes that hold it lie one before the other in order of
appearance, so none of them occurs twice, and they are no more than the nodes of the graph. An entry at a depth lies in
one of them, and a change of what that node has there is a change of the flat stack at this depth.
-/

namespace Decompiler.Graph

variable {graph after : Graph} {id below : NodeId} {ids : List NodeId} {fuel : Nat}

/-- What an instruction in a node sees, from the top on: the stack of the node, and then what it goes on with. -/
inductive FlatStack (graph : Graph) : NodeId → List Operand → Prop where
  | bottom {id : NodeId} (hBottom : graph.stackBelow? id = none) : FlatStack graph id (graph.node id).stack.reverse
  | above {id below : NodeId} {entries : List Operand} (hBelow : graph.stackBelow? id = some below)
      (rest : FlatStack graph below entries) : FlatStack graph id ((graph.node id).stack.reverse ++ entries)

/-! ### The nodes of a flat stack -/

/-- The nodes that hold the flat stack of a node, from the top on. -/
inductive StackNodes (graph : Graph) : NodeId → List NodeId → Prop where
  | bottom {id : NodeId} (hBottom : graph.stackBelow? id = none) : StackNodes graph id [id]
  | above {id below : NodeId} {ids : List NodeId} (hBelow : graph.stackBelow? id = some below)
      (rest : StackNodes graph below ids) : StackNodes graph id (id :: ids)

/-- What some nodes hold, each from the top on. -/
def stacked (graph : Graph) (ids : List NodeId) : List Operand := ids.flatMap fun id => (graph.node id).stack.reverse

theorem stacked_cons (graph : Graph) (id : NodeId) (ids : List NodeId) :
    graph.stacked (id :: ids) = (graph.node id).stack.reverse ++ graph.stacked ids := List.flatMap_cons

theorem stacked_append (graph : Graph) (ids others : List NodeId) :
    graph.stacked (ids ++ others) = graph.stacked ids ++ graph.stacked others := List.flatMap_append

theorem stacked_congr (hSame : ∀ id ∈ ids, (after.node id).stack = (graph.node id).stack) :
    after.stacked ids = graph.stacked ids :=
  List.flatMap_congr fun id hId => congrArg List.reverse (hSame id hId)

namespace StackNodes

theorem flatStack_iff (nodes : graph.StackNodes id ids) {entries : List Operand} :
    graph.FlatStack id entries ↔ entries = graph.stacked ids := by
  induction nodes generalizing entries with
  | bottom hBottom =>
      constructor
      · rintro (_ | ⟨hBelow, _⟩)
        · simp [stacked]
        · simp [hBottom] at hBelow
      · rintro rfl
        simpa [stacked] using FlatStack.bottom hBottom
  | above hBelow _ ih =>
      constructor
      · rintro (hBottom | ⟨hOther, rest⟩)
        · simp [hBelow] at hBottom
        · obtain rfl := Option.some.inj (hBelow.symm.trans hOther)
          rw [stacked_cons, ih.mp rest]
      · rintro rfl
        exact .above hBelow (ih.mpr rfl)

theorem congr (nodes : graph.StackNodes id ids) (hBelow : ∀ id, after.stackBelow? id = graph.stackBelow? id) :
    after.StackNodes id ids := by
  induction nodes with
  | bottom hBottom => exact .bottom (hBelow _ ▸ hBottom)
  | above hNext _ ih => exact .above (hBelow _ ▸ hNext) ih

end StackNodes

theorem previous_of_stackBelow? (hBelow : graph.stackBelow? id = some below) :
    (graph.node id).previous = some below := by
  rw [stackBelow?] at hBelow
  split at hBelow
  · cases hBelow
  · exact hBelow

/-- The flat stack of a placed node lies in nodes up to it, one right before the other. -/
theorem Linked.stackNodes_placed (linked : Linked graph) (front : List NodeId) {back : List NodeId}
    (hOrder : graph.order = front ++ id :: back) : ∃ ids, graph.StackNodes id ids ∧ ids <+: id :: front.reverse := by
  induction front using List.reverseRecOn generalizing id back with
  | nil =>
      refine ⟨[id], .bottom ?_, List.prefix_refl _⟩
      refine Option.eq_none_iff_forall_ne_some.mpr fun below hBelow => ?_
      have hPrevious := previous_of_stackBelow? hBelow
      rw [(linked.previous_next hOrder).1] at hPrevious
      cases hPrevious
  | append_singleton front last ih =>
      cases hBelow : graph.stackBelow? id with
      | none => exact ⟨[id], .bottom hBelow, List.prefix_append [id] _⟩
      | some below =>
          have hPrevious := previous_of_stackBelow? hBelow
          rw [(linked.previous_next hOrder).1, List.getLast?_concat] at hPrevious
          obtain rfl := Option.some.inj hPrevious
          obtain ⟨ids, nodes, hPrefix⟩ := ih (show graph.order = front ++ last :: id :: back by simpa using hOrder)
          refine ⟨id :: ids, .above hBelow nodes, ?_⟩
          rw [List.reverse_concat]
          exact (List.prefix_cons_inj id).mpr hPrefix

/-- Different nodes with a place are no more than the nodes of the graph. -/
theorem Linked.length_le (linked : Linked graph) (hNodup : ids.Nodup) (hPlaced : ids ⊆ graph.order) :
    ids.length ≤ graph.nodes.size := by
  have hArena : ids ⊆ List.range graph.nodes.size := fun id hId =>
    List.mem_range.mpr (linked.lt id (hPlaced hId))
  have hLength := (List.subperm_of_subset hNodup hArena).length_le
  rwa [List.length_range] at hLength

/-- The flat stack of a live node lies in different nodes, and they are not more than those that a search looks at. -/
theorem Linked.exists_stackNodes (linked : Linked graph) (hLive : (graph.node id).disposed = false) :
    ∃ ids, graph.StackNodes id ids ∧ ids.Nodup ∧ ids.length ≤ graph.nodes.size + 1 := by
  by_cases hPlaced : id ∈ graph.order
  · obtain ⟨front, back, hOrder⟩ := List.append_of_mem hPlaced
    obtain ⟨ids, nodes, hPrefix⟩ := linked.stackNodes_placed front hOrder
    have hNodup : (id :: front.reverse).Nodup := by
      have hAll := hOrder ▸ linked.nodup
      rw [List.append_cons] at hAll
      simpa using List.nodup_reverse.mpr (List.nodup_append.mp hAll).1
    have hPlaced : id :: front.reverse ⊆ graph.order := fun other hOther => by
      rcases List.mem_cons.mp hOther with rfl | hOther
      · exact hPlaced
      · exact hOrder ▸ List.mem_append_left _ (List.mem_reverse.mp hOther)
    have hLength := linked.length_le hNodup hPlaced
    exact ⟨ids, nodes, hNodup.sublist hPrefix.sublist, (hPrefix.length_le.trans hLength).trans (Nat.le_succ _)⟩
  · have hBottom : graph.stackBelow? id = none := by
      simp [stackBelow?, (linked.waiting id hPlaced hLive).1]
    exact ⟨[id], .bottom hBottom, List.nodup_singleton id, by simp⟩

/-! ### Addresses -/

/-- An entry of a node has entries of it below and above. -/
theorem locateFrom_here {depth : Nat} (hDepth : depth < (graph.node id).stack.length) (fuel : Nat) :
    ∃ lower entry upper, (graph.node id).stack = lower ++ entry :: upper ∧ upper.length = depth ∧
      graph.locateFrom (fuel + 1) id depth = some (id, lower.length) := by
  generalize hPlace : (graph.node id).stack.length - 1 - depth = place
  have hBound : place < (graph.node id).stack.length := by omega
  have hStack := List.take_append_drop place (graph.node id).stack
  rw [List.drop_eq_getElem_cons hBound] at hStack
  refine ⟨_, _, _, hStack.symm, ?_, ?_⟩
  · rw [List.length_drop]
    omega
  · rw [locateFrom, if_pos hDepth, hPlace, List.length_take, Nat.min_eq_left hBound.le]

theorem locateFrom_of_le {depth : Nat} (hDepth : (graph.node id).stack.length ≤ depth) (fuel : Nat) :
    graph.locateFrom (fuel + 1) id depth =
      (graph.stackBelow? id).bind fun below => graph.locateFrom fuel below (depth - (graph.node id).stack.length) := by
  rw [locateFrom, if_neg (Nat.not_lt.mpr hDepth)]
  rfl

namespace StackNodes

/-- A search that may look at all nodes of the flat stack does not depend on the bound. -/
theorem locateFrom_eq (nodes : graph.StackNodes id ids) (hFuel : ids.length ≤ fuel) (depth : Nat) :
    graph.locateFrom fuel id depth = graph.locateFrom ids.length id depth := by
  induction nodes generalizing fuel depth with
  | bottom hBottom =>
      cases fuel with
      | zero => simp at hFuel
      | succ fuel => simp [locateFrom, hBottom]
  | above hBelow _ ih =>
      cases fuel with
      | zero => simp at hFuel
      | succ fuel =>
          have hRest := ih (Nat.le_of_succ_le_succ hFuel)
          simp only [locateFrom, List.length_cons, hBelow, Option.bind_eq_bind, Option.bind_some, hRest]

/-- Below the bottom of the flat stack there is nothing. -/
theorem locateFrom_none (nodes : graph.StackNodes id ids) {depth : Nat}
    (hDepth : (graph.stacked ids).length ≤ depth) : graph.locateFrom ids.length id depth = none := by
  induction nodes generalizing depth with
  | @bottom id hBottom =>
      have hDepth : (graph.node id).stack.length ≤ depth := by simpa [stacked] using hDepth
      rw [List.length_singleton, locateFrom_of_le hDepth, hBottom]
      rfl
  | above hBelow _ ih =>
      rw [stacked_cons, List.length_append, List.length_reverse] at hDepth
      rw [List.length_cons, locateFrom_of_le (by omega), hBelow]
      exact ih (by omega)

/-- An entry of the flat stack lies in one of the nodes. Those before it and the entries above it in this node make up
its depth. -/
theorem locateFrom_some (nodes : graph.StackNodes id ids) {depth : Nat}
    (hDepth : depth < (graph.stacked ids).length) :
    ∃ front holder back lower entry upper, ids = front ++ holder :: back ∧
      (graph.node holder).stack = lower ++ entry :: upper ∧
      (graph.stacked front).length + upper.length = depth ∧
      graph.locateFrom ids.length id depth = some (holder, lower.length) := by
  -- The entry lies in the first node, or the search goes on below it.
  induction nodes generalizing depth with
  | @bottom id hBottom =>
      have hDepth : depth < (graph.node id).stack.length := by simpa [stacked] using hDepth
      obtain ⟨lower, entry, upper, hStack, hUpper, hFound⟩ := locateFrom_here hDepth 0
      exact ⟨[], id, [], lower, entry, upper, rfl, hStack, by simpa [stacked] using hUpper, hFound⟩
  | @above id below ids hBelow _ ih =>
      by_cases hHere : depth < (graph.node id).stack.length
      · obtain ⟨lower, entry, upper, hStack, hUpper, hFound⟩ := locateFrom_here hHere ids.length
        exact ⟨[], id, ids, lower, entry, upper, rfl, hStack, by simpa [stacked] using hUpper, hFound⟩
      · rw [stacked_cons, List.length_append, List.length_reverse] at hDepth
        obtain ⟨front, holder, back, lower, entry, upper, rfl, hStack, hUpper, hFound⟩ :=
          ih (show depth - (graph.node id).stack.length < _ by omega)
        refine ⟨id :: front, holder, back, lower, entry, upper, rfl, hStack, ?_, ?_⟩
        · rw [stacked_cons, List.length_append, List.length_reverse]
          omega
        · rw [List.length_cons, locateFrom_of_le (Nat.not_lt.mp hHere), hBelow]
          exact hFound

end StackNodes

/-! ### Changes of an entry -/

theorem stackBelow?_mapStack (graph : Graph) (holder id : NodeId) (change : List Operand → List Operand) :
    (graph.mapStack holder change).stackBelow? id = graph.stackBelow? id := by
  have hIncoming : ((graph.mapStack holder change).node id).incoming = (graph.node id).incoming :=
    field_update Node.incoming _ rfl
  have hPrevious : ((graph.mapStack holder change).node id).previous = (graph.node id).previous :=
    field_update Node.previous _ rfl
  rw [stackBelow?, stackBelow?, hIncoming, hPrevious]

theorem stack_mapStack_of_ne {holder : NodeId} (hOther : holder ≠ id) (change : List Operand → List Operand) :
    ((graph.mapStack holder change).node id).stack = (graph.node id).stack :=
  congrArg Node.stack (node_update_of_ne hOther _)

/-- A node that holds something is in the graph. -/
theorem stack_mapStack {holder : NodeId} (hSome : (graph.node holder).stack ≠ [])
    (change : List Operand → List Operand) :
    ((graph.mapStack holder change).node holder).stack = change (graph.node holder).stack := by
  have hHolder : holder < graph.nodes.size := by
    by_contra hOutside
    simp [node_of_size_le (Nat.not_lt.mp hOutside)] at hSome
  exact congrArg Node.stack (node_update_self hHolder _)

/-- An entry of a flat stack, with what lies around it in its node and in the flat stack. After a change both have the
same in its place. -/
structure Address (graph : Graph) (id : NodeId) where
  holder : NodeId
  entry : Operand
  /-- What the holder has below and above the entry. -/
  lower : List Operand
  upper : List Operand
  /-- What the flat stack has above and below the entry. -/
  above : List Operand
  below : List Operand
  located : graph.locate? id above.length = some (holder, lower.length)
  stack_eq : (graph.node holder).stack = lower ++ entry :: upper
  flatStack : ∀ middle, (graph.mapStack holder fun _ => lower ++ middle ++ upper).FlatStack id
    (above ++ middle.reverse ++ below)

namespace Address

variable (address : Address graph id)

/-- The whole flat stack. -/
def entries : List Operand := address.above ++ address.entry :: address.below

def depth : Nat := address.above.length

/-- The graph with other operands in place of the entry. -/
def put (middle : List Operand) : Graph :=
  graph.mapStack address.holder fun _ => address.lower ++ middle ++ address.upper

@[simp] theorem getElem?_stack : (graph.node address.holder).stack[address.lower.length]? = some address.entry := by
  simp [address.stack_eq]

theorem getElem?_entries : address.entries[address.depth]? = some address.entry := by
  simp [entries, depth]

theorem flatStack_put (middle : List Operand) :
    (address.put middle).FlatStack id (address.above ++ middle.reverse ++ address.below) := address.flatStack middle

theorem flatStack_erase : (address.put []).FlatStack id (address.entries.eraseIdx address.depth) := by
  rw [entries, depth, List.eraseIdx_append_of_length_le (Nat.le_refl _), Nat.sub_self, List.eraseIdx_cons_zero]
  simpa using address.flatStack_put []

theorem flatStack_set (operand : Operand) :
    (address.put [operand]).FlatStack id (address.entries.set address.depth operand) := by
  rw [entries, depth, List.set_append_right _ _ (Nat.le_refl _), Nat.sub_self, List.set_cons_zero]
  simpa using address.flatStack_put [operand]

/-- A change of the holder's stack that leaves what is around the entry. -/
theorem mapStack_eq {change : List Operand → List Operand} {middle : List Operand}
    (hChange : change (address.lower ++ address.entry :: address.upper) = address.lower ++ middle ++ address.upper) :
    graph.mapStack address.holder change = address.put middle :=
  update_congr _ (by rw [address.stack_eq, hChange])

theorem peek?_eq : graph.peek? id address.depth = some address.entry := by
  rw [peek?, depth, address.located]
  exact address.getElem?_stack

theorem changeEntry_eq (change : Operand → Operand) :
    graph.changeEntry id address.depth change = address.put [change address.entry] := by
  rw [changeEntry, depth, address.located]
  exact address.mapStack_eq (by simp [List.modify_eq_set_getElem?])

theorem take?_eq : graph.take? id address.depth = some (address.entry, address.put []) := by
  have hErased : graph.mapStack address.holder (·.eraseIdx address.lower.length) = address.put [] :=
    address.mapStack_eq (by simp [List.eraseIdx_append_of_length_le])
  rw [take?, depth, address.located, ← hErased]
  simp

theorem pop?_of_single (hSingle : address.entry.duplicated = false) :
    graph.pop? id address.depth = graph.take? id address.depth := by
  rw [pop?, address.peek?_eq]
  simp [hSingle]

/-- Only the mark of a duplicated entry goes. -/
theorem pop?_of_duplicated (hDuplicated : address.entry.duplicated = true) :
    graph.pop? id address.depth = some ({ address.entry with duplicated := false },
      address.put [{ address.entry with duplicated := false }]) := by
  rw [pop?, address.peek?_eq, ← address.changeEntry_eq fun _ => { address.entry with duplicated := false }]
  simp [hDuplicated]

theorem set?_eq (operand : Operand) : graph.set? id address.depth operand = some (address.put [operand]) := by
  rw [set?, address.changeEntry_eq fun _ => operand, depth, address.located, Option.map_some]

end Address

/-- Every entry of the flat stack has an address. -/
theorem StackNodes.exists_address (nodes : graph.StackNodes id ids) (hNodup : ids.Nodup)
    (hBound : ids.length ≤ graph.nodes.size + 1) {depth : Nat} (hDepth : depth < (graph.stacked ids).length) :
    ∃ address : Address graph id, address.entries = graph.stacked ids ∧ address.depth = depth := by
  obtain ⟨front, holder, back, lower, entry, upper, rfl, hStack, hUpper, hFound⟩ := nodes.locateFrom_some hDepth
  obtain ⟨_, hRest, hDisjoint⟩ := List.nodup_append.mp hNodup
  have hFront (other : NodeId) (hOther : other ∈ front) : holder ≠ other :=
    (hDisjoint other hOther holder List.mem_cons_self).symm
  have hBack (other : NodeId) (hOther : other ∈ back) : holder ≠ other := fun hSame =>
    (List.nodup_cons.mp hRest).1 (hSame ▸ hOther)
  have hAbove : (graph.stacked front ++ upper.reverse).length = depth := by
    rw [List.length_append, List.length_reverse, hUpper]
  have hFlat (middle : List Operand) : (graph.mapStack holder fun _ => lower ++ middle ++ upper).FlatStack id
      (graph.stacked front ++ upper.reverse ++ middle.reverse ++ (lower.reverse ++ graph.stacked back)) := by
    refine (nodes.congr fun _ => stackBelow?_mapStack _ _ _ _).flatStack_iff.mpr ?_
    rw [stacked_append, stacked_cons, stacked_congr fun other hOther => stack_mapStack_of_ne (hFront other hOther) _,
      stacked_congr fun other hOther => stack_mapStack_of_ne (hBack other hOther) _,
      stack_mapStack (by simp [hStack])]
    simp
  refine ⟨⟨holder, entry, lower, upper, _, _, hAbove ▸ (nodes.locateFrom_eq hBound depth).trans hFound, hStack, hFlat⟩,
    ?_, hAbove⟩
  simp [Address.entries, stacked_append, stacked_cons, hStack]

/-! ### Operations on the flat stack -/

/-- The graphs differ in the stack of the given node at most. -/
def SameButStack (before : Graph) (holder : NodeId) (after : Graph) : Prop :=
  ∃ stack, after = before.mapStack holder fun _ => stack

/-- A live node has one flat stack. An entry is found at each of its depths and nowhere else, whatever more steps a
search may take. The entry at a depth is looked at, taken, popped or replaced there, and the stack of the node that
holds it is all that changes. -/
theorem flatStack_exact (linked : Linked graph) (hLive : (graph.node id).disposed = false) :
    ∃ entries, (∀ other, graph.FlatStack id other ↔ other = entries) ∧
      (∀ depth fuel, graph.nodes.size < fuel → graph.locateFrom fuel id depth = graph.locate? id depth) ∧
      (∀ depth operand, entries.length ≤ depth → graph.locate? id depth = none ∧ graph.peek? id depth = none ∧
        graph.take? id depth = none ∧ graph.pop? id depth = none ∧ graph.set? id depth operand = none) ∧
      ∀ depth entry, entries[depth]? = some entry →
        ∃ holder place, graph.locate? id depth = some (holder, place) ∧
          (graph.node holder).stack[place]? = some entry ∧ graph.peek? id depth = some entry ∧
          (∃ after, graph.take? id depth = some (entry, after) ∧ after.FlatStack id (entries.eraseIdx depth) ∧
            graph.SameButStack holder after) ∧
          (entry.duplicated = false → graph.pop? id depth = graph.take? id depth) ∧
          (entry.duplicated = true → ∃ after, graph.pop? id depth = some ({ entry with duplicated := false }, after) ∧
            after.FlatStack id (entries.set depth { entry with duplicated := false }) ∧
            graph.SameButStack holder after) ∧
          ∀ operand, ∃ after, graph.set? id depth operand = some after ∧
            after.FlatStack id (entries.set depth operand) ∧ graph.SameButStack holder after := by
  obtain ⟨ids, nodes, hNodup, hBound⟩ := linked.exists_stackNodes hLive
  have hLocate (depth fuel : Nat) (hFuel : graph.nodes.size < fuel) :
      graph.locateFrom fuel id depth = graph.locate? id depth :=
    (nodes.locateFrom_eq (by omega) depth).trans (nodes.locateFrom_eq hBound depth).symm
  refine ⟨graph.stacked ids, fun other => nodes.flatStack_iff, hLocate, fun depth operand hDepth => ?_,
    fun depth entry hEntry => ?_⟩
  · have hNone : graph.locate? id depth = none :=
      (nodes.locateFrom_eq hBound depth).trans (nodes.locateFrom_none hDepth)
    simp [peek?, take?, pop?, set?, hNone]
  · obtain ⟨hDepth, _⟩ := List.getElem?_eq_some_iff.mp hEntry
    obtain ⟨address, hEntries, rfl⟩ := nodes.exists_address hNodup hBound hDepth
    rw [← hEntries] at hEntry ⊢
    obtain rfl := Option.some.inj (address.getElem?_entries.symm.trans hEntry)
    exact ⟨address.holder, address.lower.length, address.located, address.getElem?_stack, address.peek?_eq,
      ⟨_, address.take?_eq, address.flatStack_erase, _, rfl⟩, address.pop?_of_single,
      fun hDuplicated => ⟨_, address.pop?_of_duplicated hDuplicated, address.flatStack_set _, _, rfl⟩,
      fun operand => ⟨_, address.set?_eq operand, address.flatStack_set operand, _, rfl⟩⟩

section Fixed

/-- An operand whose copy is not used up yet. -/
def copied : Operand := { Operation.zero with id := 3, duplicated := true }

/-- Two operands are left by the first of three nodes and one by the last. The second has none. -/
def passedOn : List Operation :=
  [.label 0, .append 0, .label 1, .append 1, .label 2, .append 2, .connect 0 1, .connect 1 2, .push 0 Operation.zero,
    .push 0 copied, .push 2 (Operation.jumpTo 0)]

theorem flatStack_exact_passedOn :
    let graph := Operation.run {} passedOn
    Linked graph ∧ (graph.node 2).disposed = false ∧
      graph.FlatStack 2 [Operation.jumpTo 0, copied, Operation.zero] ∧ graph.peek? 2 3 = none ∧
      (∃ after, graph.take? 2 2 = some (Operation.zero, after) ∧ after.FlatStack 2 [Operation.jumpTo 0, copied]) ∧
      ∃ after, graph.pop? 2 1 = some ({ copied with duplicated := false }, after) ∧
        after.FlatStack 2 [Operation.jumpTo 0, { copied with duplicated := false }, Operation.zero] := by
  intro graph
  have linked : Linked graph := (Operation.run_keeps .empty passedOn (by decide)).wellFormed.linked
  have hLive : (graph.node 2).disposed = false := by decide
  have hWhole : graph.FlatStack 2 [Operation.jumpTo 0, copied, Operation.zero] :=
    .above (show graph.stackBelow? 2 = some 1 by decide)
      (.above (show graph.stackBelow? 1 = some 0 by decide) (.bottom (by decide)))
  obtain ⟨entries, hFlat, _, hNone, hSome⟩ := flatStack_exact linked hLive
  obtain rfl := (hFlat _).mp hWhole
  obtain ⟨_, _, _, _, _, ⟨taken, hTaken, hLess, _⟩, _⟩ := hSome 2 Operation.zero rfl
  obtain ⟨_, _, _, _, _, _, _, hPop, _⟩ := hSome 1 copied rfl
  obtain ⟨popped, hPopped, hSingle, _⟩ := hPop rfl
  exact ⟨linked, hLive, hWhole, (hNone 3 copied (by decide)).2.1, ⟨taken, hTaken, hLess⟩, popped, hPopped, hSingle⟩

end Fixed

end Decompiler.Graph
