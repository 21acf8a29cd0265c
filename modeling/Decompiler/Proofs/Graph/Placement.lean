import Decompiler.Proofs.Graph.Linked

/-!
Making nodes and giving them a place. A new node has no edges; being placed between two others changes
links and the order of appearance and nothing else.
-/

namespace Decompiler.Graph

variable {graph : Graph} {front back : List NodeId} {id other : NodeId}

/-! ### New nodes -/

@[simp] theorem allocate_id (graph : Graph) (label : Option Label) (name : String) :
    (graph.allocate label name).1 = graph.nodes.size := rfl

@[simp] theorem size_allocate (graph : Graph) (label : Option Label) (name : String) :
    (graph.allocate label name).2.nodes.size = graph.nodes.size + 1 := by
  simp [allocate]

@[simp] theorem order_allocate (graph : Graph) (label : Option Label) (name : String) :
    (graph.allocate label name).2.order = graph.order := rfl

/-- One node comes behind the others, with a label and a name and nothing else. -/
theorem node_allocate (graph : Graph) (label : Option Label) (name : String) (other : NodeId) :
    (graph.allocate label name).2.node other =
      if other = graph.nodes.size then { label, name } else graph.node other := by
  simp only [allocate, node, Array.getD_eq_getD_getElem?, Array.getElem?_push]
  split <;> simp

/-- A field that every new node leaves empty is the same everywhere. -/
theorem field_allocate {α : Type} (read : Node → α) (label : Option Label) (name : String)
    (hRead : read { label, name } = read {}) :
    read ((graph.allocate label name).2.node other) = read (graph.node other) := by
  rw [node_allocate]
  split
  · next h => rw [hRead, h, node_of_size_le (Nat.le_refl _)]
  · rfl

/-- The name is all that a node without a label has. -/
theorem field_createAnonymous {α : Type} (read : Node → α)
    (hRead : ∀ name, read { name } = read {}) :
    read (graph.createAnonymous.2.node other) = read (graph.node other) :=
  field_allocate read none _ (hRead _)

/-- A new node is not disposed of. -/
theorem live_createAnonymous (graph : Graph) : (graph.createAnonymous.2.node graph.nodes.size).disposed = false :=
  (field_createAnonymous Node.disposed fun _ => rfl).trans (by rw [node_of_size_le (Nat.le_refl _)])

/-- A node without edges upsets none. -/
theorem Mirrored.allocate (mirrored : Mirrored graph) (label : Option Label) (name : String) :
    Mirrored (graph.allocate label name).2 :=
  mirrored.congr fun _ =>
    ⟨field_allocate Node.outgoing label name rfl, field_allocate Node.incoming label name rfl,
      field_allocate Node.backedges label name rfl⟩

/-- A node without a place upsets no links. -/
theorem Linked.allocate (linked : Linked graph) (label : Option Label) (name : String) :
    Linked (graph.allocate label name).2 where
  nodup := linked.nodup
  lt id hId := by
    rw [size_allocate]
    exact Nat.lt_succ_of_lt (linked.lt id hId)
  live id hId := by
    rw [field_allocate Node.disposed label name rfl]
    exact linked.live id hId
  chained := linked.chained.congr (fun _ _ => field_allocate Node.previous label name rfl)
    (fun _ _ => field_allocate Node.next label name rfl)
  waiting id hId hLive := by
    rw [field_allocate Node.disposed label name rfl] at hLive
    rw [field_allocate Node.previous label name rfl, field_allocate Node.next label name rfl]
    exact linked.waiting id hId hLive

/-- The new node has no place yet. -/
theorem Linked.size_not_mem (linked : Linked graph) : graph.nodes.size ∉ graph.order := fun hMember =>
  Nat.lt_irrefl _ (linked.lt _ hMember)

/-! ### Places in the order -/

/-- Inserting at the length of the front puts an item between front and back. -/
theorem insertIdx_front (front back : List NodeId) (id : NodeId) :
    (front ++ back).insertIdx front.length id = front ++ id :: back := by
  induction front with
  | nil => rfl
  | cons head front ih => simp [ih]

/-- In an order without repetition a node is found where it stands. -/
theorem position?_eq (hOrder : graph.order = front ++ id :: back) (hNodup : graph.order.Nodup) :
    graph.position? id = some front.length := by
  rw [hOrder] at hNodup
  have hFront : id ∉ front := fun hMember =>
    (List.nodup_append.mp hNodup).2.2 id hMember id List.mem_cons_self rfl
  rw [position?, hOrder, List.idxOf?_eq_some_iff]
  refine ⟨by simp, by simp, fun place hPlace => ?_⟩
  rw [List.getElem_append_left hPlace]
  exact fun hSame => hFront (hSame ▸ List.getElem_mem hPlace)

/-- A field of a node that links do not concern. -/
def LinkFree {α : Type} (read : Node → α) : Prop :=
  ∀ (node : Node) (previous next : Option NodeId), read { node with previous, next } = read node

/-- Links are all that linking changes. -/
theorem field_link {α : Type} (read : Node → α) (hRead : LinkFree read) (previous next : Option NodeId) :
    read ((graph.link previous next).node other) = read (graph.node other) := by
  by_cases hOther : other < graph.nodes.size
  · rw [node_link _ _ _ _ hOther, hRead]
  · rw [node_of_size_le (by simpa using hOther), node_of_size_le (Nat.not_lt.mp hOther)]

/-- The second of two linked nodes has the first one before it. -/
theorem previous_link (hOther : other < graph.nodes.size) (previous next : Option NodeId) :
    ((graph.link previous next).node other).previous =
      if next = some other then previous else (graph.node other).previous := by
  rw [node_link _ _ _ _ hOther]

/-- The first of two linked nodes has the second one behind it. -/
theorem next_link (hOther : other < graph.nodes.size) (previous next : Option NodeId) :
    ((graph.link previous next).node other).next =
      if previous = some other then next else (graph.node other).next := by
  rw [node_link _ _ _ _ hOther]

/-- The graph with a node between the front and the back of its order. -/
def between (graph : Graph) (front : List NodeId) (id : NodeId) (back : List NodeId) : Graph :=
  (({ graph with order := front ++ id :: back } : Graph).link front.getLast? (some id)).link
    (some id) back.head?

@[simp] theorem order_between (graph : Graph) (front : List NodeId) (id : NodeId) (back : List NodeId) :
    (graph.between front id back).order = front ++ id :: back := by
  simp [between]

@[simp] theorem size_between (graph : Graph) (front : List NodeId) (id : NodeId) (back : List NodeId) :
    (graph.between front id back).nodes.size = graph.nodes.size := by
  simp [between]

@[simp] theorem labels_between (graph : Graph) (front : List NodeId) (id : NodeId) (back : List NodeId) :
    (graph.between front id back).labels = graph.labels := by
  simp [between]

/-- A field that does not concern links is the same in every node. -/
theorem field_between {α : Type} (read : Node → α)
    (hRead : LinkFree read) :
    read ((graph.between front id back).node other) = read (graph.node other) := by
  rw [between, field_link read hRead _ _, field_link read hRead _ _]
  rfl

/-- The new node is linked to the end of the front and the start of the back, which no longer touch. -/
theorem Linked.between (linked : Linked graph) (hOrder : graph.order = front ++ back)
    (hId : id < graph.nodes.size) (hFresh : id ∉ graph.order) (hLive : (graph.node id).disposed = false) :
    Linked (graph.between front id back) := by
  have hHead : back.head? ≠ some id := fun hHead =>
    hFresh (hOrder ▸ List.mem_append_right _ (List.mem_of_head? hHead))
  refine linked.splice hOrder (by simp) (by simp) hId hFresh hLive
    (fun _ => field_between Node.disposed (fun _ _ _ => rfl)) ?_ ?_
  · intro other hOther
    rw [Graph.between, previous_link (by simpa using hOther), previous_link (by simpa using hOther)]
    by_cases hSame : other = id
    · subst other
      simp [hHead]
    · simp [hSame, Ne.symm hSame]
      rfl
  · intro other hOther
    rw [Graph.between, next_link (by simpa using hOther), next_link (by simpa using hOther)]
    by_cases hSame : other = id
    · simp [hSame]
    · simp [hSame, Ne.symm hSame]
      rfl

/-- A place adds no edge. -/
theorem Mirrored.between (mirrored : Mirrored graph) : Mirrored (graph.between front id back) :=
  mirrored.congr fun _ =>
    ⟨field_between Node.outgoing (fun _ _ _ => rfl), field_between Node.incoming (fun _ _ _ => rfl),
      field_between Node.backedges (fun _ _ _ => rfl)⟩

/-- A new node is placed between two parts of the order. -/
theorem Linked.create (linked : Linked graph) (hOrder : graph.order = front ++ back) :
    Linked (graph.createAnonymous.2.between front graph.nodes.size back) :=
  (linked.allocate none _).between hOrder (size_allocate graph _ _ ▸ Nat.lt_succ_self _) linked.size_not_mem
    (live_createAnonymous graph)

/-- Inserting after a node places a new node there. -/
theorem insertAfter_eq (linked : Linked graph) (hOrder : graph.order = front ++ id :: back) :
    graph.insertAfter id =
      (graph.nodes.size, graph.createAnonymous.2.between (front ++ [id]) graph.nodes.size back) := by
  have hNext : (graph.createAnonymous.2.node id).next = back.head? :=
    (field_createAnonymous Node.next (fun _ => rfl)).trans (linked.previous_next hOrder).2
  have hPosition : graph.createAnonymous.2.position? id = some front.length :=
    position?_eq hOrder linked.nodup
  have hSplit : graph.createAnonymous.2.order.insertIdx (front.length + 1) graph.nodes.size =
      (front ++ [id]) ++ graph.nodes.size :: back := by
    have hInsert := insertIdx_front (front ++ [id]) back graph.nodes.size
    rw [List.length_append, List.length_singleton, List.append_assoc, List.singleton_append,
      ← hOrder] at hInsert
    exact hInsert
  unfold insertAfter
  simp only [hNext, hPosition, Option.elim_some]
  rw [show graph.createAnonymous.1 = graph.nodes.size from rfl, hSplit, Graph.between, List.getLast?_concat]

/-- A field that does not concern links is the same in every node of before, and empty in the new one. -/
theorem field_insertAfter {α : Type} (read : Node → α) (hLinks : LinkFree read)
    (hRead : ∀ name, read { name } = read {}) :
    read ((graph.insertAfter id).2.node other) = read (graph.node other) := by
  simp only [insertAfter, field_link read hLinks]
  exact field_createAnonymous read hRead

/-- The number of the new node, and where nodes are afterwards. -/
theorem insertAfter_frame (graph : Graph) (id : NodeId) :
    (graph.insertAfter id).1 = graph.nodes.size ∧
      (graph.insertAfter id).2.nodes.size = graph.nodes.size + 1 ∧
      ∀ other, other ∈ (graph.insertAfter id).2.order ↔ other = graph.nodes.size ∨ other ∈ graph.order := by
  refine ⟨rfl, by simp [insertAfter, createAnonymous], fun other => ?_⟩
  have hPlace : (graph.createAnonymous.2.position? id).elim graph.order.length (· + 1) ≤ graph.order.length := by
    cases hPosition : graph.createAnonymous.2.position? id with
    | none => exact Nat.le_refl _
    | some place => exact (List.idxOf?_eq_some_iff.mp hPosition).1
  simp only [insertAfter, order_link]
  exact List.mem_insertIdx hPlace

/-- Inserting before a node places a new node there. -/
theorem insertBefore_eq (linked : Linked graph) (hOrder : graph.order = front ++ id :: back) :
    graph.insertBefore id =
      (graph.nodes.size, graph.createAnonymous.2.between front graph.nodes.size (id :: back)) := by
  have hPrevious : (graph.createAnonymous.2.node id).previous = front.getLast? :=
    (field_createAnonymous Node.previous (fun _ => rfl)).trans (linked.previous_next hOrder).1
  have hPosition : graph.createAnonymous.2.position? id = some front.length :=
    position?_eq hOrder linked.nodup
  have hSplit : graph.createAnonymous.2.order.insertIdx front.length graph.nodes.size =
      front ++ graph.nodes.size :: id :: back := by
    have hInsert := insertIdx_front front (id :: back) graph.nodes.size
    rw [← hOrder] at hInsert
    exact hInsert
  unfold insertBefore
  simp only [hPrevious, hPosition, Option.getD_some]
  rw [show graph.createAnonymous.1 = graph.nodes.size from rfl, hSplit, Graph.between, List.head?_cons]

@[simp] theorem size_insertBefore (graph : Graph) (id : NodeId) :
    (graph.insertBefore id).2.nodes.size = graph.nodes.size + 1 := by
  simp [insertBefore, createAnonymous]

/-- A field that does not concern links is the same in every node of before, and empty in the new one. -/
theorem field_insertBefore {α : Type} (read : Node → α) (hLinks : LinkFree read)
    (hRead : ∀ name, read { name } = read {}) :
    read ((graph.insertBefore id).2.node other) = read (graph.node other) := by
  unfold insertBefore
  exact ((field_link read hLinks _ _).trans (field_link read hLinks _ _)).trans (field_createAnonymous read hRead)

/-- Links apart, the nodes of before are the same. -/
theorem field_insertBefore_of_ne {α : Type} (read : Node → α) (hLinks : LinkFree read)
    (hOld : other ≠ graph.nodes.size) : read ((graph.insertBefore id).2.node other) = read (graph.node other) := by
  have hKept : graph.createAnonymous.2.node other = graph.node other := (node_allocate _ _ _ _).trans (if_neg hOld)
  unfold insertBefore
  exact ((field_link read hLinks _ _).trans (field_link read hLinks _ _)).trans (congrArg read hKept)

/-- The new node is put somewhere in the order. -/
theorem order_insertBefore (graph : Graph) (id : NodeId) :
    ∃ front back, graph.order = front ++ back ∧
      (graph.insertBefore id).2.order = front ++ graph.nodes.size :: back := by
  have hPlace : (graph.createAnonymous.2.position? id).getD 0 ≤ graph.order.length := by
    cases hPosition : graph.createAnonymous.2.position? id with
    | none => exact Nat.zero_le _
    | some place => exact Nat.le_of_lt (List.idxOf?_eq_some_iff.mp hPosition).1
  have hOrder : (graph.insertBefore id).2.order =
      graph.order.insertIdx ((graph.createAnonymous.2.position? id).getD 0) graph.nodes.size := by
    simp only [insertBefore, order_link]
    rfl
  generalize (graph.createAnonymous.2.position? id).getD 0 = place at hPlace hOrder
  have hInsert := insertIdx_front (graph.order.take place) (graph.order.drop place) graph.nodes.size
  rw [List.take_append_drop, List.length_take_of_le hPlace, ← hOrder] at hInsert
  exact ⟨_, _, (List.take_append_drop place graph.order).symm, hInsert⟩

/-- Appending changes links and the order only. -/
theorem field_append {α : Type} (read : Node → α)
    (hRead : LinkFree read) :
    read ((graph.append id).node other) = read (graph.node other) := by
  unfold append
  cases graph.order.getLast? with
  | none => rfl
  | some last => exact field_link read hRead (some last) (some id)

@[simp] theorem order_append (graph : Graph) (id : NodeId) : (graph.append id).order = graph.order ++ [id] := by
  unfold append
  split <;> simp

@[simp] theorem size_append (graph : Graph) (id : NodeId) :
    (graph.append id).nodes.size = graph.nodes.size := by
  unfold append
  split <;> simp

@[simp] theorem labels_append (graph : Graph) (id : NodeId) : (graph.append id).labels = graph.labels := by
  unfold append
  split <;> simp

/-- A place at the end adds no edge. -/
theorem Mirrored.append (mirrored : Mirrored graph) : Mirrored (graph.append id) :=
  mirrored.congr fun _ =>
    ⟨field_append Node.outgoing (fun _ _ _ => rfl), field_append Node.incoming (fun _ _ _ => rfl),
      field_append Node.backedges (fun _ _ _ => rfl)⟩

/-- Appending places a waiting node at the end. -/
theorem Linked.append (linked : Linked graph) (hId : id < graph.nodes.size) (hFresh : id ∉ graph.order)
    (hLive : (graph.node id).disposed = false) : Linked (graph.append id) := by
  obtain ⟨hNoPrevious, hNoNext⟩ := linked.waiting id hFresh hLive
  refine linked.splice (List.append_nil _).symm (order_append _ _) (size_append _ _) hId hFresh hLive
    (fun _ => field_append Node.disposed (fun _ _ _ => rfl)) ?_ ?_
  · intro other hOther
    unfold Graph.append
    cases graph.order.getLast? with
    | none =>
        change (graph.node other).previous = _
        by_cases hSame : other = id <;> simp [hSame, hNoPrevious]
    | some last =>
        refine (previous_link hOther (some last) (some id)).trans ?_
        simp [eq_comm]
  · intro other hOther
    unfold Graph.append
    cases hLast : graph.order.getLast? with
    | none =>
        change (graph.node other).next = _
        by_cases hSame : other = id <;> simp [hSame, hNoNext]
    | some last =>
        refine (next_link hOther (some last) (some id)).trans ?_
        by_cases hSame : other = id
        · subst other
          have hNot : last ≠ id := fun hEq => hFresh (hEq ▸ List.mem_of_getLast? hLast)
          simp [hNoNext, hNot]
        · simp [hSame]

end Decompiler.Graph
