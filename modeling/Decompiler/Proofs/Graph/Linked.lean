import Decompiler.Proofs.Graph.Mirrored

/-!
The order of appearance and the links between neighbours say the same. A node is spliced into the order or
taken out of it; both mend the links at one place.
-/

namespace Decompiler.Graph

/-- Every node of the order has its neighbours there as `previous` and `next`, and nothing beyond the two
ends. -/
def Chained (order : List NodeId) (previous next : NodeId → Option NodeId) : Prop :=
  ∀ before id after, order = before ++ id :: after → previous id = before.getLast? ∧ next id = after.head?

namespace Chained

variable {order front back : List NodeId} {previous next : NodeId → Option NodeId} {id : NodeId}

theorem congr {newPrevious newNext : NodeId → Option NodeId} (chained : Chained order previous next)
    (hPrevious : ∀ id ∈ order, newPrevious id = previous id)
    (hNext : ∀ id ∈ order, newNext id = next id) : Chained order newPrevious newNext := by
  intro before id after hOrder
  have hId : id ∈ order := by simp [hOrder]
  rw [hPrevious id hId, hNext id hId]
  exact chained before id after hOrder

/-- A node with another one after it is not the last. -/
theorem getLast?_ne {first : NodeId} (hOrder : order = front ++ id :: first :: back) (hNodup : order.Nodup) :
    order.getLast? ≠ some id := by
  intro hLast
  have hMember : id ∈ first :: back := by
    rw [hOrder, List.getLast?_append] at hLast
    exact List.mem_of_getLast? (by simpa [List.getLast?_cons] using hLast)
  rw [hOrder] at hNodup
  exact (List.nodup_cons.mp (List.nodup_append.mp hNodup).2.1).1 hMember

/-- A new node between the front and the back changes the two links that face it. -/
theorem splice (chained : Chained (front ++ back) previous next) (hNodup : (front ++ back).Nodup)
    (hFresh : id ∉ front ++ back) :
    Chained (front ++ id :: back)
      (fun other => if other = id then front.getLast?
        else if back.head? = some other then some id else previous other)
      (fun other => if other = id then back.head?
        else if front.getLast? = some other then some id else next other) := by
  intro before other after hSplit
  have hDisjoint := (List.nodup_append.mp hNodup).2.2
  rcases List.append_eq_append_iff.mp hSplit with ⟨middle, hBefore, hBack⟩ | ⟨middle, hFront, hAfter⟩
  · cases middle with
    | nil =>
        obtain ⟨rfl, rfl⟩ : id = other ∧ back = after := by simpa using hBack
        simp [hBefore]
    | cons head middle =>
        obtain ⟨rfl, rfl⟩ : id = head ∧ back = middle ++ other :: after := by simpa using hBack
        have hOther : other ≠ id := by
          rintro rfl
          simp at hFresh
        have hLast : front.getLast? ≠ some other := fun hLast =>
          hDisjoint other (List.mem_of_getLast? hLast) other (by simp) rfl
        obtain ⟨hPrevious, hNext⟩ := chained (front ++ middle) other after (by simp)
        refine ⟨?_, by simp [hOther, hLast, hNext]⟩
        cases middle with
        | nil => simp [hOther, hBefore]
        | cons first middle =>
            have hFirst : first ≠ other := by
              rintro rfl
              have hBack := (List.nodup_append.mp hNodup).2.1
              simp at hBack
            simp [hOther, hFirst, hPrevious, hBefore, List.getLast?_append, List.getLast?_cons]
  · cases middle with
    | nil =>
        obtain ⟨rfl, rfl⟩ : other = id ∧ after = back := by simpa using hAfter
        simp [hFront]
    | cons head middle =>
        obtain ⟨rfl, rfl⟩ : other = head ∧ after = middle ++ id :: back := by simpa using hAfter
        have hOther : other ≠ id := by
          rintro rfl
          simp [hFront] at hFresh
        have hHead : back.head? ≠ some other := fun hHead =>
          hDisjoint other (by simp [hFront]) other (List.mem_of_head? hHead) rfl
        obtain ⟨hPrevious, hNext⟩ := chained before other (middle ++ back) (by simp [hFront])
        refine ⟨by simp [hOther, hHead, hPrevious], ?_⟩
        cases middle with
        | nil => simp [hOther, hFront]
        | cons first middle =>
            have hLast : front.getLast? ≠ some other :=
              getLast?_ne hFront (List.nodup_append.mp hNodup).1
            simp [hOther, hLast, hNext]

/-- Without a node, the nodes before and after it become neighbours. -/
theorem remove (chained : Chained (front ++ id :: back) previous next)
    (hNodup : (front ++ id :: back).Nodup) :
    Chained (front ++ back)
      (fun other => if back.head? = some other then front.getLast? else previous other)
      (fun other => if front.getLast? = some other then back.head? else next other) := by
  intro before other after hSplit
  have hDisjoint := (List.nodup_append.mp hNodup).2.2
  have hFrontNodup := (List.nodup_append.mp hNodup).1
  have hBackNodup := (List.nodup_cons.mp (List.nodup_append.mp hNodup).2.1).2
  -- A node of the front is the last of it, or has its old neighbours; a node of the back likewise.
  rcases List.append_eq_append_iff.mp hSplit with ⟨middle, hBefore, hBack⟩ | ⟨middle, hFront, hAfter⟩
  · obtain ⟨hPrevious, hNext⟩ := chained (front ++ id :: middle) other after (by simp [hBack])
    have hLast : front.getLast? ≠ some other := fun hLast =>
      hDisjoint other (List.mem_of_getLast? hLast) other (by simp [hBack]) rfl
    refine ⟨?_, by simp [hLast, hNext]⟩
    cases middle with
    | nil => simp [hBefore, hBack]
    | cons first middle =>
        have hFirst : first ≠ other := by
          rintro rfl
          simp [hBack] at hBackNodup
        simp [hBack, hFirst, hPrevious, hBefore, List.getLast?_append, List.getLast?_cons]
  · cases middle with
    | nil =>
        obtain rfl : other :: after = back := by simpa using hAfter
        obtain ⟨hPrevious, hNext⟩ := chained (front ++ [id]) other after (by simp)
        have hLast : front.getLast? ≠ some other := fun hLast =>
          hDisjoint other (List.mem_of_getLast? hLast) other (by simp) rfl
        simp only [List.append_nil] at hFront
        simp [hFront ▸ hLast, hNext, hFront]
    | cons head middle =>
        obtain ⟨rfl, rfl⟩ : other = head ∧ after = middle ++ back := by simpa using hAfter
        obtain ⟨hPrevious, hNext⟩ := chained before other (middle ++ id :: back) (by simp [hFront])
        have hHead : back.head? ≠ some other := fun hHead =>
          hDisjoint other (by simp [hFront]) other (List.mem_cons_of_mem _ (List.mem_of_head? hHead)) rfl
        refine ⟨by simp [hHead, hPrevious], ?_⟩
        cases middle with
        | nil => simp [hFront]
        | cons first middle =>
            have hLast : front.getLast? ≠ some other := getLast?_ne hFront hFrontNodup
            simp [hLast, hNext]

end Chained

/-- The order of appearance lists live nodes of the arena, each once, and the links follow it. A node that
waits for its place has no neighbours. -/
structure Linked (graph : Graph) : Prop where
  nodup : graph.order.Nodup
  lt : ∀ id ∈ graph.order, id < graph.nodes.size
  live : ∀ id ∈ graph.order, (graph.node id).disposed = false
  chained : Chained graph.order (fun id => (graph.node id).previous) (fun id => (graph.node id).next)
  waiting : ∀ id, id ∉ graph.order → (graph.node id).disposed = false →
    (graph.node id).previous = none ∧ (graph.node id).next = none

namespace Linked

variable {graph after : Graph} {front back : List NodeId} {id : NodeId}

theorem congr (linked : Linked graph) (hOrder : after.order = graph.order)
    (hSize : after.nodes.size = graph.nodes.size)
    (hDisposed : ∀ id, (after.node id).disposed = (graph.node id).disposed)
    (hPrevious : ∀ id, (after.node id).previous = (graph.node id).previous)
    (hNext : ∀ id, (after.node id).next = (graph.node id).next) : Linked after where
  nodup := hOrder ▸ linked.nodup
  lt := by simpa only [hOrder, hSize] using linked.lt
  live := by simpa only [hOrder, hDisposed] using linked.live
  chained := by simpa only [hOrder, hPrevious, hNext] using linked.chained
  waiting := by simpa only [hOrder, hDisposed, hPrevious, hNext] using linked.waiting

theorem sameBlocks (linked : Linked graph) (same : SameBlocks graph after) : Linked after :=
  linked.congr same.order same.size (fun id => same.field Node.disposed (fun _ => rfl) id)
    (fun id => same.field Node.previous (fun _ => rfl) id) (fun id => same.field Node.next (fun _ => rfl) id)

/-- A placed node has its neighbours at its two links. -/
theorem previous_next (linked : Linked graph) (hOrder : graph.order = front ++ id :: back) :
    (graph.node id).previous = front.getLast? ∧ (graph.node id).next = back.head? :=
  linked.chained front id back hOrder

/-- The nodes before and after a node in the order are placed too. -/
theorem mem_of_previous (linked : Linked graph) (hId : id ∈ graph.order) {before : NodeId}
    (hBefore : (graph.node id).previous = some before) : before ∈ graph.order := by
  obtain ⟨front, back, hOrder⟩ := List.append_of_mem hId
  rw [(linked.previous_next hOrder).1] at hBefore
  rw [hOrder]
  exact List.mem_append_left _ (List.mem_of_getLast? hBefore)

theorem mem_of_next (linked : Linked graph) (hId : id ∈ graph.order) {next : NodeId}
    (hNext : (graph.node id).next = some next) : next ∈ graph.order := by
  obtain ⟨front, back, hOrder⟩ := List.append_of_mem hId
  rw [(linked.previous_next hOrder).2] at hNext
  rw [hOrder]
  exact List.mem_append_right _ (List.mem_cons_of_mem _ (List.mem_of_head? hNext))

/-- No node is its own neighbour. -/
theorem previous_ne (linked : Linked graph) (hId : id ∈ graph.order) : (graph.node id).previous ≠ some id := by
  obtain ⟨front, back, hOrder⟩ := List.append_of_mem hId
  rw [(linked.previous_next hOrder).1]
  intro hLast
  have hNodup := hOrder ▸ linked.nodup
  exact (List.nodup_append.mp hNodup).2.2 id (List.mem_of_getLast? hLast) id List.mem_cons_self rfl

/-- A node that waits for its place is spliced in, and the two links that face it change. -/
theorem splice (linked : Linked graph) (hOrder : graph.order = front ++ back)
    (hAfter : after.order = front ++ id :: back) (hSize : after.nodes.size = graph.nodes.size)
    (hId : id < graph.nodes.size) (hFresh : id ∉ graph.order) (hLive : (graph.node id).disposed = false)
    (hDisposed : ∀ other, (after.node other).disposed = (graph.node other).disposed)
    (hPrevious : ∀ other < graph.nodes.size, (after.node other).previous = if other = id then front.getLast?
      else if back.head? = some other then some id else (graph.node other).previous)
    (hNext : ∀ other < graph.nodes.size, (after.node other).next = if other = id then back.head?
      else if front.getLast? = some other then some id else (graph.node other).next) : Linked after := by
  have hMember : ∀ other, other ∈ after.order ↔ other = id ∨ other ∈ graph.order := by
    intro other
    simp only [hAfter, hOrder, List.mem_append, List.mem_cons]
    tauto
  have hBound : ∀ other ∈ after.order, other < graph.nodes.size := by
    intro other hOther
    rcases (hMember other).mp hOther with rfl | hOld
    · exact hId
    · exact linked.lt other hOld
  refine ⟨?_, hSize ▸ hBound, ?_, ?_, ?_⟩
  · rw [hAfter]
    exact List.nodup_middle.mpr (List.nodup_cons.mpr ⟨hOrder ▸ hFresh, hOrder ▸ linked.nodup⟩)
  · intro other hOther
    rw [hDisposed]
    rcases (hMember other).mp hOther with rfl | hOld
    · exact hLive
    · exact linked.live other hOld
  · have hSpliced := Chained.splice (hOrder ▸ linked.chained) (hOrder ▸ linked.nodup) (hOrder ▸ hFresh)
    refine hAfter ▸ hSpliced.congr (fun other hOther => ?_) (fun other hOther => ?_)
    · exact hPrevious other (hBound other (hAfter ▸ hOther))
    · exact hNext other (hBound other (hAfter ▸ hOther))
  · intro other hOther hWaiting
    by_cases hArena : other < graph.nodes.size
    swap
    · simp [node_of_size_le (hSize ▸ Nat.not_lt.mp hArena)]
    rw [hDisposed] at hWaiting
    obtain ⟨hNot, hOld⟩ := not_or.mp (mt (hMember other).mpr hOther)
    have hFront : front.getLast? ≠ some other := fun hLast =>
      hOld (hOrder ▸ List.mem_append_left _ (List.mem_of_getLast? hLast))
    have hBack : back.head? ≠ some other := fun hHead =>
      hOld (hOrder ▸ List.mem_append_right _ (List.mem_of_head? hHead))
    simpa [hPrevious other hArena, hNext other hArena, hNot, hFront, hBack] using
      linked.waiting other hOld hWaiting

/-- A placed node is disposed of, and its neighbours are linked to each other. -/
theorem remove (linked : Linked graph) (hOrder : graph.order = front ++ id :: back)
    (hAfter : after.order = front ++ back) (hSize : after.nodes.size = graph.nodes.size)
    (hDisposed : ∀ other, (after.node other).disposed = (decide (other = id) || (graph.node other).disposed))
    (hPrevious : ∀ other < graph.nodes.size, other ≠ id → (after.node other).previous =
      if back.head? = some other then front.getLast? else (graph.node other).previous)
    (hNext : ∀ other < graph.nodes.size, other ≠ id → (after.node other).next =
      if front.getLast? = some other then back.head? else (graph.node other).next) : Linked after := by
  have hNodup := hOrder ▸ linked.nodup
  have hAbsent : id ∉ front ++ back := (List.nodup_middle.mp hNodup |> List.nodup_cons.mp).1
  have hMember : ∀ other, other ∈ after.order ↔ other ≠ id ∧ other ∈ graph.order := by
    intro other
    rw [hAfter, hOrder]
    constructor
    · intro hOther
      exact ⟨fun hSame => hAbsent (hSame ▸ hOther), by simp at hOther ⊢; tauto⟩
    · rintro ⟨hNot, hOther⟩
      simpa [hNot] using hOther
  refine ⟨?_, ?_, ?_, ?_, ?_⟩
  · rw [hAfter]
    exact (List.nodup_middle.mp hNodup |> List.nodup_cons.mp).2
  · intro other hOther
    rw [hSize]
    exact linked.lt other ((hMember other).mp hOther).2
  · intro other hOther
    obtain ⟨hNot, hOld⟩ := (hMember other).mp hOther
    simp [hDisposed, hNot, linked.live other hOld]
  · have hRemoved := Chained.remove (hOrder ▸ linked.chained) hNodup
    refine hAfter ▸ hRemoved.congr (fun other hOther => ?_) (fun other hOther => ?_)
    · obtain ⟨hNot, hOld⟩ := (hMember other).mp (hAfter ▸ hOther)
      exact hPrevious other (linked.lt other hOld) hNot
    · obtain ⟨hNot, hOld⟩ := (hMember other).mp (hAfter ▸ hOther)
      exact hNext other (linked.lt other hOld) hNot
  · intro other hOther hWaiting
    by_cases hArena : other < graph.nodes.size
    swap
    · simp [node_of_size_le (hSize ▸ Nat.not_lt.mp hArena)]
    obtain ⟨hNot, hLive⟩ : other ≠ id ∧ (graph.node other).disposed = false := by
      simpa [hDisposed] using hWaiting
    have hOld : other ∉ graph.order := fun hOld => hOther ((hMember other).mpr ⟨hNot, hOld⟩)
    have hFront : front.getLast? ≠ some other := fun hLast =>
      hOld (hOrder ▸ List.mem_append_left _ (List.mem_of_getLast? hLast))
    have hBack : back.head? ≠ some other := fun hHead =>
      hOld (hOrder ▸ List.mem_append_right _ (List.mem_cons_of_mem _ (List.mem_of_head? hHead)))
    simpa [hPrevious other hArena hNot, hNext other hArena hNot, hFront, hBack] using
      linked.waiting other hOld hLive

end Linked

end Decompiler.Graph
