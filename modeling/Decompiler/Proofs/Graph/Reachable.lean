import Decompiler.Proofs.Graph.Mirrored
import Mathlib.Algebra.BigOperators.Fin
import Mathlib.Algebra.Order.BigOperators.Group.Finset
import Mathlib.Logic.Relation

/-!
What can be reached along edges. A search closes every node once, so the number of its steps is bounded by the nodes
that it has not closed and the edges that leave them. The breadth-first search from a node finds the goal if there is a
way to it on which every node before the goal is outside the exclusions.
-/

namespace Decompiler.Graph

open Relation

variable {graph after : Graph} {id current source goal : NodeId} {closed waiting exclusions : List NodeId}

/-! ### The work of a search -/

/-- The steps that a search may still take for nodes that it has not closed, one for every such node and one for every
edge that leaves it. -/
def openWork (graph : Graph) (closed : List NodeId) : Nat :=
  ∑ id ∈ Finset.range graph.nodes.size with id ∉ closed, ((graph.node id).outgoing.length + 1)

/-- Edges are all that matters. -/
theorem openWork_congr (hSize : after.nodes.size = graph.nodes.size)
    (hOutgoing : ∀ id, (after.node id).outgoing = (graph.node id).outgoing) (closed : List NodeId) :
    after.openWork closed = graph.openWork closed := by
  simp only [openWork, hSize, hOutgoing]

/-- The bound on a search leaves room for all its work. -/
theorem searchBound_eq (graph : Graph) : graph.searchBound = graph.openWork [] + 2 := by
  have hSum (nodes : List Node) (bound : Nat) :
      nodes.foldl (fun bound node => bound + node.outgoing.length + 1) bound =
        (nodes.map fun node => node.outgoing.length + 1).sum + bound := by
    induction nodes generalizing bound with
    | nil => simp
    | cons node rest ih =>
        rw [List.foldl_cons, ih, List.map_cons, List.sum_cons]
        omega
  have hNodes : graph.nodes.toList.map (fun node => node.outgoing.length + 1) =
      List.ofFn fun id : Fin graph.nodes.size => (graph.node id).outgoing.length + 1 := by
    refine List.ext_getElem (by simp) fun place hPlace _ => ?_
    rw [List.length_map, Array.length_toList] at hPlace
    simp [node, Array.getD_eq_getD_getElem?]
  rw [searchBound, ← Array.foldl_toList, hSum, hNodes, List.sum_ofFn,
    Fin.sum_univ_eq_sum_range fun id => (graph.node id).outgoing.length + 1]
  simp [openWork]

/-- The more is closed, the less is left to do. -/
theorem openWork_le {more : List NodeId} (hMore : closed ⊆ more) : graph.openWork more ≤ graph.openWork closed := by
  refine Finset.sum_le_sum_of_subset (fun id hId => ?_)
  simp only [Finset.mem_filter] at hId ⊢
  exact ⟨hId.1, fun hClosed => hId.2 (hMore hClosed)⟩

/-- A node of the arena takes its own work with it when it is closed. -/
theorem openWork_close (hId : id < graph.nodes.size) (hOpen : id ∉ closed) :
    graph.openWork (id :: closed) + (graph.node id).outgoing.length + 1 = graph.openWork closed := by
  have hMember : id ∈ (Finset.range graph.nodes.size).filter (· ∉ closed) := by
    simpa [hOpen] using hId
  have hErase : (Finset.range graph.nodes.size).filter (· ∉ id :: closed) =
      ((Finset.range graph.nodes.size).filter (· ∉ closed)).erase id := by
    ext other
    simp only [Finset.mem_filter, Finset.mem_erase, List.mem_cons, not_or]
    tauto
  have hSum := Finset.add_sum_erase _ (fun id => (graph.node id).outgoing.length + 1) hMember
  rw [openWork, hErase, openWork]
  omega

/-- No edge leaves what is no node, so there its work is none. -/
theorem openWork_close_le (hOpen : id ∉ closed) :
    graph.openWork (id :: closed) + (graph.node id).outgoing.length ≤ graph.openWork closed := by
  by_cases hId : id < graph.nodes.size
  · have hClose := openWork_close hId hOpen
    omega
  · rw [node_of_size_le (Nat.not_lt.mp hId)]
    exact openWork_le (List.subset_cons_self _ _)

/-! ### Ways -/

/-- An edge leads from a node outside the closed ones to the other node. -/
def Passage (graph : Graph) (closed : List NodeId) (source target : NodeId) : Prop :=
  source ∉ closed ∧ graph.Edge source target

/-- A way along edges on which every node before the last is outside the closed ones. -/
def Reaches (graph : Graph) (closed : List NodeId) : NodeId → NodeId → Prop :=
  ReflTransGen (graph.Passage closed)

namespace Reaches

/-- No way leads on from a closed node. -/
theorem eq_of_closed (way : graph.Reaches closed source goal) (hClosed : source ∈ closed) : source = goal := by
  rcases ReflTransGen.cases_head way with hSame | ⟨_, hFirst, _⟩
  · exact hSame
  · exact absurd hClosed hFirst.1

theorem of_more (way : graph.Reaches (current :: closed) source goal) : graph.Reaches closed source goal :=
  ReflTransGen.mono (fun _ _ passage => ⟨fun hClosed => passage.1 (List.mem_cons_of_mem _ hClosed), passage.2⟩) _ _ way

/-- A way past a node either does without it or goes on from its last visit there. -/
theorem avoid (current : NodeId) (way : graph.Reaches closed source goal) :
    graph.Reaches (current :: closed) source goal ∨
      ∃ next, graph.Edge current next ∧ graph.Reaches (current :: closed) next goal := by
  induction way using ReflTransGen.head_induction_on with
  | refl => exact .inl .refl
  | @head first second passage _ ih =>
      rcases ih with hRest | hLater
      · by_cases hFirst : first = current
        · exact .inr ⟨second, hFirst ▸ passage.2, hRest⟩
        · refine .inl (ReflTransGen.head ⟨fun hClosed => ?_, passage.2⟩ hRest)
          exact (List.mem_cons.mp hClosed).elim hFirst passage.1
      · exact .inr hLater

end Reaches

/-- To go on from a node that is not closed is to go on from its successors without coming back to it. -/
theorem reaches_expand (hOpen : current ∉ closed) (hGoal : current ≠ goal) :
    (∃ id ∈ waiting ++ (graph.node current).outgoing, graph.Reaches (current :: closed) id goal) ↔
      ∃ id ∈ current :: waiting, graph.Reaches closed id goal := by
  constructor
  · rintro ⟨id, hId, way⟩
    rcases List.mem_append.mp hId with hWaiting | hNext
    · exact ⟨id, List.mem_cons_of_mem _ hWaiting, way.of_more⟩
    · exact ⟨current, List.mem_cons_self, ReflTransGen.head ⟨hOpen, hNext⟩ way.of_more⟩
  · rintro ⟨id, hId, way⟩
    rcases way.avoid current with hAround | ⟨next, hNext, hRest⟩
    · rcases List.mem_cons.mp hId with rfl | hWaiting
      · exact absurd (hAround.eq_of_closed List.mem_cons_self) hGoal
      · exact ⟨id, List.mem_append_left _ hWaiting, hAround⟩
    · exact ⟨next, List.mem_append_right _ hNext, hRest⟩

/-! ### The breadth-first search -/

/-- With steps left for all its work, a search finds the goal if it is reached from a waiting node. -/
theorem search_iff (goal : NodeId) (fuel : Nat) (waiting closed : List NodeId)
    (hFuel : waiting.length + graph.openWork closed < fuel) :
    graph.search goal fuel waiting closed = true ↔ ∃ id ∈ waiting, graph.Reaches closed id goal := by
  induction fuel generalizing waiting closed with
  | zero => exact absurd hFuel (Nat.not_lt_zero _)
  | succ fuel ih =>
      cases waiting with
      | nil => simp [search]
      | cons current waiting =>
          rw [List.length_cons] at hFuel
          rw [search]
          split
          · next hGoal => simpa using .inl (hGoal ▸ ReflTransGen.refl)
          · next hGoal =>
              split
              · next hClosed =>
                  have hBlocked : ¬graph.Reaches closed current goal := fun way =>
                    hGoal (way.eq_of_closed (by simpa using hClosed))
                  rw [ih waiting closed (by omega)]
                  simp [hBlocked]
              · next hClosed =>
                  have hOpen : current ∉ closed := by simpa using hClosed
                  have hWork : graph.openWork (current :: closed) + (graph.node current).outgoing.length ≤
                      graph.openWork closed := openWork_close_le hOpen
                  rw [ih _ _ (by rw [List.length_append]; omega), reaches_expand hOpen hGoal]

/-- The search for the goal ends with the right answer in every graph, whatever cycles it has. The goal is found also if
it is excluded itself, and at once if the search begins there. -/
theorem canReach_iff (graph : Graph) (source goal : NodeId) (exclusions : List NodeId) :
    graph.canReach source goal exclusions = true ↔ graph.Reaches exclusions source goal := by
  have hWork : graph.openWork exclusions ≤ graph.openWork [] := openWork_le (List.nil_subset _)
  have hFuel : [source].length + graph.openWork exclusions < graph.searchBound := by
    rw [searchBound_eq, List.length_singleton]
    omega
  rw [canReach, search_iff goal _ _ _ hFuel]
  simp

end Decompiler.Graph
