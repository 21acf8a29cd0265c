import Decompiler.Proofs.Graph.DepthFirst
import Decompiler.Proofs.Graph.Operation
import Decompiler.Proofs.Graph.Reachable

/-!
The marks of back-edges are right. The depth-first search keeps a path of nodes; an edge that it follows is marked if it
leads back to the path. A node that leaves the path has only marked edges and edges to nodes that left it before, so
unmarked edges close no cycle. The nodes on the path lead to each other along edges that stay unmarked, so every marked
edge closes a cycle with unmarked ones.
-/

namespace Decompiler.Graph

open Relation

variable {graph after : Graph} {id source target : NodeId}

/-- The edge is there, and it is not marked as a back-edge. -/
def Unmarked (graph : Graph) (source target : NodeId) : Prop :=
  graph.Edge source target ∧ source ∉ (graph.node target).backedges

namespace DepthFirst

variable {search later : DepthFirst} {rest : List NodeId} {outer : List (NodeId × List NodeId)}

/-- The search has entered the first node, and an edge from there to the second is still to follow. -/
def Pending (search : DepthFirst) (source target : NodeId) : Prop :=
  ∃ rest, (source, rest) ∈ search.path ∧ target ∈ rest

theorem Pending.of_follow (hPath : search.path = (id, target :: rest) :: outer) {a b : NodeId}
    (pending : Pending { search with path := (id, rest) :: outer } a b) : search.Pending a b := by
  obtain ⟨others, hMember, hTarget⟩ := pending
  rcases List.mem_cons.mp hMember with hSame | hOuter
  · obtain ⟨rfl, rfl⟩ := Prod.mk.inj hSame
    exact ⟨target :: others, hPath ▸ List.mem_cons_self, List.mem_cons_of_mem _ hTarget⟩
  · exact ⟨others, hPath ▸ List.mem_cons_of_mem _ hOuter, hTarget⟩

theorem Pending.of_enter {a b : NodeId} (pending : (search.enter target).Pending a b) :
    search.Pending a b ∨ a = target := by
  obtain ⟨others, hMember, hTarget⟩ := pending
  rcases List.mem_cons.mp hMember with hSame | hOuter
  · exact .inr (Prod.mk.inj hSame).1
  · exact .inl ⟨others, hOuter, hTarget⟩

/-! ### The shape of a search -/

/-- A search through the edges of a graph. The path is free of repetition, the edges to follow are the last ones of
their nodes, and marks are on edges to nodes that the search has entered. -/
structure Tracks (graph : Graph) (search : DepthFirst) : Prop where
  size : search.graph.nodes.size = graph.nodes.size
  outgoing : ∀ id, (search.graph.node id).outgoing = (graph.node id).outgoing
  remaining : ∀ id rest, (id, rest) ∈ search.path → rest <:+ (graph.node id).outgoing
  nodup : search.onPath.Nodup
  entered : search.onPath ⊆ search.entered
  marked : ∀ source target, source ∈ (search.graph.node target).backedges →
    graph.Edge source target ∧ target ∈ search.entered

namespace Tracks

theorem edge_iff (tracks : Tracks graph search) : search.graph.Edge source target ↔ graph.Edge source target := by
  rw [Edge, Edge, tracks.outgoing]

/-- The edge to follow next is an edge, and it is followed once. -/
theorem next_edge (tracks : Tracks graph search) (mirrored : Mirrored graph)
    (hPath : search.path = (id, target :: rest) :: outer) : graph.Edge id target ∧ target ∉ rest := by
  have hSuffix := tracks.remaining id (target :: rest) (hPath ▸ List.mem_cons_self)
  exact ⟨hSuffix.subset List.mem_cons_self,
    (List.nodup_cons.mp ((mirrored.outgoing_nodup id).sublist hSuffix.sublist)).1⟩

theorem follow (tracks : Tracks graph search) (hPath : search.path = (id, target :: rest) :: outer) :
    Tracks graph { search with path := (id, rest) :: outer } where
  size := tracks.size
  outgoing := tracks.outgoing
  remaining other others hMember := by
    rcases List.mem_cons.mp hMember with hSame | hOuter
    · obtain ⟨rfl, rfl⟩ := Prod.mk.inj hSame
      exact (List.suffix_cons _ _).trans (tracks.remaining _ _ (hPath ▸ List.mem_cons_self))
    · exact tracks.remaining other others (hPath ▸ List.mem_cons_of_mem _ hOuter)
  nodup := by simpa [onPath, hPath] using tracks.nodup
  entered := by simpa [onPath, hPath] using tracks.entered
  marked := tracks.marked

theorem enter (tracks : Tracks graph search) (hFresh : target ∉ search.entered) :
    Tracks graph (search.enter target) where
  size := tracks.size
  outgoing := tracks.outgoing
  remaining other others hMember := by
    rcases List.mem_cons.mp hMember with hNew | hOld
    · obtain ⟨rfl, rfl⟩ := Prod.mk.inj hNew
      rw [tracks.outgoing]
    · exact tracks.remaining other others hOld
  nodup := List.nodup_cons.mpr ⟨fun hOnPath => hFresh (tracks.entered hOnPath), tracks.nodup⟩
  entered := List.cons_subset_cons _ tracks.entered
  marked source target hBack :=
    ⟨(tracks.marked source target hBack).1, List.mem_cons_of_mem _ (tracks.marked source target hBack).2⟩

theorem move (tracks : Tracks graph search) (mirrored : Mirrored graph) (moves : search.Moves later) :
    Tracks graph later := by
  cases moves with
  | start _ hFresh => exact tracks.enter hFresh
  | leave hPath =>
      have hNodup := tracks.nodup
      have hEntered := tracks.entered
      rw [onPath, hPath, List.map_cons] at hNodup hEntered
      exact ⟨tracks.size, tracks.outgoing,
        fun id rest hMember => tracks.remaining id rest (hPath ▸ List.mem_cons_of_mem _ hMember),
        (List.nodup_cons.mp hNodup).2, (List.cons_subset.mp hEntered).2, tracks.marked⟩
  | mark hPath hBack =>
      obtain ⟨hEdge, _⟩ := tracks.next_edge mirrored hPath
      have hFollowed := tracks.follow hPath
      refine ⟨by simpa using tracks.size, fun id => by simpa using tracks.outgoing id, hFollowed.remaining,
        hFollowed.nodup, hFollowed.entered, fun a b hMarked => ?_⟩
      rw [mem_backedges_mark (tracks.size ▸ (mirrored.edge_lt hEdge).2)] at hMarked
      rcases hMarked with hOld | ⟨rfl, rfl⟩
      · exact tracks.marked a b hOld
      · exact ⟨hEdge, tracks.entered hBack⟩
  | pass hPath => exact tracks.follow hPath
  | enter hPath hFresh => exact (tracks.follow hPath).enter hFresh

/-- Only the edge that is followed next may get a mark. -/
theorem marked_move (tracks : Tracks graph search) (mirrored : Mirrored graph) (moves : search.Moves later)
    (hMarked : source ∈ (later.graph.node target).backedges) :
    source ∈ (search.graph.node target).backedges ∨ (search.Pending source target ∧ target ∈ search.onPath ∧
      search.onPath.head? = some source) := by
  cases moves with
  | start | leave | pass | enter => exact .inl hMarked
  | @mark id next rest outer hPath hBack =>
      obtain ⟨hEdge, _⟩ := tracks.next_edge mirrored hPath
      rw [mem_backedges_mark (tracks.size ▸ (mirrored.edge_lt hEdge).2)] at hMarked
      refine hMarked.imp_right ?_
      rintro ⟨rfl, rfl⟩
      exact ⟨⟨_, hPath ▸ List.mem_cons_self, List.mem_cons_self⟩, hBack, by simp [onPath, hPath]⟩

/-- Marks stay. -/
theorem mark_stays (tracks : Tracks graph search) (mirrored : Mirrored graph) (moves : search.Moves later)
    (hMarked : source ∈ (search.graph.node target).backedges) : source ∈ (later.graph.node target).backedges := by
  cases moves with
  | start | leave | pass | enter => exact hMarked
  | mark hPath =>
      obtain ⟨hEdge, _⟩ := tracks.next_edge mirrored hPath
      exact (mem_backedges_mark (tracks.size ▸ (mirrored.edge_lt hEdge).2)).mpr (.inl hMarked)

end Tracks

theorem entered_subset_move (moves : search.Moves later) : search.entered ⊆ later.entered := by
  cases moves with
  | start | enter => exact List.subset_cons_self _ _
  | leave | mark | pass => exact List.Subset.refl _

/-! ### Marked edges close cycles -/

/-- The edge was followed without a mark. It never gets one. -/
structure Taken (search : DepthFirst) (source target : NodeId) : Prop where
  unmarked : search.graph.Unmarked source target
  entered : source ∈ search.entered
  followed : ¬search.Pending source target

theorem Taken.move (taken : search.Taken source target) (tracks : Tracks graph search) (mirrored : Mirrored graph)
    (moves : search.Moves later) : later.Taken source target where
  unmarked := by
    have hEdge := tracks.edge_iff.mp taken.unmarked.1
    refine ⟨(tracks.move mirrored moves).edge_iff.mpr hEdge, fun hMarked => ?_⟩
    rcases tracks.marked_move mirrored moves hMarked with hOld | ⟨hPending, _⟩
    · exact taken.unmarked.2 hOld
    · exact taken.followed hPending
  entered := entered_subset_move moves taken.entered
  followed := by
    intro hPending
    cases moves with
    | start _ hFresh =>
        rcases hPending.of_enter with hOld | rfl
        · exact taken.followed hOld
        · exact hFresh taken.entered
    | leave hPath =>
        obtain ⟨rest, hMember, hTarget⟩ := hPending
        exact taken.followed ⟨rest, hPath ▸ List.mem_cons_of_mem _ hMember, hTarget⟩
    | mark hPath => exact taken.followed (.of_follow hPath hPending)
    | pass hPath => exact taken.followed (.of_follow hPath hPending)
    | enter hPath hFresh =>
        rcases hPending.of_enter with hOld | rfl
        · exact taken.followed (.of_follow hPath hOld)
        · exact hFresh taken.entered

/-- The edge to a node that the search enters is taken. -/
theorem taken_enter (tracks : Tracks graph search) (mirrored : Mirrored graph)
    (hPath : search.path = (id, target :: rest) :: outer) (hFresh : target ∉ search.entered) :
    (({ search with path := (id, rest) :: outer } : DepthFirst).enter target).Taken id target := by
  obtain ⟨hEdge, hOnce⟩ := tracks.next_edge mirrored hPath
  have hId : id ∈ search.entered := tracks.entered (by simp [onPath, hPath])
  refine ⟨⟨tracks.edge_iff.mpr hEdge, fun hMarked => hFresh (tracks.marked id target hMarked).2⟩,
    List.mem_cons_of_mem _ hId, fun hPending => ?_⟩
  rcases hPending.of_enter with ⟨others, hMember, hTarget⟩ | rfl
  · rcases List.mem_cons.mp hMember with hSame | hOuter
    · obtain ⟨_, rfl⟩ := Prod.mk.inj hSame
      exact hOnce hTarget
    · have hNodup := tracks.nodup
      rw [onPath, hPath, List.map_cons] at hNodup
      exact (List.nodup_cons.mp hNodup).1 (List.mem_map.mpr ⟨_, hOuter, rfl⟩)
  · exact hFresh hId

/-- Every node on the path was entered from the one before it, and every marked edge closes a cycle with edges that were
taken. -/
structure Closes (search : DepthFirst) : Prop where
  descends : search.onPath.IsChain fun inner outer => search.Taken outer inner
  closes : ∀ source target, source ∈ (search.graph.node target).backedges → ReflTransGen search.Taken target source

/-- Along a chain each item leads up to the first one. -/
theorem way_to_head {edge : NodeId → NodeId → Prop} {first : NodeId} {others : List NodeId}
    (chain : (first :: others).IsChain fun inner outer => edge outer inner) (hId : id ∈ first :: others) :
    ReflTransGen edge id first := by
  induction others generalizing first with
  | nil => exact List.mem_singleton.mp hId ▸ .refl
  | cons second others ih =>
      obtain ⟨hEdge, hRest⟩ := List.isChain_cons_cons.mp chain
      rcases List.mem_cons.mp hId with rfl | hLater
      · exact .refl
      · exact (ih hRest hLater).tail hEdge

theorem Closes.move (closes : Closes search) (tracks : Tracks graph search) (mirrored : Mirrored graph)
    (moves : search.Moves later) : Closes later where
  descends := by
    have hTaken := closes.descends.imp fun inner outer taken => Taken.move taken tracks mirrored moves
    cases moves with
    | start hPath => simp [onPath, enter, hPath]
    | leave hPath =>
        rw [onPath, hPath, List.map_cons] at hTaken
        exact hTaken.tail
    | mark hPath => simpa [onPath, hPath] using hTaken
    | pass hPath => simpa [onPath, hPath] using hTaken
    | enter hPath hFresh =>
        rw [onPath, hPath, List.map_cons] at hTaken
        exact List.isChain_cons_cons.mpr ⟨taken_enter tracks mirrored hPath hFresh, hTaken⟩
  closes source target hMarked := by
    -- A new mark is on an edge from the head of the path back to the path, and all of the path leads to its head.
    have hWay : ReflTransGen search.Taken target source := by
      rcases tracks.marked_move mirrored moves hMarked with hOld | ⟨_, hBack, hHead⟩
      · exact closes.closes source target hOld
      · obtain ⟨others, hOnPath⟩ := List.head?_eq_some_iff.mp hHead
        have hDescends := closes.descends
        rw [hOnPath] at hDescends hBack
        exact way_to_head hDescends hBack
    exact ReflTransGen.mono (fun _ _ taken => Taken.move taken tracks mirrored moves) _ _ hWay

/-! ### Unmarked edges close no cycle -/

/-- An edge of a node on the path is still to follow, or it is marked, or it leads to a node that was entered and does
not lie on the path up to its source. -/
def Accounted (search : DepthFirst) (rest : List NodeId) (outer : List (NodeId × List NodeId))
    (source target : NodeId) : Prop :=
  target ∈ rest ∨ source ∈ (search.graph.node target).backedges ∨
    (target ∈ search.entered ∧ target ∉ source :: outer.map Prod.fst)

theorem Accounted.move (accounted : search.Accounted rest outer source target) (tracks : Tracks graph search)
    (mirrored : Mirrored graph) (moves : search.Moves later) : later.Accounted rest outer source target := by
  rcases accounted with hRest | hMarked | ⟨hEntered, hOff⟩
  · exact .inl hRest
  · exact .inr (.inl (tracks.mark_stays mirrored moves hMarked))
  · exact .inr (.inr ⟨entered_subset_move moves hEntered, hOff⟩)

/-- From the node all ways along unmarked edges come to an end. -/
def Ends (graph : Graph) (id : NodeId) : Prop := Acc (fun target source => graph.Unmarked source target) id

theorem Ends.not_cycle (ends : Ends graph id) : ¬TransGen graph.Unmarked id id := by
  induction ends with
  | intro id _ ih =>
      intro cycle
      obtain ⟨next, hFirst, hRest⟩ := TransGen.head'_iff.mp cycle
      exact ih next hFirst (TransGen.tail' hRest hFirst)

/-- Every edge of a node on the path is accounted for, and from the nodes that were left all ways come to an end. -/
structure Explores (graph : Graph) (search : DepthFirst) : Prop where
  explored : ∀ id rest outer, (id, rest) :: outer <:+ search.path →
    ∀ target, graph.Edge id target → search.Accounted rest outer id target
  left : ∀ id ∈ search.entered, id ∉ search.onPath → Ends search.graph id

namespace Explores

/-- An edge is followed. It is accounted for in another way then, and the nodes further out are as before. -/
theorem follow (explores : Explores graph search) (tracks : Tracks graph search) (mirrored : Mirrored graph)
    (moves : search.Moves later) {next : NodeId} (hPath : search.path = (id, next :: rest) :: outer)
    (hNext : id ∈ (later.graph.node next).backedges ∨ (next ∈ later.entered ∧ next ∉ search.onPath))
    {other : NodeId} {others : List NodeId} {further : List (NodeId × List NodeId)}
    (hSuffix : (other, others) :: further <:+ (id, rest) :: outer) (hEdge : graph.Edge other target) :
    later.Accounted others further other target := by
  rcases List.suffix_cons_iff.mp hSuffix with hInnermost | hOuter
  · obtain ⟨⟨rfl, rfl⟩, rfl⟩ : (other = id ∧ others = rest) ∧ further = outer := by simpa using hInnermost
    have hBefore := explores.explored other (next :: others) further (hPath.symm ▸ List.suffix_refl _) target hEdge
    rcases Accounted.move hBefore tracks mirrored moves with hRemaining | hDone
    · rcases List.mem_cons.mp hRemaining with rfl | hRest
      · exact .inr (hNext.imp_right fun hLeft => by simpa [onPath, hPath] using hLeft)
      · exact .inl hRest
    · exact .inr hDone
  · have hWithin : (other, others) :: further <:+ search.path := hPath ▸ hOuter.trans (List.suffix_cons _ _)
    exact Accounted.move (explores.explored other others further hWithin target hEdge) tracks mirrored moves

/-- A node all of whose edges were followed has unmarked ones to nodes that were left only. -/
theorem ends_leave (explores : Explores graph search) (tracks : Tracks graph search)
    (hPath : search.path = (id, []) :: outer) : Ends search.graph id := by
  refine Acc.intro id fun target hUnmarked => ?_
  have hEdge := tracks.edge_iff.mp hUnmarked.1
  rcases explores.explored id [] outer (hPath ▸ List.suffix_refl _) target hEdge with hRest | hMarked | ⟨hEntered, hOff⟩
  · cases hRest
  · exact absurd hMarked hUnmarked.2
  · exact explores.left target hEntered (by simpa [onPath, hPath] using hOff)

theorem ends_move (tracks : Tracks graph search) (mirrored : Mirrored graph) (moves : search.Moves later)
    (ends : Ends search.graph id) : Ends later.graph id := by
  refine Subrelation.accessible (fun {target source} hUnmarked => ?_) ends
  have hEdge := (tracks.move mirrored moves).edge_iff.mp hUnmarked.1
  exact ⟨tracks.edge_iff.mpr hEdge, fun hMarked => hUnmarked.2 (tracks.mark_stays mirrored moves hMarked)⟩

theorem move (explores : Explores graph search) (tracks : Tracks graph search) (mirrored : Mirrored graph)
    (moves : search.Moves later) : Explores graph later where
  -- Only the innermost node changes; what lies further out on the path is accounted for as before.
  explored other others further hSuffix sink hEdge := by
    have hMoves := moves
    cases moves with
    | start hPath =>
        rcases List.suffix_cons_iff.mp hSuffix with hNew | hOld
        · obtain ⟨⟨rfl, rfl⟩, _⟩ : (other = _ ∧ others = _) ∧ _ := by simpa using hNew
          exact .inl (tracks.edge_iff.mpr hEdge)
        · exact Accounted.move (explores.explored other others further hOld sink hEdge) tracks mirrored hMoves
    | leave hPath =>
        exact explores.explored other others further (hPath ▸ hSuffix.trans (List.suffix_cons _ _)) sink hEdge
    | mark hPath hBack =>
        have hSize := tracks.size ▸ (mirrored.edge_lt (tracks.next_edge mirrored hPath).1).2
        refine explores.follow tracks mirrored hMoves hPath (.inl ?_) hSuffix hEdge
        exact (mem_backedges_mark hSize).mpr (.inr ⟨rfl, rfl⟩)
    | pass hPath hLeft hEntered =>
        exact explores.follow tracks mirrored hMoves hPath (.inr ⟨hEntered, hLeft⟩) hSuffix hEdge
    | enter hPath hFresh =>
        rcases List.suffix_cons_iff.mp hSuffix with hNew | hOld
        · obtain ⟨⟨rfl, rfl⟩, _⟩ : (other = _ ∧ others = _) ∧ _ := by simpa using hNew
          exact .inl (tracks.edge_iff.mpr hEdge)
        · have hLeft := fun hOnPath => hFresh (tracks.entered hOnPath)
          exact explores.follow tracks mirrored hMoves hPath (.inr ⟨List.mem_cons_self, hLeft⟩) hOld hEdge
  -- The only node that can have left the path in this step is the innermost one.
  left other hEntered hOff := by
    refine ends_move tracks mirrored moves ?_
    cases moves with
    | start hPath =>
        rcases List.mem_cons.mp hEntered with rfl | hOld
        · exact absurd List.mem_cons_self hOff
        · exact explores.left other hOld (mt (List.mem_cons_of_mem _) hOff)
    | @leave id outer hPath =>
        by_cases hSame : other = id
        · exact hSame ▸ explores.ends_leave tracks hPath
        · refine explores.left other hEntered ?_
          rw [onPath, hPath, List.map_cons]
          exact List.not_mem_cons_of_ne_of_not_mem hSame hOff
    | mark hPath => exact explores.left other hEntered (by simpa [onPath, hPath] using hOff)
    | pass hPath => exact explores.left other hEntered (by simpa [onPath, hPath] using hOff)
    | enter hPath =>
        rcases List.mem_cons.mp hEntered with rfl | hOld
        · exact absurd List.mem_cons_self hOff
        · exact explores.left other hOld (by simpa [onPath, hPath] using mt (List.mem_cons_of_mem _) hOff)

end Explores

/-! ### Whole searches -/

/-- The search may be anywhere on its way through the edges of a graph. -/
structure Running (graph : Graph) (search : DepthFirst) : Prop where
  tracks : Tracks graph search
  closes : Closes search
  explores : Explores graph search

theorem Running.move (running : Running graph search) (mirrored : Mirrored graph) (moves : search.Moves later) :
    Running graph later :=
  ⟨running.tracks.move mirrored moves, running.closes.move running.tracks mirrored moves,
    running.explores.move running.tracks mirrored moves⟩

/-- The steps to the end of the path at most: one to leave every node of it, one for every edge to follow, and the work
for the nodes that are not entered. -/
def work (search : DepthFirst) : Nat :=
  (search.path.map fun entry => entry.2.length + 1).sum + search.graph.openWork search.entered

theorem work_step (tracks : Tracks graph search) (mirrored : Mirrored graph) (hPath : search.path ≠ []) :
    search.step.work < search.work := by
  have moves := moves_step hPath
  generalize search.step = later at moves
  cases moves with
  | start hNone => exact absurd hNone hPath
  | leave hPath => simp [work, hPath]
  | @mark id target rest outer hPath =>
      have hSame : (search.graph.mark id target).openWork search.entered = search.graph.openWork search.entered :=
        openWork_congr (size_mark _ _ _) (outgoing_mark _ _ _) _
      simp [work, hPath, hSame]
  | pass hPath => simp [work, hPath]
  | enter hPath hFresh =>
      have hTarget := tracks.size ▸ (mirrored.edge_lt (tracks.next_edge mirrored hPath).1).2
      have hClose := openWork_close hTarget hFresh
      simp only [work, enter, hPath, List.map_cons, List.sum_cons, List.length_cons]
      omega

/-- With steps for all its work left, the search comes to the end of its path. -/
theorem run_ends (running : Running graph search) (mirrored : Mirrored graph) (fuel : Nat)
    (hFuel : search.work ≤ fuel) :
    Running graph (search.run fuel) ∧ (search.run fuel).path = [] ∧ search.entered ⊆ (search.run fuel).entered := by
  induction fuel generalizing search with
  | zero =>
      refine ⟨running, ?_, List.Subset.refl _⟩
      cases hPath : search.path with
      | nil => exact hPath
      | cons => simp [work, hPath] at hFuel
  | succ fuel ih =>
      rw [run]
      split
      · next hEmpty => exact ⟨running, List.isEmpty_iff.mp hEmpty, List.Subset.refl _⟩
      · next hMore =>
          have hPath : search.path ≠ [] := mt List.isEmpty_iff.mpr hMore
          have moves := moves_step hPath
          have hWork := work_step running.tracks mirrored hPath
          obtain ⟨hRunning, hEnds, hEntered⟩ := ih (running.move mirrored moves) (by omega)
          exact ⟨hRunning, hEnds, List.Subset.trans (entered_subset_move moves) hEntered⟩

/-- Searches from several roots in turn enter all of them. -/
theorem roots_end (running : Running graph search) (mirrored : Mirrored graph) (hPath : search.path = [])
    (bound : Nat) (hBound : graph.searchBound ≤ bound) (ids : List NodeId) :
    let searched := ids.foldl (fun (search : DepthFirst) root =>
      if search.entered.contains root then search else (search.enter root).run bound) search
    Running graph searched ∧ searched.path = [] ∧ search.entered ⊆ searched.entered ∧ ids ⊆ searched.entered := by
  induction ids generalizing search with
  | nil => exact ⟨running, hPath, List.Subset.refl _, List.nil_subset _⟩
  | cons root ids ih =>
      rw [List.foldl_cons]
      split
      · next hEntered =>
          obtain ⟨hRunning, hEnds, hKept, hIds⟩ := ih running hPath
          exact ⟨hRunning, hEnds, hKept, List.cons_subset.mpr ⟨hKept (by simpa using hEntered), hIds⟩⟩
      · next hNew =>
          have hFresh : root ∉ search.entered := by simpa using hNew
          have moves : search.Moves (search.enter root) := .start hPath hFresh
          have hWork : (search.enter root).work ≤ bound := by
            have hClose : search.graph.openWork (root :: search.entered) + (search.graph.node root).outgoing.length ≤
                search.graph.openWork search.entered := openWork_close_le hFresh
            have hAll : search.graph.openWork search.entered ≤ search.graph.openWork [] :=
              openWork_le (List.nil_subset _)
            rw [openWork_congr running.tracks.size running.tracks.outgoing []] at hAll
            rw [searchBound_eq] at hBound
            simp only [work, enter, hPath, List.map_cons, List.map_nil, List.sum_cons, List.sum_nil]
            omega
          obtain ⟨hRun, hRunEnds, hRunEntered⟩ := run_ends (running.move mirrored moves) mirrored bound hWork
          obtain ⟨hRunning, hEnds, hKept, hIds⟩ := ih hRun hRunEnds
          exact ⟨hRunning, hEnds,
            List.Subset.trans (List.Subset.trans (entered_subset_move moves) hRunEntered) hKept,
            List.cons_subset.mpr ⟨hKept (hRunEntered List.mem_cons_self), hIds⟩⟩

end DepthFirst

/-- The search begins without any mark. -/
theorem running_clearMarks (mirrored : Mirrored graph)
    (hPlaced : ∀ source target, graph.Edge source target → source ∈ graph.order ∧ target ∈ graph.order) :
    DepthFirst.Running graph { graph := graph.clearMarks graph.order } := by
  have hMarks (source target : NodeId) : source ∉ ((graph.clearMarks graph.order).node target).backedges := by
    rw [node_clearMarks]
    split
    · exact List.not_mem_nil
    · next hWaiting =>
        intro hMarked
        have hEdge := mirrored.mem_incoming.mp (mirrored.backedges_incoming target source hMarked)
        exact hWaiting (hPlaced source target hEdge).2
  exact {
    tracks := {
      size := size_clearMarks _ _
      outgoing := outgoing_clearMarks _ _
      remaining := fun _ _ hMember => nomatch hMember
      nodup := List.nodup_nil
      entered := List.nil_subset _
      marked := fun source target hMarked => absurd hMarked (hMarks source target) }
    closes := {
      descends := List.isChain_nil
      closes := fun source target hMarked => absurd hMarked (hMarks source target) }
    explores := {
      explored := fun _ _ _ hSuffix => absurd (List.suffix_nil.mp hSuffix) (List.cons_ne_nil _ _)
      left := fun _ hEntered => nomatch hEntered } }

/-- Finding the back-edges keeps all edges. Without the marked ones no cycle is left. Every marked edge closes a cycle
with unmarked ones, so no mark could be dropped. -/
theorem computeBackedges_exact (mirrored : Mirrored graph)
    (hPlaced : ∀ source target, graph.Edge source target → source ∈ graph.order ∧ target ∈ graph.order) :
    let marked := graph.computeBackedges
    (∀ source target, marked.Edge source target ↔ graph.Edge source target) ∧
      (∀ id, ¬TransGen marked.Unmarked id id) ∧
      ∀ source target, source ∈ (marked.node target).backedges →
        marked.Edge source target ∧ ReflTransGen marked.Unmarked target source := by
  have hBound : graph.searchBound ≤ 2 * (graph.clearMarks graph.order).searchBound := by
    rw [searchBound_eq, searchBound_eq, openWork_congr (size_clearMarks _ _) (outgoing_clearMarks _ _)]
    omega
  obtain ⟨running, hPath, _, hRoots⟩ := DepthFirst.roots_end (running_clearMarks mirrored hPlaced) mirrored rfl _ hBound
    (graph.clearMarks graph.order).order
  refine ⟨fun source target => running.tracks.edge_iff, fun id cycle => ?_, fun source target hMarked => ?_⟩
  · obtain ⟨next, hFirst, _⟩ := TransGen.head'_iff.mp cycle
    have hOrder := (hPlaced id next (running.tracks.edge_iff.mp hFirst.1)).1
    have hEntered := hRoots ((order_clearMarks graph graph.order).symm ▸ hOrder)
    refine (running.explores.left id hEntered ?_).not_cycle cycle
    rw [DepthFirst.onPath, hPath]
    exact List.not_mem_nil
  · refine ⟨running.tracks.edge_iff.mpr (running.tracks.marked source target hMarked).1, ?_⟩
    exact ReflTransGen.mono (fun _ _ taken => taken.unmarked) _ _ (running.closes.closes source target hMarked)

section Fixed

/-- Two nodes lead to each other, and the entry leads to both, so neither is the head of a loop. A node that the entry
does not lead to has an edge to itself. -/
def knot : List Operation :=
  [.label 0, .append 0, .label 1, .append 1, .label 2, .append 2, .label 3, .append 3, .connect 0 1, .connect 0 2,
    .connect 1 2, .connect 2 1, .connect 3 3, .connect 3 2]

theorem computeBackedges_exact_knot :
    let graph := Operation.run {} knot
    Mirrored graph ∧ (∀ source target, graph.Edge source target → source ∈ graph.order ∧ target ∈ graph.order) ∧
      (∀ id, ¬TransGen graph.computeBackedges.Unmarked id id) ∧
      ReflTransGen graph.computeBackedges.Unmarked 1 2 ∧ ReflTransGen graph.computeBackedges.Unmarked 3 3 ∧
      (List.range 4).map (fun id => (graph.computeBackedges.node id).backedges) = [[], [2], [], [3]] := by
  intro graph
  have mirrored : Mirrored graph := (Operation.run_keeps .empty knot (by decide)).wellFormed.mirrored
  have hPlaced (source target : NodeId) (hEdge : graph.Edge source target) :
      source ∈ graph.order ∧ target ∈ graph.order := by
    have hOrder : graph.order = List.range graph.nodes.size := by decide
    obtain ⟨hSource, hTarget⟩ := mirrored.edge_lt hEdge
    exact hOrder ▸ ⟨List.mem_range.mpr hSource, List.mem_range.mpr hTarget⟩
  obtain ⟨_, hAcyclic, hMarks⟩ := computeBackedges_exact mirrored hPlaced
  exact ⟨mirrored, hPlaced, hAcyclic, (hMarks 2 1 (by decide)).2, (hMarks 3 3 (by decide)).2, by decide⟩

end Fixed

end Decompiler.Graph
