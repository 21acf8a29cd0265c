import Decompiler.Graph.Region
import Decompiler.Proofs.Graph.Lookup
import Mathlib.Data.List.Induction

/-!
What an exception table makes of the protected regions and of the graph. An entry covers a copy of a finally block, or
repeats what is known, or brings one new handler: to a region that begins where the entry begins, or to a region of its
own. Each fact about the regions, and about the visits that the nodes of handlers wait for, is kept in these cases and
so holds after a whole table.
-/

namespace Decompiler

/-- An entry of the exception table, with nodes for its labels. -/
structure TableEntry where
  start : NodeId
  stop : NodeId
  handler : NodeId
  /-- The caught type by internal name; none for a catch-all entry. -/
  exception : Option String

namespace TableEntry

/-- The nodes that an entry names: where its range starts and ends, and its handler. -/
def nodes (entry : TableEntry) : List NodeId := [entry.start, entry.stop, entry.handler]

/-- An entry that protects its own handler is passed over. -/
def Counts (entry : TableEntry) : Prop := entry.start ≠ entry.handler

/-- What the entry makes of its handler. -/
def opening (entry : TableEntry) : Handler := { exception := entry.exception, node := entry.handler }

end TableEntry

/-! ### One region -/

namespace Region

variable {region after : Region} {entry : TableEntry} {isNew : Bool}

/-- What becomes of a region that an entry belongs to, and whether the entry brings a handler. -/
inductive Takes (entry : TableEntry) (region : Region) : Region → Bool → Prop where
  | copy (starts : List NodeId) (handled : region.handles entry.handler = true) :
      Takes entry region { region with duplicateStarts := starts } false
  | repetition (starts : List NodeId) (begins : region.start = entry.start)
      (ends : entry.exception = none ∨ region.stop = entry.stop)
      (caught : entry.exception ∈ region.handlers.map Handler.exception) :
      Takes entry region { region with duplicateStarts := starts } false
  | handler (starts : List NodeId) (begins : region.start = entry.start)
      (unhandled : region.handles entry.handler = false)
      (uncaught : entry.exception ∉ region.handlers.map Handler.exception) :
      Takes entry region
        { region with handlers := region.handlers ++ [entry.opening], duplicateStarts := starts } true

/-- A region handles what is the node of one of its handlers. -/
theorem handles_iff {id : NodeId} : region.handles id = true ↔ id ∈ region.handlers.map Handler.node := by
  simp [handles]

/-- A copy of a finally block is noted beside everything else. -/
theorem addDuplicate_eq (region : Region) (start : NodeId) :
    region.addDuplicate start = { region with duplicateStarts := (region.addDuplicate start).duplicateStarts } := by
  unfold addDuplicate
  split <;> rfl

/-- The handler of a finally block is the one that catches everything. -/
theorem finally?_isSome : region.finally?.isSome = true ↔ none ∈ region.handlers.map Handler.exception := by
  simp [finally?, Handler.isFinally]

/-- What a region makes of an entry that belongs to it, case by case. -/
theorem takes_of_absorb?
    (hTaken : region.absorb? entry.start entry.stop entry.handler entry.exception = some (after, isNew)) :
    region.Takes entry after isNew := by
  unfold absorb? at hTaken
  split at hTaken
  · next hHandled =>
      cases hTaken
      split
      · exact .copy region.duplicateStarts hHandled
      · rw [addDuplicate_eq]
        exact .copy _ hHandled
  · next hHandled =>
      have unhandled : region.handles entry.handler = false := by simpa using hHandled
      split at hTaken
      · next hFinally =>
          have hNone : entry.exception = none := Option.isNone_iff_eq_none.mp hFinally.1
          cases hTaken
          rw [addDuplicate_eq]
          cases hKnown : region.finally?.isSome with
          | true => exact .repetition _ hFinally.2 (.inl hNone) (hNone ▸ finally?_isSome.mp hKnown)
          | false =>
              have uncaught : entry.exception ∉ region.handlers.map Handler.exception := fun hCaught => by
                rw [finally?_isSome.mpr (hNone ▸ hCaught)] at hKnown
                cases hKnown
              have hOpening : entry.opening = { exception := none, node := entry.handler } := by
                rw [TableEntry.opening, hNone]
              simpa [addHandler, hOpening] using
                Takes.handler ((region.addHandler none entry.handler).addDuplicate entry.stop).duplicateStarts
                  hFinally.2 unhandled uncaught
      · split at hTaken
        · next hRange =>
            split at hTaken
            · next hCaught =>
                cases hTaken
                exact .repetition region.duplicateStarts hRange.1 (.inr hRange.2) (by simpa using hCaught)
            · next hUncaught =>
                cases hTaken
                exact .handler region.duplicateStarts hRange.1 unhandled (by simpa using hUncaught)
        · cases hTaken

/-- A region that an entry does not belong to has another range and other handlers. -/
theorem apart_of_absorb?
    (hPassed : region.absorb? entry.start entry.stop entry.handler entry.exception = none) :
    region.handles entry.handler = false ∧ (region.start, region.stop) ≠ (entry.start, entry.stop) := by
  unfold absorb? at hPassed
  split at hPassed
  · cases hPassed
  · next hHandled =>
      split at hPassed
      · cases hPassed
      · split at hPassed
        · split at hPassed <;> cases hPassed
        · next hRange => exact ⟨by simpa using hHandled, by simpa using hRange⟩

namespace Takes

variable (takes : region.Takes entry after isNew)

include takes

theorem id_eq : after.id = region.id := by
  cases takes <;> rfl

/-- A region keeps the range of its first entry. -/
theorem range_eq : (after.start, after.stop) = (region.start, region.stop) := by
  cases takes <;> rfl

/-- The first handler stays the first one. -/
theorem catcher_eq : after.catcher = region.catcher := by
  cases takes <;> rfl

/-- A new handler is put behind those that are known. -/
theorem handlers_eq : after.handlers = region.handlers ++ if isNew then [entry.opening] else [] := by
  cases takes with
  | copy | repetition => exact (List.append_nil _).symm
  | handler => rfl

/-- A region goes on handling what it handled. -/
theorem handles_mono {id : NodeId} (handled : region.handles id = true) : after.handles id = true := by
  rw [handles_iff, takes.handlers_eq, List.map_append]
  exact List.mem_append_left _ (handles_iff.mp handled)

end Takes

/-- What holds of a region from its first entry on. -/
structure Orderly (region : Region) : Prop where
  /-- It has a handler, and its catcher is the node of the first one. -/
  first : ∃ opening others, region.handlers = opening :: others ∧ opening.node = region.catcher
  outside : ∀ handler ∈ region.handlers, handler.node ≠ region.start
  /-- So one handler at most is a finally block. -/
  exceptions : (region.handlers.map Handler.exception).Nodup
  nodes : (region.handlers.map Handler.node).Nodup

/-- A new region has the one handler of its entry. -/
theorem orderly_ofEntry (hCounts : entry.Counts) (id : RegionId) :
    (ofEntry id entry.start entry.stop entry.handler entry.exception).Orderly where
  first := ⟨entry.opening, [], rfl, rfl⟩
  outside handler hHandler := by
    rw [List.mem_singleton.mp hHandler]
    exact hCounts.symm
  exceptions := List.nodup_singleton _
  nodes := List.nodup_singleton _

/-- Whatever a region takes, it stays in order. -/
theorem Orderly.takes (orderly : region.Orderly) (hCounts : entry.Counts) (takes : region.Takes entry after isNew) :
    after.Orderly := by
  cases takes with
  | copy | repetition => exact ⟨orderly.first, orderly.outside, orderly.exceptions, orderly.nodes⟩
  | handler starts begins unhandled uncaught =>
      obtain ⟨opening, others, hHandlers, hCatcher⟩ := orderly.first
      have hNode : entry.handler ∉ region.handlers.map Handler.node := fun hHandler => by
        rw [handles_iff.mpr hHandler] at unhandled
        cases unhandled
      refine ⟨⟨opening, others ++ [entry.opening], by simp [hHandlers], hCatcher⟩, fun handler hHandler => ?_, ?_, ?_⟩
      · rcases List.mem_append.mp hHandler with hHandler | hHandler
        · exact orderly.outside handler hHandler
        · rw [List.mem_singleton.mp hHandler]
          exact fun hSame => hCounts (begins.symm.trans hSame.symm)
      · simpa [List.nodup_append, TableEntry.opening] using ⟨orderly.exceptions, by simpa using uncaught⟩
      · simpa [List.nodup_append, TableEntry.opening] using ⟨orderly.nodes, by simpa using hNode⟩

end Region

/-! ### The nodes of an entry -/

namespace Graph

variable {graph : Graph} {id handler : NodeId} {ids : List NodeId}

/-- Keeps nodes from being disposed of. -/
def pinAll (graph : Graph) (ids : List NodeId) : Graph :=
  ids.foldl (fun graph id => graph.update id fun node => { node with disposable := false }) graph

/-- Lets a handler wait for one more visit. -/
def awaitVisit (graph : Graph) (handler : NodeId) : Graph :=
  graph.update handler fun node => { node with additionalCalls := node.additionalCalls + 1 }

@[simp] theorem size_pinAll (graph : Graph) (ids : List NodeId) : (graph.pinAll ids).nodes.size = graph.nodes.size := by
  induction ids generalizing graph with
  | nil => rfl
  | cons id rest ih => exact (ih _).trans (size_update graph id _)

theorem additionalCalls_pinAll (graph : Graph) (ids : List NodeId) :
    ((graph.pinAll ids).node id).additionalCalls = (graph.node id).additionalCalls := by
  induction ids generalizing graph with
  | nil => rfl
  | cons pinned rest ih => exact (ih _).trans (field_update Node.additionalCalls _ rfl)

/-- The nodes of an entry stay in the graph, even when they are empty. -/
theorem disposable_pinAll (hIds : ∀ id ∈ ids, id < graph.nodes.size) :
    ((graph.pinAll ids).node id).disposable = if id ∈ ids then false else (graph.node id).disposable := by
  induction ids generalizing graph with
  | nil => rfl
  | cons pinned rest ih =>
      rw [List.forall_mem_cons] at hIds
      rw [pinAll, List.foldl_cons, ← pinAll, ih (by simpa using hIds.2)]
      by_cases hSame : pinned = id
      · subst hSame
        simp [node_update_self hIds.1]
      · simp [node_update_of_ne hSame, Ne.symm hSame]

/-- One handler waits for one more visit than before. -/
theorem additionalCalls_awaitVisit (hHandler : handler < graph.nodes.size) :
    ((graph.awaitVisit handler).node id).additionalCalls =
      (graph.node id).additionalCalls + if handler = id then 1 else 0 := by
  by_cases hSame : handler = id
  · subst hSame
    rw [awaitVisit, node_update_self hHandler, if_pos rfl]
  · rw [awaitVisit, node_update_of_ne hSame, if_neg hSame, Nat.add_zero]

theorem disposable_awaitVisit : ((graph.awaitVisit handler).node id).disposable = (graph.node id).disposable :=
  field_update Node.disposable _ rfl

end Graph

/-! ### All regions -/

namespace Regions

open Decompiler.Graph

variable {regions after : Regions} {graph : Graph} {entry : TableEntry} {entries : List TableEntry} {isNew : Bool}

/-- What becomes of the regions with an entry, and whether the entry brings a handler. -/
inductive Takes (entry : TableEntry) (regions : Regions) : Regions → Bool → Prop where
  | belong {front back : List Region} {region after : Region} {isNew : Bool}
      (hList : regions.list = front ++ region :: back) (takes : region.Takes entry after isNew) :
      Takes entry regions { list := front ++ after :: back } isNew
  | opened (apart : ∀ region ∈ regions.list, region.handles entry.handler = false ∧
        (region.start, region.stop) ≠ (entry.start, entry.stop)) :
      Takes entry regions
        { list := regions.list ++
            [.ofEntry regions.list.length entry.start entry.stop entry.handler entry.exception] } true

/-- A node is a handler if some region handles it. -/
theorem mem_nodes_iff {id : NodeId} :
    id ∈ regions.handlers.map Handler.node ↔ ∃ region ∈ regions.list, region.handles id = true := by
  simp only [handlers, List.map_flatMap, List.mem_flatMap, Region.handles_iff]

/-- The first region that the entry belongs to takes it, and the others stay. -/
theorem absorbInto_eq_some {list others : List Region}
    (hTaken : absorbInto entry.start entry.stop entry.handler entry.exception list = some (others, isNew)) :
    ∃ front region back after, list = front ++ region :: back ∧ others = front ++ after :: back ∧
      region.Takes entry after isNew := by
  induction list generalizing others with
  | nil => cases hTaken
  | cons region rest ih =>
      rw [absorbInto] at hTaken
      split at hTaken
      · next after isNew hRegion =>
          cases hTaken
          exact ⟨[], region, rest, after, rfl, rfl, Region.takes_of_absorb? hRegion⟩
      · obtain ⟨⟨rest', isNew'⟩, hRest, hSame⟩ := Option.bind_eq_some_iff.mp hTaken
        cases hSame
        obtain ⟨front, taker, back, after, rfl, rfl, takes⟩ := ih hRest
        exact ⟨region :: front, taker, back, after, rfl, rfl, takes⟩

/-- If no region takes the entry, it belongs to none of them. -/
theorem absorbInto_eq_none {list : List Region}
    (hPassed : absorbInto entry.start entry.stop entry.handler entry.exception list = none) :
    ∀ region ∈ list, region.absorb? entry.start entry.stop entry.handler entry.exception = none := by
  induction list with
  | nil => simp
  | cons region rest ih =>
      rw [absorbInto] at hPassed
      split at hPassed
      · cases hPassed
      · next hRegion =>
          cases hRest : absorbInto entry.start entry.stop entry.handler entry.exception rest with
          | none => exact List.forall_mem_cons.mpr ⟨hRegion, ih hRest⟩
          | some taken =>
              rw [hRest] at hPassed
              cases hPassed

namespace Takes

variable (takes : regions.Takes entry after isNew)

include takes

/-- Nothing is done to the handlers but that the new one is added, at whatever place. -/
theorem handlers_perm : after.handlers.Perm (regions.handlers ++ if isNew then [entry.opening] else []) := by
  cases takes with
  | @belong front back region after isNew hList takes =>
      simp only [handlers, hList, List.flatMap_append, List.flatMap_cons, takes.handlers_eq, List.append_assoc]
      exact (List.perm_append_comm.append_left _).append_left _
  | opened => rw [handlers, List.flatMap_append]; exact .refl _

/-- A node is the handler of one region more if the entry brings it. -/
theorem countP_handlers (id : NodeId) :
    after.handlers.countP (·.node == id) =
      regions.handlers.countP (·.node == id) + if isNew ∧ entry.handler = id then 1 else 0 := by
  rw [takes.handlers_perm.countP_eq, List.countP_append]
  cases isNew <;> simp [List.countP_cons, TableEntry.opening]

/-- The region that takes the entry stays in order, and so do the others and a new one. -/
theorem orderly (hCounts : entry.Counts) (hOrderly : ∀ region ∈ regions.list, region.Orderly) :
    ∀ region ∈ after.list, region.Orderly := by
  cases takes with
  | belong hList takes =>
      rw [hList, List.forall_mem_append, List.forall_mem_cons] at hOrderly
      obtain ⟨hFront, hTaker, hBack⟩ := hOrderly
      exact List.forall_mem_append.mpr ⟨hFront, List.forall_mem_cons.mpr ⟨hTaker.takes hCounts takes, hBack⟩⟩
  | opened =>
      exact List.forall_mem_append.mpr ⟨hOrderly, List.forall_mem_singleton.mpr (Region.orderly_ofEntry hCounts _)⟩

/-- A new region is made only for a range that no region has. -/
theorem ranges_nodup (hRanges : (regions.list.map fun region => (region.start, region.stop)).Nodup) :
    (after.list.map fun region => (region.start, region.stop)).Nodup := by
  cases takes with
  | belong hList takes => simpa only [hList, List.map_append, List.map_cons, takes.range_eq] using hRanges
  | opened apart =>
      rw [List.map_append, List.nodup_append]
      refine ⟨hRanges, List.nodup_singleton _, fun range hRange other hOther => ?_⟩
      obtain ⟨region, hRegion, rfl⟩ := List.mem_map.mp hRange
      rw [List.mem_singleton.mp hOther]
      exact (apart region hRegion).2

/-- Regions are numbered from the first to the last. -/
theorem ids_eq (hIds : regions.list.map Region.id = List.range regions.list.length) :
    after.list.map Region.id = List.range after.list.length := by
  cases takes with
  | belong hList takes => simpa [hList, takes.id_eq] using hIds
  | opened => simp [hIds, List.range_succ, Region.ofEntry]

end Takes

/-- Registers an entry of the exception table. -/
def addEntry (table : Regions × Graph) (entry : TableEntry) : Regions × Graph :=
  table.1.add table.2 entry.start entry.stop entry.handler entry.exception

/-- An entry that protects its own handler changes nothing. -/
theorem addEntry_of_not_counts (hPassed : ¬entry.Counts) : addEntry (regions, graph) entry = (regions, graph) :=
  if_pos (not_not.mp hPassed)

/-- Any other entry is taken by the regions and pins its nodes, and a new handler waits for a visit. -/
theorem exists_addEntry (regions : Regions) (graph : Graph) (hCounts : entry.Counts) :
    ∃ after isNew, regions.Takes entry after isNew ∧ addEntry (regions, graph) entry =
      (after, if isNew then (graph.pinAll entry.nodes).awaitVisit entry.handler else graph.pinAll entry.nodes) := by
  rw [addEntry, add, if_neg hCounts]
  dsimp only
  split
  · next list isNew hTaken =>
      obtain ⟨front, region, back, after, hList, rfl, takes⟩ := absorbInto_eq_some hTaken
      exact ⟨_, isNew, .belong hList takes, rfl⟩
  · next hPassed =>
      exact ⟨_, true, .opened fun region hRegion => Region.apart_of_absorb? (absorbInto_eq_none hPassed region hRegion), rfl⟩

/-- What the regions and the nodes know after some entries of the exception table. -/
structure Bookkept (entries : List TableEntry) (regions : Regions) (graph : Graph) : Prop where
  /-- A node waits for a visit from every handler that begins there. -/
  visits : ∀ id, (graph.node id).additionalCalls = regions.handlers.countP (·.node == id)
  orderly : ∀ region ∈ regions.list, region.Orderly
  ranges : (regions.list.map fun region => (region.start, region.stop)).Nodup
  ids : regions.list.map Region.id = List.range regions.list.length
  /-- No node that an entry names is ever disposed of for being empty. -/
  pinned : ∀ entry ∈ entries, entry.Counts → ∀ id ∈ entry.nodes, (graph.node id).disposable = false

/-- Before the first entry there is nothing to know. -/
theorem bookkept_nil (hUnvisited : ∀ id, (graph.node id).additionalCalls = 0) : Bookkept [] {} graph where
  visits := hUnvisited
  orderly := by simp
  ranges := List.nodup_nil
  ids := rfl
  pinned := by simp

/-- One entry, by what the regions and the graph make of it. -/
theorem Bookkept.addEntry (bookkept : Bookkept entries regions graph)
    (hNodes : entry.Counts → ∀ id ∈ entry.nodes, id < graph.nodes.size) :
    Bookkept (entries ++ [entry]) (addEntry (regions, graph) entry).1 (addEntry (regions, graph) entry).2 := by
  by_cases hCounts : entry.Counts
  · obtain ⟨after, isNew, takes, hAdd⟩ := exists_addEntry regions graph hCounts
    have hHandler : entry.handler < (graph.pinAll entry.nodes).nodes.size := by
      rw [size_pinAll]
      exact hNodes hCounts entry.handler (by simp [TableEntry.nodes])
    rw [hAdd]
    refine ⟨fun id => ?_, takes.orderly hCounts bookkept.orderly, takes.ranges_nodup bookkept.ranges,
      takes.ids_eq bookkept.ids, fun other hOther hOtherCounts id hId => ?_⟩
    · rw [takes.countP_handlers, ← bookkept.visits]
      cases isNew with
      | false => simp [additionalCalls_pinAll]
      | true => simp [additionalCalls_awaitVisit hHandler, additionalCalls_pinAll]
    · have hPinned : ((graph.pinAll entry.nodes).node id).disposable = false := by
        rw [disposable_pinAll (hNodes hCounts)]
        split
        · rfl
        · next hElsewhere =>
            rcases List.mem_append.mp hOther with hOther | hOther
            · exact bookkept.pinned other hOther hOtherCounts id hId
            · exact absurd (List.mem_singleton.mp hOther ▸ hId) hElsewhere
      cases isNew with
      | false => exact hPinned
      | true => exact disposable_awaitVisit.trans hPinned
  · rw [addEntry_of_not_counts hCounts]
    refine ⟨bookkept.visits, bookkept.orderly, bookkept.ranges, bookkept.ids, fun other hOther hOtherCounts => ?_⟩
    rcases List.mem_append.mp hOther with hOther | hOther
    · exact bookkept.pinned other hOther hOtherCounts
    · exact absurd (List.mem_singleton.mp hOther ▸ hOtherCounts) hCounts

theorem size_addEntry (table : Regions × Graph) (entry : TableEntry) :
    (addEntry table entry).2.nodes.size = table.2.nodes.size := by
  by_cases hCounts : entry.Counts
  · obtain ⟨after, isNew, -, hAdd⟩ := exists_addEntry table.1 table.2 hCounts
    rw [hAdd]
    cases isNew <;> simp [awaitVisit]
  · rw [addEntry_of_not_counts hCounts]

/-- Registers a table from its first entry on. -/
def addEntries (graph : Graph) (entries : List TableEntry) : Regions × Graph := entries.foldl addEntry ({}, graph)

/-- The last entry comes after all others. -/
theorem addEntries_append_singleton (graph : Graph) (entries : List TableEntry) (entry : TableEntry) :
    addEntries graph (entries ++ [entry]) = addEntry (addEntries graph entries) entry := by
  rw [addEntries, List.foldl_append]
  rfl

theorem size_addEntries (graph : Graph) (entries : List TableEntry) :
    (addEntries graph entries).2.nodes.size = graph.nodes.size := by
  induction entries using List.reverseRecOn with
  | nil => rfl
  | append_singleton entries entry ih => rw [addEntries_append_singleton, size_addEntry, ih]

/-- After any table the regions and the nodes know what they should. -/
theorem bookkept_addEntries (graph : Graph) (entries : List TableEntry)
    (hUnvisited : ∀ id, (graph.node id).additionalCalls = 0)
    (hNodes : ∀ entry ∈ entries, entry.Counts → ∀ id ∈ entry.nodes, id < graph.nodes.size) :
    Bookkept entries (addEntries graph entries).1 (addEntries graph entries).2 := by
  induction entries using List.reverseRecOn with
  | nil => exact bookkept_nil hUnvisited
  | append_singleton entries entry ih =>
      obtain ⟨hFront, hEntry⟩ := List.forall_mem_append.mp hNodes
      rw [addEntries_append_singleton]
      refine (ih hFront).addEntry ?_
      rw [size_addEntries]
      exact hEntry entry (List.mem_singleton_self entry)

/-- The body of a finally block is left early and holds a region of its own: the last entry begins where that region
does, and its handler is that of the finally block. -/
def nested : List TableEntry :=
  [⟨2, 3, 4, some "java/io/IOException"⟩, ⟨0, 1, 6, none⟩, ⟨2, 5, 6, none⟩]

theorem bookkept_nested : (∀ id, (({ nodes := .replicate 7 {} } : Graph).node id).additionalCalls = 0) ∧
    (∀ entry ∈ nested, entry.Counts → ∀ id ∈ entry.nodes, id < ({ nodes := .replicate 7 {} } : Graph).nodes.size) ∧
    Bookkept nested (addEntries { nodes := .replicate 7 {} } nested).1 (addEntries { nodes := .replicate 7 {} } nested).2 := by
  have hUnvisited (id : NodeId) : (({ nodes := .replicate 7 {} } : Graph).node id).additionalCalls = 0 := by
    by_cases hId : id < 7 <;> simp [node, hId]
  have hNodes : ∀ entry ∈ nested, entry.Counts →
      ∀ id ∈ entry.nodes, id < ({ nodes := .replicate 7 {} } : Graph).nodes.size := by
    simp [nested, TableEntry.nodes]
  exact ⟨hUnvisited, hNodes, bookkept_addEntries _ nested hUnvisited hNodes⟩

/-! ### Which types are caught -/

theorem Takes.handlers_subset (takes : regions.Takes entry after isNew) : regions.handlers ⊆ after.handlers :=
  fun _ hHandler => takes.handlers_perm.mem_iff.mpr (List.mem_append_left _ hHandler)

theorem Takes.opening_mem (takes : regions.Takes entry after true) : entry.opening ∈ after.handlers :=
  takes.handlers_perm.mem_iff.mpr (List.mem_append_right _ (List.mem_singleton_self _))

/-- An entry that says nothing new is for a handler known before, or is caught already where it begins. -/
theorem Takes.known (takes : regions.Takes entry after false) :
    entry.handler ∈ regions.handlers.map Handler.node ∨
      ∃ region ∈ regions.list, region.start = entry.start ∧ (entry.exception = none ∨ region.stop = entry.stop) ∧
        entry.exception ∈ region.handlers.map Handler.exception := by
  cases takes with
  | @belong front back region _ _ hList takes =>
      have hRegion : region ∈ regions.list := by simp [hList]
      cases takes with
      | copy _ handled => exact .inl (mem_nodes_iff.mpr ⟨region, hRegion, handled⟩)
      | repetition _ begins ends caught => exact .inr ⟨region, hRegion, begins, ends, caught⟩

/-- No entry takes a handler away. -/
theorem handlers_subset_addEntry (table : Regions × Graph) (entry : TableEntry) :
    table.1.handlers ⊆ (addEntry table entry).1.handlers := by
  by_cases hCounts : entry.Counts
  · obtain ⟨after, isNew, takes, hAdd⟩ := exists_addEntry table.1 table.2 hCounts
    rw [hAdd]
    exact takes.handlers_subset
  · rw [addEntry_of_not_counts hCounts]
    exact List.Subset.refl _

/-- No table takes a handler away. -/
theorem handlers_subset_foldl (table : Regions × Graph) (entries : List TableEntry) :
    table.1.handlers ⊆ (entries.foldl addEntry table).1.handlers := by
  induction entries generalizing table with
  | nil => exact List.Subset.refl _
  | cons entry rest ih => exact List.Subset.trans (handlers_subset_addEntry table entry) (ih _)

/-- The type of an entry is caught by its handler in the end, unless the entry came when its handler was known, or when
the type was caught where the entry begins. -/
theorem caught_addEntries (graph : Graph) (front back : List TableEntry) (hCounts : entry.Counts) :
    entry.opening ∈ (addEntries graph (front ++ entry :: back)).1.handlers ∨
      entry.handler ∈ (addEntries graph front).1.handlers.map Handler.node ∨
      ∃ region ∈ (addEntries graph front).1.list, region.start = entry.start ∧
        (entry.exception = none ∨ region.stop = entry.stop) ∧
        entry.exception ∈ region.handlers.map Handler.exception := by
  obtain ⟨after, isNew, takes, hAdd⟩ :=
    exists_addEntry (addEntries graph front).1 (addEntries graph front).2 hCounts
  cases isNew with
  | false => exact .inr takes.known
  | true =>
      refine .inl ?_
      rw [addEntries, List.foldl_append, List.foldl_cons, ← addEntries]
      refine handlers_subset_foldl _ back ?_
      rw [hAdd]
      exact takes.opening_mem

/-! ### Regions share no handlers -/

/-- No entry for a handler seen before begins where an entry for another handler has begun. -/
def Separate (entries : List TableEntry) : Prop :=
  ∀ front entry back, entries = front ++ entry :: back → entry.handler ∈ front.map TableEntry.handler →
    ∀ other ∈ front, other.start = entry.start → other.handler = entry.handler

/-- What the handlers of the regions owe to the entries. -/
structure Traced (entries : List TableEntry) (regions : Regions) : Prop where
  /-- Every region was opened by an entry. -/
  begun : ∀ region ∈ regions.list, region.handles region.catcher = true ∧
    ∃ entry ∈ entries, entry.start = region.start ∧ entry.handler = region.catcher
  brought : ∀ handler ∈ regions.handlers, handler.node ∈ entries.map TableEntry.handler
  distinct : (regions.handlers.map Handler.node).Nodup

namespace Traced

/-- What was traced to earlier entries is traced to more of them. -/
theorem more (traced : regions.Traced entries) (entry : TableEntry) : regions.Traced (entries ++ [entry]) where
  begun region hRegion := by
    obtain ⟨hCatcher, opener, hOpener, hBegun⟩ := traced.begun region hRegion
    exact ⟨hCatcher, opener, List.mem_append_left _ hOpener, hBegun⟩
  brought handler hHandler := by
    rw [List.map_append]
    exact List.mem_append_left _ (traced.brought handler hHandler)
  distinct := traced.distinct

variable (traced : regions.Traced entries)
  (hSeparate : entry.handler ∈ entries.map TableEntry.handler →
    ∀ other ∈ entries, other.start = entry.start → other.handler = entry.handler)

include traced hSeparate

/-- A region that begins where the entry begins would have been opened for a handler known by now. -/
theorem handler_fresh (takes : regions.Takes entry after true) :
    entry.handler ∉ regions.handlers.map Handler.node := by
  intro hKnown
  cases takes with
  | @belong front back region _ _ hList takes =>
      cases takes with
      | handler _ begins unhandled =>
          obtain ⟨handler, hHandler, hNode⟩ := List.mem_map.mp hKnown
          obtain ⟨hCatcher, opener, hOpener, hStart, hSame⟩ := traced.begun region (by simp [hList])
          have hSeen := hNode ▸ traced.brought handler hHandler
          rw [← hSame, hSeparate hSeen opener hOpener (hStart.trans begins), unhandled] at hCatcher
          cases hCatcher
  | opened apart =>
      obtain ⟨region, hRegion, handled⟩ := mem_nodes_iff.mp hKnown
      rw [(apart region hRegion).1] at handled
      cases handled

theorem takes (takes : regions.Takes entry after isNew) : after.Traced (entries ++ [entry]) where
  begun := by
    have hBefore := (traced.more entry).begun
    cases takes with
    | belong hList takes =>
        rw [hList, List.forall_mem_append, List.forall_mem_cons] at hBefore
        obtain ⟨hFront, ⟨hCatcher, opener, hOpener, hStart, hSame⟩, hBack⟩ := hBefore
        refine List.forall_mem_append.mpr ⟨hFront, List.forall_mem_cons.mpr ⟨⟨?_, opener, hOpener, ?_, ?_⟩, hBack⟩⟩
        · rw [takes.catcher_eq]
          exact takes.handles_mono hCatcher
        · exact hStart.trans (Prod.mk.inj takes.range_eq).1.symm
        · exact hSame.trans takes.catcher_eq.symm
    | opened =>
        refine List.forall_mem_append.mpr ⟨hBefore, List.forall_mem_singleton.mpr ⟨?_, entry, by simp, rfl, rfl⟩⟩
        simp [Region.handles, Region.ofEntry]
  brought handler hHandler := by
    rcases List.mem_append.mp (takes.handlers_perm.mem_iff.mp hHandler) with hHandler | hHandler
    · exact (traced.more entry).brought handler hHandler
    · cases isNew with
      | false => cases hHandler
      | true => simp [List.mem_singleton.mp hHandler, TableEntry.opening]
  distinct := by
    rw [(takes.handlers_perm.map Handler.node).nodup_iff]
    cases isNew with
    | false => simpa using traced.distinct
    | true =>
        have hFresh := traced.handler_fresh hSeparate takes
        simpa [List.nodup_append, TableEntry.opening] using ⟨traced.distinct, by simpa using hFresh⟩

end Traced

/-- In such a table every node is the handler of one region at most. -/
theorem nodup_handlers (graph : Graph) (hSeparate : Separate entries) :
    ((addEntries graph entries).1.handlers.map Handler.node).Nodup := by
  have hTraced : (addEntries graph entries).1.Traced entries := by
    induction entries using List.reverseRecOn with
    | nil => exact ⟨by simp [addEntries], by simp [addEntries, handlers], by simp [addEntries, handlers]⟩
    | append_singleton entries entry ih =>
        have hFront : Separate entries := fun front other back hEntries =>
          hSeparate front other (back ++ [entry]) (by simp [hEntries])
        have hLast := hSeparate entries entry [] rfl
        rw [addEntries_append_singleton]
        by_cases hCounts : entry.Counts
        · obtain ⟨after, isNew, takes, hAdd⟩ :=
            exists_addEntry (addEntries graph entries).1 (addEntries graph entries).2 hCounts
          rw [hAdd]
          exact (ih hFront).takes hLast takes
        · rw [addEntry_of_not_counts hCounts]
          exact (ih hFront).more entry
  exact hTraced.distinct

/-- A finally block around a region that begins where its second range does. The handler of the finally block is added
to the region inside it, which is asked first. -/
example : (addEntries { nodes := .replicate 7 {} }
    [⟨2, 3, 4, some "IOException"⟩, ⟨0, 1, 6, none⟩, ⟨2, 5, 6, none⟩]).1.handlers.map Handler.node = [4, 6, 6] := by
  decide

end Regions

end Decompiler
