import Decompiler.Graph.Switch
import Mathlib.Data.List.Nodup

/-!
Which node a key selects. A case stands for one node and lists every key that a row of the table sends there, once; the
default has no case. So where no key has two rows, the labels of the cases select what the table selects. The cases come
in order of appearance, and the arms are all the nodes of the table, each once.
-/

namespace Decompiler

/-- The first node stands before the second in order of appearance, in which a node without a place comes last. -/
def Graph.AppearsBefore (graph : Graph) (first second : NodeId) : Prop :=
  ∀ place, graph.position? second = some place → ∃ before < place, graph.position? first = some before

namespace SwitchTable

variable {table : SwitchTable} {graph : Graph} {key other : Int32} {node target : NodeId}
  {rows : List (Int32 × NodeId)} {cases cases' : List (NodeId × List Int32)}

/-- A row of the table sends the key to the node. -/
def Sends (table : SwitchTable) (key : Int32) (node : NodeId) : Prop :=
  ∃ row : Nat, table.keys[row]? = some key ∧ table.targets[row]? = some node

/-- The node that the table selects for a key: that of its first row, or else the default. -/
def selected (table : SwitchTable) (key : Int32) : NodeId :=
  ((table.keys.zip table.targets).lookup key).getD table.default

/-- The key is a label of the node's case. -/
def IsLabel (cases : List (NodeId × List Int32)) (key : Int32) (node : NodeId) : Prop :=
  ∃ keys, (node, keys) ∈ cases ∧ key ∈ keys

/-- The node that the labels of the cases select for a key: that of the first case with it, or else the default. -/
def selectedByLabel (table : SwitchTable) (cases : List (NodeId × List Int32)) (key : Int32) : NodeId :=
  ((cases.find? fun entry => entry.2.contains key).map Prod.fst).getD table.default

theorem sends_iff_mem : table.Sends key node ↔ (key, node) ∈ table.keys.zip table.targets := by
  simp only [Sends, List.mem_iff_getElem?, List.getElem?_zip_eq_some]

/-! ### Grouping -/

/-- The cases stand for the rows: one for every node, with the keys of its rows, each once. -/
structure Groups (rows : List (Int32 × NodeId)) (cases : List (NodeId × List Int32)) : Prop where
  nodes : (cases.map Prod.fst).Nodup
  filled : ∀ entry ∈ cases, entry.2 ≠ []
  once : ∀ entry ∈ cases, entry.2.Nodup
  label_iff : ∀ key node, IsLabel cases key node ↔ (key, node) ∈ rows

/-- A case is made for a node that has none. -/
theorem map_fst_addKey (key : Int32) (target : NodeId) (cases : List (NodeId × List Int32)) :
    (addKey key target cases).map Prod.fst =
      if target ∈ cases.map Prod.fst then cases.map Prod.fst else cases.map Prod.fst ++ [target] := by
  induction cases with
  | nil => rfl
  | cons entry cases ih =>
      rw [addKey]
      split
      case isTrue hSame => simp [hSame]
      case isFalse hOther =>
        by_cases hMem : target ∈ cases.map Prod.fst <;> simp [ih, hMem, Ne.symm hOther]

/-- Every case of a table with a new key was there before, with or without the key, or is the key's own. -/
theorem keys_of_mem_addKey {keys : List Int32} (hEntry : (node, keys) ∈ addKey key target cases) :
    (node, keys) ∈ cases ∨ keys = [key] ∨ ∃ before, (node, before) ∈ cases ∧ key ∉ before ∧ keys = before ++ [key] := by
  induction cases with
  | nil => exact .inr (.inl (Prod.mk.inj (List.mem_singleton.mp hEntry)).2)
  | cons entry cases ih =>
      rw [addKey] at hEntry
      split at hEntry
      case isTrue hSame =>
        rcases List.mem_cons.mp hEntry with hHead | hTail
        · obtain ⟨rfl, rfl⟩ := Prod.mk.inj hHead
          split
          case isTrue => exact .inl List.mem_cons_self
          case isFalse hNew =>
            exact .inr (.inr ⟨_, List.mem_cons_self, by simpa using hNew, rfl⟩)
        · exact .inl (List.mem_cons_of_mem _ hTail)
      case isFalse =>
        rcases List.mem_cons.mp hEntry with hHead | hTail
        · exact .inl (hHead ▸ List.mem_cons_self)
        · rcases ih hTail with hOld | hOwn | ⟨before, hOld, hNew⟩
          · exact .inl (List.mem_cons_of_mem _ hOld)
          · exact .inr (.inl hOwn)
          · exact .inr (.inr ⟨before, List.mem_cons_of_mem _ hOld, hNew⟩)

/-- A label is one of the first case or of another one. -/
theorem isLabel_cons {entry : NodeId × List Int32} :
    IsLabel (entry :: cases) key node ↔ (node = entry.1 ∧ key ∈ entry.2) ∨ IsLabel cases key node := by
  obtain ⟨head, keys⟩ := entry
  simp only [IsLabel, List.mem_cons, Prod.mk.injEq, or_and_right, exists_or]
  simp

/-- A key becomes a label of its target, and nothing else changes. -/
theorem isLabel_addKey :
    IsLabel (addKey key target cases) other node ↔ IsLabel cases other node ∨ (other = key ∧ node = target) := by
  induction cases with
  | nil => simp [addKey, IsLabel, and_comm]
  | cons entry cases ih =>
      rw [addKey]
      split
      case isTrue hSame =>
        have hKeys : other ∈ (if entry.2.contains key then entry.2 else entry.2 ++ [key]) ↔
            other ∈ entry.2 ∨ other = key := by
          split
          case isTrue hKnown =>
            have hKey : key ∈ entry.2 := by simpa using hKnown
            exact ⟨.inl, fun hOther => hOther.elim id fun hSame => hSame ▸ hKey⟩
          case isFalse => simp
        simp only [isLabel_cons, hKeys]
        grind
      case isFalse =>
        rw [isLabel_cons, isLabel_cons, ih, or_assoc]

theorem Groups.nil : Groups [] [] :=
  ⟨List.nodup_nil, by simp, by simp, by simp [IsLabel]⟩

/-- One more row adds its key to the case of its node. -/
theorem Groups.addKey (groups : Groups rows cases) (key : Int32) (target : NodeId) :
    Groups (rows ++ [(key, target)]) (addKey key target cases) where
  nodes := by
    rw [map_fst_addKey]
    split
    case isTrue => exact groups.nodes
    case isFalse hNew => exact List.nodup_append.mpr ⟨groups.nodes, List.nodup_singleton _, by grind⟩
  filled := by
    rintro ⟨node, keys⟩ hEntry
    rcases keys_of_mem_addKey hEntry with hOld | rfl | ⟨before, -, -, rfl⟩
    · exact groups.filled _ hOld
    · exact List.cons_ne_nil _ _
    · exact List.append_ne_nil_of_right_ne_nil _ (List.cons_ne_nil _ _)
  once := by
    rintro ⟨node, keys⟩ hEntry
    rcases keys_of_mem_addKey hEntry with hOld | rfl | ⟨before, hOld, hNew, rfl⟩
    · exact groups.once _ hOld
    · exact List.nodup_singleton _
    · have hBefore : before.Nodup := groups.once _ hOld
      exact List.nodup_append.mpr ⟨hBefore, List.nodup_singleton _, by grind⟩
  label_iff other node := by
    rw [isLabel_addKey, groups.label_iff, List.mem_append, List.mem_singleton, Prod.mk.injEq]

/-- Taking in rows one after another keeps the cases standing for all of them. -/
theorem Groups.foldl (groups : Groups rows cases) (entries : List (Int32 × NodeId)) :
    Groups (rows ++ entries) (entries.foldl (fun cases (key, target) => SwitchTable.addKey key target cases) cases) := by
  induction entries generalizing rows cases with
  | nil => simpa using groups
  | cons entry entries ih =>
      have hStep := ih (groups.addKey entry.1 entry.2)
      rwa [List.append_assoc] at hStep

/-- The order of the cases does not matter to what they label. -/
theorem Groups.perm (groups : Groups rows cases) (hPerm : cases'.Perm cases) : Groups rows cases' where
  nodes := (hPerm.map Prod.fst).nodup_iff.mpr groups.nodes
  filled entry hEntry := groups.filled entry (hPerm.mem_iff.mp hEntry)
  once entry hEntry := groups.once entry (hPerm.mem_iff.mp hEntry)
  label_iff key node := by
    simp only [IsLabel, hPerm.mem_iff]
    exact groups.label_iff key node

/-- The cases of a table are those of its rows but for the default. -/
theorem groups_cases (table : SwitchTable) (graph : Graph) :
    Groups ((table.keys.zip table.targets).filter (·.2 != table.default)) (table.cases graph) :=
  (Groups.nil.foldl _).perm (List.mergeSort_perm _ _)

/-- A key is a label of the node that a row sends it to, unless that is the default. -/
theorem isLabel_cases : IsLabel (table.cases graph) key node ↔ table.Sends key node ∧ node ≠ table.default := by
  rw [(groups_cases table graph).label_iff, List.mem_filter, sends_iff_mem, bne_iff_ne]

/-- The default is no case. -/
theorem default_not_mem_cases (table : SwitchTable) (graph : Graph) :
    table.default ∉ (table.cases graph).map Prod.fst := by
  intro hMem
  obtain ⟨⟨node, keys⟩, hEntry, rfl⟩ := List.mem_map.mp hMem
  obtain ⟨key, hKey⟩ := List.exists_mem_of_ne_nil keys ((groups_cases table graph).filled _ hEntry)
  exact (isLabel_cases.mp ⟨keys, hEntry, hKey⟩).2 rfl

/-! ### Order of appearance -/

/-- Two nodes have different places. -/
theorem position?_injective {first second : NodeId} {place : Nat} (hFirst : graph.position? first = some place)
    (hSecond : graph.position? second = some place) : first = second := by
  obtain ⟨hPlace, hAt, -⟩ := List.idxOf?_eq_some_iff.mp hFirst
  obtain ⟨_, hThere, -⟩ := List.idxOf?_eq_some_iff.mp hSecond
  exact hAt.symm.trans hThere

theorem appearsFirst_trans (graph : Graph) (a b c : NodeId × List Int32) (hFirst : appearsFirst graph a b = true)
    (hSecond : appearsFirst graph b c = true) : appearsFirst graph a c = true := by
  grind [appearsFirst]

theorem appearsFirst_total (graph : Graph) (a b : NodeId × List Int32) :
    (appearsFirst graph a b || appearsFirst graph b a) = true := by
  grind [appearsFirst]

theorem appearsBefore_of_appearsFirst {a b : NodeId × List Int32} (hFirst : appearsFirst graph a b = true)
    (hApart : a.1 ≠ b.1) : graph.AppearsBefore a.1 b.1 := by
  intro place hPlace
  cases hBefore : graph.position? a.1 with
  | none => simp [appearsFirst, hBefore, hPlace] at hFirst
  | some before =>
      have hLe : before ≤ place := by simpa [appearsFirst, hBefore, hPlace] using hFirst
      refine ⟨before, Nat.lt_of_le_of_ne hLe fun hSame => ?_, rfl⟩
      exact hApart (position?_injective hBefore (hSame ▸ hPlace))

/-- The cases come as their nodes do in the order of appearance. -/
theorem cases_pairwise (table : SwitchTable) (graph : Graph) :
    ((table.cases graph).map Prod.fst).Pairwise graph.AppearsBefore := by
  have hNodes := List.pairwise_map.mp (groups_cases table graph).nodes
  have hSorted : (table.cases graph).Pairwise fun a b => appearsFirst graph a b = true :=
    List.pairwise_mergeSort (appearsFirst_trans graph) (appearsFirst_total graph) _
  exact List.pairwise_map.mpr ((hSorted.and hNodes).imp fun h => appearsBefore_of_appearsFirst h.1 h.2)

/-! ### Selecting -/

/-- Where no key has two rows, a row is the one that selects for its key. -/
theorem lookup_of_sends (hKeys : table.keys.Nodup) (hSends : table.Sends key node) :
    (table.keys.zip table.targets).lookup key = some node := by
  cases hLookup : (table.keys.zip table.targets).lookup key with
  | none =>
      have hNone := List.lookup_eq_none_iff.mp hLookup _ (sends_iff_mem.mp hSends)
      simp at hNone
  | some found =>
      have hFound : table.Sends key found := by
        obtain ⟨front, back, hRows, -⟩ := List.lookup_eq_some_iff.mp hLookup
        exact sends_iff_mem.mpr (hRows ▸ List.mem_append_right _ List.mem_cons_self)
      obtain ⟨row, hKey, hNode⟩ := hSends
      obtain ⟨row', hKey', hFound⟩ := hFound
      obtain ⟨hRow, -⟩ := List.getElem?_eq_some_iff.mp hKey
      have hSame : row = row' := (List.getElem?_inj hRow hKeys).mp (hKey.trans hKey'.symm)
      rw [← hSame, hNode] at hFound
      exact hFound.symm

/-- The labels of the cases select what the table selects. -/
theorem selectedByLabel_cases (hKeys : table.keys.Nodup) (graph : Graph) (key : Int32) :
    table.selectedByLabel (table.cases graph) key = table.selected key := by
  cases hFind : (table.cases graph).find? fun entry => entry.2.contains key with
  | some entry =>
      have hLabel : IsLabel (table.cases graph) key entry.1 :=
        ⟨entry.2, List.mem_of_find?_eq_some hFind, by simpa using List.find?_some hFind⟩
      simp only [selectedByLabel, selected, hFind, lookup_of_sends hKeys (isLabel_cases.mp hLabel).1]
      rfl
  | none =>
      have hUnlabeled (node : NodeId) : ¬IsLabel (table.cases graph) key node := by
        rintro ⟨keys, hEntry, hKey⟩
        exact List.find?_eq_none.mp hFind _ hEntry (by simpa using hKey)
      simp only [selectedByLabel, selected, hFind]
      cases hLookup : (table.keys.zip table.targets).lookup key with
      | none => rfl
      | some node =>
          -- The row of a key without a label leads to the default.
          obtain ⟨front, back, hRows, -⟩ := List.lookup_eq_some_iff.mp hLookup
          have hSends : table.Sends key node :=
            sends_iff_mem.mpr (hRows ▸ List.mem_append_right _ List.mem_cons_self)
          exact (not_not.mp fun hNode => hUnlabeled node (isLabel_cases.mpr ⟨hSends, hNode⟩)).symm

/-! ### Arms -/

/-- Collecting nodes one after another keeps each of them once. -/
theorem collected_nodup {nodes : List NodeId} (hNodes : nodes.Nodup) (targets : List NodeId) :
    (targets.foldl (fun arms target => if arms.contains target then arms else arms ++ [target]) nodes).Nodup ∧
    ∀ node, node ∈ targets.foldl (fun arms target => if arms.contains target then arms else arms ++ [target]) nodes ↔
      node ∈ nodes ∨ node ∈ targets := by
  induction targets generalizing nodes with
  | nil => simpa using hNodes
  | cons target targets ih =>
      rw [List.foldl_cons]
      split
      case isTrue hKnown =>
        have hTarget : target ∈ nodes := by simpa using hKnown
        refine ⟨(ih hNodes).1, fun node => (ih hNodes).2 node |>.trans ?_⟩
        grind
      case isFalse hNew =>
        have hTarget : target ∉ nodes := by simpa using hNew
        have hMore : (nodes ++ [target]).Nodup :=
          List.nodup_append.mpr ⟨hNodes, List.nodup_singleton _, by grind⟩
        refine ⟨(ih hMore).1, fun node => (ih hMore).2 node |>.trans ?_⟩
        simp [or_assoc]

theorem mem_arms : node ∈ table.arms ↔ node ∈ table.targets ∨ node = table.default := by
  rw [arms, (collected_nodup List.nodup_nil _).2]
  simp

/-- Cases dispatch like the table: they stand in order of appearance for distinct nodes other than the default, and a
key is a label of a node's case, once, exactly if some row sends it to that node. Where no key has two rows, the labels
select what the table selects. The arms are the targets and the default, each once. -/
theorem cases_dispatch (table : SwitchTable) (graph : Graph) :
    ((table.cases graph).map Prod.fst).Nodup ∧ table.default ∉ (table.cases graph).map Prod.fst ∧
    ((table.cases graph).map Prod.fst).Pairwise graph.AppearsBefore ∧
    (∀ entry ∈ table.cases graph, entry.2 ≠ [] ∧ entry.2.Nodup) ∧
    (∀ key node, IsLabel (table.cases graph) key node ↔ table.Sends key node ∧ node ≠ table.default) ∧
    (table.keys.Nodup → ∀ key, table.selectedByLabel (table.cases graph) key = table.selected key ∧
      (table.Sends key table.default → ∀ node, ¬IsLabel (table.cases graph) key node)) ∧
    table.arms.Nodup ∧ ∀ node, node ∈ table.arms ↔ node ∈ table.targets ∨ node = table.default := by
  have hGroups := groups_cases table graph
  refine ⟨hGroups.nodes, default_not_mem_cases table graph, cases_pairwise table graph,
    fun entry hEntry => ⟨hGroups.filled entry hEntry, hGroups.once entry hEntry⟩, fun _ _ => isLabel_cases,
    fun hKeys key => ⟨selectedByLabel_cases hKeys graph key, fun hDefault node hLabel => ?_⟩,
    (collected_nodup List.nodup_nil _).1, fun _ => mem_arms⟩
  obtain ⟨hSends, hNode⟩ := isLabel_cases.mp hLabel
  have hSame := (lookup_of_sends hKeys hSends).symm.trans (lookup_of_sends hKeys hDefault)
  exact hNode (Option.some.inj hSame)

/-- Two keys share a node, one leads to the default, and the node of the first row has no place. -/
def shared : SwitchTable := { head := 0, default := 3, keys := [5, 1, 2, 7], targets := [9, 1, 1, 3] }

/-- Two keys share a node, one goes to the default, and one node has no place. -/
theorem cases_dispatch_shared :
    shared.keys.Nodup ∧ shared.Sends 7 3 ∧ shared.selected 2 = 1 ∧
      shared.selectedByLabel (shared.cases { order := [0, 1, 3] }) 2 = shared.selected 2 ∧
      ∀ node, ¬IsLabel (shared.cases { order := [0, 1, 3] }) 7 node := by
  have hKeys : shared.keys.Nodup := by decide
  have hDefault : shared.Sends 7 3 := ⟨3, rfl, rfl⟩
  obtain ⟨-, -, -, -, -, hSelects, -⟩ := cases_dispatch shared { order := [0, 1, 3] }
  exact ⟨hKeys, hDefault, rfl, (hSelects hKeys 2).1, (hSelects hKeys 7).2 hDefault⟩

example : shared.cases { order := [0, 1, 3] } = [(1, [1, 2]), (9, [5])] := by cbv

end SwitchTable

end Decompiler
