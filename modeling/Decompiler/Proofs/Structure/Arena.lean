import Decompiler.Proofs.Structure.Nesting
import Decompiler.Structure.Fold
import Decompiler.Structure.Nesting

/-!
Arenas of statements that are forests. Every statement names statements further down the arena only, and no
place of the arena but the first is named twice. So following what statements name ends, and comes to no
statement twice.
-/

namespace Decompiler

namespace Structure

/-- The statements inside a statement. -/
def nested : Structure → List StructureId
  | .empty | .fragment .. | .breaks .. | .continues .. => []
  | .conditional _ _ body otherwise _ => body :: otherwise.toList
  | .whileLoop _ _ _ body _ | .doWhile _ _ body _ _ | .forLoop _ _ _ _ _ body _ | .forEach _ _ _ _ body _
  | .forever _ _ body _ => [body]
  | .switch _ _ _ cases default _ _ => cases.map SwitchArm.body ++ default.toList
  | .protect _ body catches _ => body :: catches.map CatchArm.body

/-- The statements that a statement names. -/
def children (statement : Structure) : List StructureId := statement.nested ++ statement.follow?.toList

@[simp] theorem proper_append (ids others : List StructureId) : proper (ids ++ others) = proper ids ++ proper others :=
  List.filter_append ..

theorem follow_mem_children {statement : Structure} {follow : StructureId} (hFollow : statement.follow? = some follow) :
    follow ∈ statement.children :=
  List.mem_append_right _ (by rw [hFollow]; exact List.mem_singleton_self _)

theorem mem_proper {id : StructureId} {ids : List StructureId} : id ∈ proper ids ↔ id ∈ ids ∧ id ≠ emptyId := by
  simp [proper]

end Structure

open Structure

/-! ### Places -/

section Places

variable {β : Type} {structures : Array Structure} {named : Structure → List β} {id a b : StructureId} {item : β}

theorem place_of_mem (hEmpty : named .empty = []) (hItem : item ∈ named (structures.getD id .empty)) :
    ∃ hSize : id < structures.toList.length, item ∈ named structures.toList[id] := by
  by_cases hSize : id < structures.size
  · exact ⟨hSize, by simpa [Array.getD_eq_getD_getElem?, hSize] using hItem⟩
  · simp [Array.getD_eq_getD_getElem?, hSize, hEmpty] at hItem

/-- What is named once in the whole arena is named at one place. -/
theorem place_unique (hEmpty : named .empty = []) (hOnce : (structures.toList.flatMap named).Nodup)
    (hFirst : item ∈ named (structures.getD a .empty)) (hSecond : item ∈ named (structures.getD b .empty)) : a = b := by
  obtain ⟨ha, hInFirst⟩ := place_of_mem hEmpty hFirst
  obtain ⟨hb, hInSecond⟩ := place_of_mem hEmpty hSecond
  have hApart := List.pairwise_iff_getElem.mp (List.nodup_flatMap.mp hOnce).2
  by_contra hOther
  rcases Nat.lt_or_gt_of_ne hOther with hBefore | hAfter
  · exact hApart a b ha hb hBefore hInFirst hInSecond
  · exact hApart b a hb ha hAfter hInSecond hInFirst

theorem place_nodup (hEmpty : named .empty = []) (hOnce : (structures.toList.flatMap named).Nodup)
    (id : StructureId) : (named (structures.getD id .empty)).Nodup := by
  by_cases hSize : id < structures.size
  · refine (List.nodup_flatMap.mp hOnce).1 _ ?_
    simp [Array.getD_eq_getD_getElem?, hSize]
  · simp [Array.getD_eq_getD_getElem?, hSize, hEmpty]

theorem mem_arena_of_mem_place (hEmpty : named .empty = []) (hItem : item ∈ named (structures.getD id .empty)) :
    item ∈ structures.toList.flatMap named := by
  obtain ⟨hSize, hNamed⟩ := place_of_mem hEmpty hItem
  exact List.mem_flatMap.mpr ⟨_, List.getElem_mem hSize, hNamed⟩

end Places

/-! ### Forests -/

/-- Every statement names statements further down only. No proper place is named twice, neither by two
statements nor by a statement and as a root. -/
structure IsForest (structures : Array Structure) (roots : List StructureId) : Prop where
  below : ∀ id, ∀ child ∈ (structures.getD id .empty).children, child = emptyId ∨ child < id
  once : (proper (roots ++ structures.toList.flatMap children)).Nodup

namespace IsForest

variable {structures : Array Structure} {roots : List StructureId} {id child a b : StructureId}

/-- A statement may be dropped. -/
theorem drop (forest : IsForest structures roots) (id : StructureId) :
    IsForest (structures.setIfInBounds id .empty) roots where
  below other child hChild := by
    refine forest.below other child ?_
    by_cases hSame : id = other
    · subst hSame
      simp [Array.getD_eq_getD_getElem?, children, nested, follow?] at hChild
    · simpa [Array.getD_eq_getD_getElem?, Array.getElem?_setIfInBounds, hSame] using hChild
  once := by
    have hSublist : ∀ (list : List Structure) (place : Nat),
        ((list.set place .empty).flatMap children).Sublist (list.flatMap children) := by
      intro list
      induction list with
      | nil => exact fun _ => .refl _
      | cons first rest ih =>
          intro place
          cases place with
          | zero => exact List.sublist_append_right _ _
          | succ place => exact (List.Sublist.refl _).append (ih place)
    refine forest.once.sublist (List.Sublist.filter _ ((List.Sublist.refl _).append ?_))
    rw [Array.toList_setIfInBounds]
    exact hSublist _ _

theorem proper_once (forest : IsForest structures roots) :
    (structures.toList.flatMap fun statement => proper statement.children).Nodup := by
  have hOnce := forest.once
  rw [proper_append, proper, proper, List.filter_flatMap] at hOnce
  exact (List.nodup_append.mp hOnce).2.1

/-- A proper place is named by one statement at most. -/
theorem parent_unique (forest : IsForest structures roots) (hProper : child ≠ emptyId)
    (hFirst : child ∈ (structures.getD a .empty).children) (hSecond : child ∈ (structures.getD b .empty).children) :
    a = b :=
  place_unique rfl forest.proper_once (mem_proper.mpr ⟨hFirst, hProper⟩) (mem_proper.mpr ⟨hSecond, hProper⟩)

/-- A statement names a proper place once at most. -/
theorem children_nodup (forest : IsForest structures roots) (id : StructureId) :
    (proper (structures.getD id .empty).children).Nodup :=
  place_nodup rfl forest.proper_once id

/-- A root is no child. -/
theorem root_not_child (forest : IsForest structures roots) (hRoot : id ∈ roots) (hProper : id ≠ emptyId)
    (other : StructureId) : id ∉ (structures.getD other .empty).children := by
  intro hChild
  have hOnce := forest.once
  rw [proper_append] at hOnce
  refine (List.nodup_append.mp hOnce).2.2 id (mem_proper.mpr ⟨hRoot, hProper⟩) id ?_ rfl
  exact mem_proper.mpr ⟨mem_arena_of_mem_place rfl hChild, hProper⟩

end IsForest

/-! ### Inwards -/

namespace StructureTree

variable {tree : StructureTree} {roots : List StructureId} {id other : StructureId}

/-- The proper places that a statement names. -/
def inside (tree : StructureTree) (id : StructureId) : List StructureId := proper (tree.get id).children

theorem unshared (forest : IsForest tree.structures roots) : Unshared tree.inside fun _ => True where
  closed _ _ _ := trivial
  once _ := forest.children_nodup _
  holder_unique _ _ hFirst hSecond :=
    forest.parent_unique (mem_proper.mp hFirst).2 (mem_proper.mp hFirst).1 (mem_proper.mp hSecond).1

theorem lt_of_mem_inside (forest : IsForest tree.structures roots) (hInside : other ∈ tree.inside id) :
    other < id :=
  (forest.below id other (mem_proper.mp hInside).1).resolve_left (mem_proper.mp hInside).2

/-- Each step inwards leads further down the arena. -/
theorem add_le_of_mem_level (forest : IsForest tree.structures roots) {depth : Nat}
    (hOther : other ∈ level tree.inside id depth) : other + depth ≤ id := by
  induction depth generalizing other with
  | zero => exact Nat.le_of_eq (List.mem_singleton.mp hOther)
  | succ depth ih =>
      obtain ⟨holder, hHolder, hInside⟩ := List.mem_flatMap.mp hOther
      calc other + (depth + 1) = other + 1 + depth := Nat.add_right_comm other depth 1
        _ ≤ holder + depth := Nat.add_le_add_right (lt_of_mem_inside forest hInside) depth
        _ ≤ id := ih hHolder

theorem not_mem_level (forest : IsForest tree.structures roots) (id : StructureId) (depth : Nat) :
    id ∉ level tree.inside id (depth + 1) := fun hSelf =>
  Nat.not_succ_le_self _ ((Nat.add_le_add_left (Nat.le_add_left 1 depth) id).trans (add_le_of_mem_level forest hSelf))

/-- The way inwards ends before the depth exceeds the place of the statement. -/
theorem level_eq_nil (forest : IsForest tree.structures roots) (id : StructureId) :
    level tree.inside id (id + 1) = [] := by
  refine List.eq_nil_iff_forall_not_mem.mpr fun other hOther => ?_
  exact Nat.not_succ_le_self _ ((Nat.le_add_left _ _).trans (add_le_of_mem_level forest hOther))

/-- No statement is met twice on the ways into a statement. -/
theorem within_nodup (forest : IsForest tree.structures roots) (id : StructureId) (depth : Nat) :
    (within tree.inside id depth).Nodup :=
  (unshared forest).within_nodup trivial (not_mem_level forest id) depth

/-! ### Chains -/

/-- A chain leads further down the arena. -/
theorem chainFrom_sorted (forest : IsForest tree.structures roots) (fuel : Nat) (id : StructureId) :
    (∀ other ∈ tree.chainFrom fuel id, other ≤ id) ∧ (tree.chainFrom fuel id).Pairwise (· > ·) := by
  induction fuel generalizing id with
  | zero => exact ⟨fun _ hOther => absurd hOther List.not_mem_nil, .nil⟩
  | succ fuel ih =>
      rw [chainFrom]
      split
      · exact ⟨fun _ hOther => absurd hOther List.not_mem_nil, .nil⟩
      · cases hFollow : (tree.get id).follow? with
        | none => simp
        | some follow =>
            obtain ⟨hLe, hSorted⟩ := ih follow
            have hLess : ∀ other ∈ tree.chainFrom fuel follow, other < id := by
              intro other hOther
              rcases forest.below id follow (follow_mem_children hFollow) with rfl | hBelow
              · cases fuel <;> simp [chainFrom] at hOther
              · exact Nat.lt_of_le_of_lt (hLe other hOther) hBelow
            refine ⟨fun other hOther => ?_, List.pairwise_cons.mpr ⟨hLess, hSorted⟩⟩
            rcases List.mem_cons.mp hOther with rfl | hRest
            · exact Nat.le_refl _
            · exact (hLess other hRest).le

/-- A chain comes to no statement twice. -/
theorem chain_nodup (forest : IsForest tree.structures roots) (id : StructureId) : (tree.chain id).Nodup :=
  (chainFrom_sorted forest _ id).2.imp fun hGreater => Nat.ne_of_gt hGreater

/-- A chain ends by itself as soon as its bound exceeds the place of the first statement. -/
theorem chainFrom_eq_of_lt (forest : IsForest tree.structures roots) {fuel other : Nat} (hFuel : id < fuel)
    (hOther : id < other) : tree.chainFrom fuel id = tree.chainFrom other id := by
  induction fuel generalizing id other with
  | zero => exact absurd hFuel (Nat.not_lt_zero _)
  | succ fuel ih =>
      cases other with
      | zero => exact absurd hOther (Nat.not_lt_zero _)
      | succ other =>
          rw [chainFrom, chainFrom]
          cases hFollow : (tree.get id).follow? with
          | none => rfl
          | some follow =>
              split
              · rfl
              · refine congrArg (id :: ·) ?_
                rcases forest.below id follow (follow_mem_children hFollow) with rfl | hBelow
                · cases fuel <;> cases other <;> simp [chainFrom]
                · exact ih (Nat.lt_of_lt_of_le hBelow (Nat.le_of_lt_succ hFuel))
                    (Nat.lt_of_lt_of_le hBelow (Nat.le_of_lt_succ hOther))

theorem get_of_size_le (hOutside : tree.structures.size ≤ id) : tree.get id = .empty := by
  simp [get, Array.getD_eq_getD_getElem?, Array.getElem?_eq_none hOutside]

/-- Outside the arena there is nothing that goes on. -/
theorem chainFrom_outside (hOutside : tree.structures.size ≤ id) (fuel : Nat) :
    tree.chainFrom (fuel + 1) id = if id = emptyId then [] else [id] := by
  rw [chainFrom, get_of_size_le hOutside]
  rfl

/-- A chain is never cut off. -/
theorem chainFrom_eq_chain (forest : IsForest tree.structures roots) {fuel : Nat}
    (hFuel : tree.structures.size < fuel) (id : StructureId) : tree.chainFrom fuel id = tree.chain id := by
  rcases Nat.lt_or_ge id tree.structures.size with hInside | hOutside
  · exact chainFrom_eq_of_lt forest (hInside.trans hFuel) (hInside.trans (Nat.lt_succ_self _))
  · obtain ⟨fuel, rfl⟩ := Nat.exists_eq_add_one_of_ne_zero (Nat.ne_of_gt (Nat.zero_lt_of_lt hFuel))
    rw [chain, chainFrom_outside hOutside, chainFrom_outside hOutside]

end StructureTree

end Decompiler
