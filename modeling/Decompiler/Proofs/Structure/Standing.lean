import Decompiler.Proofs.Structure.Decompiled

/-!
Where the statements of decompiled units stand. Nothing that was made is lost: every statement of the arena is met on
the way from the first one, and so is what each node became that still has operands. Only where a loop is tested can a
node be left without a statement of its own.
-/

namespace Decompiler

open Structure

/-- A statement is met on the way from the first one of a tree, inside the given constructs, innermost first. -/
inductive Stands (tree : StructureTree) : List BreakableId → StructureId → Prop where
  | root : Stands tree [] tree.root
  | inside {outer : List BreakableId} {id child : StructureId} (stands : Stands tree outer id)
      (hChild : child ∈ (tree.get id).nested) : Stands tree ((tree.get id).around outer) child
  | follow {outer : List BreakableId} {id child : StructureId} (stands : Stands tree outer id)
      (hFollow : (tree.get id).follow? = some child) : Stands tree outer child

theorem StructureTree.get_of_getElem? {tree : StructureTree} {id : StructureId} {statement : Structure}
    (hGet : tree.structures[id]? = some statement) : tree.get id = statement := by
  rw [StructureTree.get, Array.getD_eq_getD_getElem?, hGet, Option.getD_some]

section Trees

variable {tree : StructureTree} {outer : List BreakableId} {id : StructureId}

/-- By induction on the way from the first statement. -/
theorem Stands.enclosed (stands : Stands tree outer id)
    (hRoot : Enclosed tree.structures tree.breakables [] tree.root) :
    Enclosed tree.structures tree.breakables outer id := by
  induction stands with
  | root => exact hRoot
  | inside _ hChild ih =>
      obtain ⟨hGet, -, -, inside, -⟩ := ih
      rw [StructureTree.get_of_getElem? hGet] at hChild ⊢
      exact inside _ hChild
  | follow _ hFollow ih =>
      obtain ⟨hGet, -, -, -, follow⟩ := ih
      rw [StructureTree.get_of_getElem? hGet] at hFollow
      exact follow _ hFollow

theorem Stands.fits (stands : Stands tree outer id)
    (hRoot : Enclosed tree.structures tree.breakables [] tree.root) : (tree.get id).Fits tree.breakables outer := by
  obtain ⟨hGet, -, fits, -, -⟩ := stands.enclosed hRoot
  rwa [StructureTree.get_of_getElem? hGet]

/-- Every proper statement of a tree that is complete stands somewhere in it: whatever names it stands further up in the
arena. -/
theorem exists_stands (forest : IsForest tree.structures [tree.root]) (complete : Complete tree.structures [tree.root])
    (hId : id < tree.structures.size) (hProper : id ≠ emptyId) : ∃ outer, Stands tree outer id := by
  induction hAbove : tree.structures.size - id using Nat.strong_induction_on generalizing id with
  | _ above ih =>
      rcases complete id hId hProper with hRoot | ⟨other, hNamed⟩
      · exact ⟨[], List.mem_singleton.mp hRoot ▸ .root⟩
      · have hBelow : id < other := (forest.below other id hNamed).resolve_left hProper
        obtain ⟨hOther, -⟩ := place_of_mem rfl hNamed
        rw [Array.length_toList] at hOther
        obtain ⟨outer, stands⟩ := ih (tree.structures.size - other)
          (hAbove ▸ Nat.sub_lt_sub_left hId hBelow) hOther (Nat.ne_of_gt (Nat.zero_lt_of_lt hBelow)) rfl
        rcases List.mem_append.mp hNamed with hNested | hFollow
        · exact ⟨_, stands.inside hNested⟩
        · exact ⟨outer, stands.follow (Option.mem_toList.mp hFollow)⟩

end Trees

/-- No statement of a unit is lost, and no node that control can reach and that has operands left, unless a loop is
tested at it. -/
theorem decompileUnit_stands {setting : Setting} {unit : CompiledUnit} {method : DecompiledMethod}
    (hRun : decompileUnit setting unit = .ok method) :
    (∀ id < method.tree.structures.size, id ≠ emptyId → ∃ outer, Stands method.tree outer id) ∧
      ∀ node ∈ method.body.graph.reachable, (method.body.graph.node node).stack ≠ [] →
        (∃ id, (method.body.graph.node node).statement = some id ∧
          (id = emptyId ∨ ∃ outer, Stands method.tree outer id)) ∨
        ∃ construct < method.tree.breakables.size, (method.tree.breakable construct).checkpoint = some node := by
  have into := decompileUnit_into hRun
  refine ⟨fun id => exists_stands into.forest into.complete, fun node hNode hStack => ?_⟩
  refine (into.handled node hNode hStack).imp_left fun hStatement => ?_
  obtain ⟨id, hPlaced⟩ := Option.isSome_iff_exists.mp hStatement
  refine ⟨id, hPlaced, or_iff_not_imp_left.mpr fun hProper => ?_⟩
  exact exists_stands into.forest into.complete (into.placed node id hPlaced) hProper

end Decompiler
